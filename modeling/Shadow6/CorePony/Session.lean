import Shadow6.Library.Bytes
import Shadow6.Library.Dict
import Shadow6.Library.Reorder

/-!
# `CorePony.Session` — `ReliableSession`

Model of the class `ReliableSession` in `protocol.pony`: sequence numbers with a sliding window on the sending
side, a map of packets that are not acknowledged, a map of records that have arrived early on the receiving side,
and the round-trip estimate behind the retransmission timer.

Sequence numbers are `U64` and the credit is a `USize`; their subtractions wrap, and the module shows that in a
session they never do (`Windowed`). Times are nanoseconds without a bound. The order in which the map of pending
packets is visited is an argument of `retransmit`.
-/

namespace Shadow6.CorePony

open Library List Dict

/-- `U64.max_value()`, which is also that of `USize`. -/
def u64Max : Nat := 2 ^ 64 - 1

/-- Subtraction of two `U64`. -/
def sub64 (a b : Nat) : Nat := (a + 2 ^ 64 - b) % 2 ^ 64

theorem sub64_of_le {a b : Nat} (ha : a < 2 ^ 64) (h : b ≤ a) : sub64 a b = a - b := by
  unfold sub64
  omega

/-- `SessionLimits.max_pending()`. -/
def maxPending : Nat := 4096

structure PendingPacket where
  wire : Bytes
  firstSent : Nat
  lastSent : Nat
  timeout : Nat
  retries : Nat

structure ReliableSession where
  next : Nat
  sendBase : Nat
  receiveNext : Nat
  isConnected : Bool
  sentPackets : Dict Nat PendingPacket
  receivedPackets : Dict Nat Bytes
  srtt : Nat
  rttvar : Nat
  retryAt : Nat

namespace ReliableSession

def new : ReliableSession := ⟨2, 2, 2, false, .empty, .empty, 0, 0, 0⟩

variable (s : ReliableSession)

def connected : ReliableSession := { s with isConnected := true }

def clear : ReliableSession :=
  { s with isConnected := false, sentPackets := .empty, receivedPackets := .empty, retryAt := 0 }

/-! ## Sending -/

/-- `application_credit()`. -/
def applicationCredit : Nat :=
  if ¬ s.isConnected ∨ s.next ≥ u64Max then 0
  else min (sub64 maxPending s.sentPackets.size) (sub64 maxPending (sub64 s.next s.sendBase))

/-- `can_send()`. -/
def canSend : Bool := decide (0 < s.applicationCredit)

/-- `pending_count()`. -/
def pendingCount : Nat := s.sentPackets.size

/-- `next_sequence()`. -/
def nextSequence : Option (Nat × ReliableSession) :=
  if s.canSend then some (s.next, { s with next := s.next + 1 }) else none

/-- `sample_rtt(sample)`. -/
def sampleRtt (sample : Nat) : ReliableSession :=
  if sample = 0 then s
  else if s.srtt = 0 then { s with srtt := sample, rttvar := sample / 2 }
  else
    let deviation := if sample ≤ s.srtt then s.srtt - sample else sample - s.srtt
    { s with rttvar := (s.rttvar * 3 + deviation) / 4, srtt := (s.srtt * 7 + sample) / 8 }

/-- `rto()`. -/
def rto : Nat :=
  if s.srtt = 0 then 200000000
  else min (max (s.srtt + max (s.rttvar * 4) 10000000) 20000000) 5000000000

/-- `sent(sequence, wire, now)`. -/
def sent (sequence : Nat) (wire : Bytes) (now : Nat) : ReliableSession := { s with
  sentPackets := s.sentPackets.set sequence ⟨wire, now, now, s.rto, 0⟩
  retryAt := if s.retryAt = 0 ∨ now + s.rto < s.retryAt then now + s.rto else s.retryAt }

/-- The loop of `acknowledge` over the `n` numbers from `base` to `_next`. -/
def baseLoop (packets : Dict Nat PendingPacket) : Nat → Nat → Nat
  | 0, base => base
  | n + 1, base => if base ∈ packets then base else baseLoop packets n (base + 1)

/-- `acknowledge(sequence, now)`. -/
def acknowledge (sequence now : Nat) : Bool × ReliableSession :=
  match s.sentPackets.find? sequence with
  | none => (false, s)
  | some packet =>
    -- an acknowledgement after a retransmission gives no sample
    let s := if packet.retries = 0 then s.sampleRtt (now - packet.firstSent) else s
    let packets := s.sentPackets.erase sequence
    (true, { s with sentPackets := packets, sendBase := baseLoop packets (s.next - s.sendBase) s.sendBase })

/-- The earliest time at which a packet is due. -/
def dueBy (packet : PendingPacket) : ReliableSession :=
  let next := packet.lastSent + packet.timeout
  if s.retryAt = 0 ∨ next < s.retryAt then { s with retryAt := next } else s

/-- The loop of `retransmit` over the numbers of the pending packets; `none` is an error. -/
def retransmitLoop (now : Nat) : List Nat → ReliableSession → List Bytes → Option (List Bytes) × ReliableSession
  | [], s, due => (some due, s)
  | sequence :: rest, s, due =>
    match s.sentPackets.find? sequence with
    | none => retransmitLoop now rest s due
    | some packet =>
      if packet.lastSent ≤ now ∧ packet.timeout ≤ now - packet.lastSent then
        if 8 ≤ packet.retries then (none, s)
        else
          let packet := { packet with
            retries := packet.retries + 1, lastSent := now, timeout := min (packet.timeout * 2) 5000000000 }
          let s := { s with sentPackets := s.sentPackets.set sequence packet }
          let due := due ++ [packet.wire]
          -- the rest of the window waits for the next tick
          if 256 ≤ due.length then (some due, { s with retryAt := now })
          else retransmitLoop now rest (s.dueBy packet) due
      else retransmitLoop now rest (s.dueBy packet) due

/-- `retransmit(now)`, with the order in which the pending packets are visited. -/
def retransmit (now : Nat) (order : List Nat) : Option (List Bytes) × ReliableSession :=
  if s.retryAt ≠ 0 ∧ now < s.retryAt then (some [], s)
  else retransmitLoop now order { s with retryAt := 0 } []

/-! ## Receiving -/

/-- `receive_in_order(sequence)`. -/
def receiveInOrder (sequence : Nat) : Bool × ReliableSession :=
  if sequence = s.receiveNext ∧ sequence < u64Max then (true, { s with receiveNext := s.receiveNext + 1 })
  else (false, s)

/-- `has_buffered()`. -/
def hasBuffered : Bool := decide (0 < s.receivedPackets.size)

/-- `accept_receive(sequence, payload)`. -/
def acceptReceive (sequence : Nat) (payload : Bytes) : Bool × ReliableSession :=
  if sequence < 2 ∨ sequence = u64Max then (false, s)
  else if sequence < s.receiveNext then (true, s)
  else if maxPending ≤ sequence - s.receiveNext then (false, s)
  else if sequence ∈ s.receivedPackets then (true, s)
  else (true, { s with receivedPackets := s.receivedPackets.set sequence payload })

/-- The loop of `deliver`, for at most `n` records. -/
def deliverLoop : Nat → ReliableSession → List Bytes → List Bytes × ReliableSession
  | 0, s, result => (result, s)
  | n + 1, s, result =>
    match s.receivedPackets.find? s.receiveNext with
    | none => (result, s)
    | some payload =>
      deliverLoop n
        { s with receivedPackets := s.receivedPackets.erase s.receiveNext, receiveNext := s.receiveNext + 1 }
        (result ++ [payload])

/-- `deliver()`; every round takes a record from the map. -/
def deliver : List Bytes × ReliableSession := deliverLoop s.receivedPackets.size s []

/-! ## The sending window -/

/-- The numbers of the packets that are not acknowledged lie between `_send_base` and `_next`, at most a window
    apart. -/
structure Windowed (s : ReliableSession) : Prop where
  start : 2 ≤ s.sendBase
  ordered : s.sendBase ≤ s.next
  window : s.next ≤ s.sendBase + maxPending
  bound : s.next ≤ u64Max
  keys : ∀ k ∈ s.sentPackets, s.sendBase ≤ k ∧ k < s.next

theorem Windowed.new : Windowed new := by
  refine ⟨le_rfl, le_rfl, ?_, ?_, fun k hk => absurd hk (not_mem_empty k)⟩
  · show 2 ≤ 2 + maxPending
    omega
  · decide

variable {s : ReliableSession}

theorem Windowed.size_le (h : Windowed s) : s.sentPackets.size ≤ s.next - s.sendBase := by
  have hsub : (s.sentPackets.entries.map Prod.fst).toFinset ⊆ Finset.Ico s.sendBase s.next := by
    intro k hk
    obtain ⟨hlow, hhigh⟩ := h.keys k (mem_toFinset.mp hk)
    exact Finset.mem_Ico.mpr ⟨hlow, hhigh⟩
  have hcard := Finset.card_le_card hsub
  rw [toFinset_card_of_nodup s.sentPackets.nodup, length_map, Nat.card_Ico] at hcard
  exact hcard

/-- **The credit does not wrap.** Both its subtractions are of a number that is not larger. -/
theorem Windowed.credit (h : Windowed s) (hcon : s.isConnected = true) (hnx : s.next < u64Max) :
    s.sentPackets.size ≤ maxPending ∧ s.next - s.sendBase ≤ maxPending ∧
      s.applicationCredit = min (maxPending - s.sentPackets.size) (maxPending - (s.next - s.sendBase)) := by
  have hsz := h.size_le
  have hwin := h.window
  have hsml : maxPending < 2 ^ 64 := by decide
  have hmax : u64Max < 2 ^ 64 := by decide
  refine ⟨by omega, by omega, ?_⟩
  unfold applicationCredit
  rw [if_neg (by simp [hcon]; omega), sub64_of_le hsml (by omega), sub64_of_le (by omega) h.ordered,
    sub64_of_le hsml (by omega)]

theorem Windowed.canSend (h : Windowed s) (hsend : s.canSend = true) :
    s.isConnected = true ∧ s.next < u64Max ∧ s.next < s.sendBase + maxPending := by
  have hcred : 0 < s.applicationCredit := by simpa [ReliableSession.canSend] using hsend
  have hlive : s.isConnected = true ∧ s.next < u64Max := by
    by_contra hnot
    have hzero : s.applicationCredit = 0 := by
      unfold applicationCredit
      rw [if_pos]
      by_contra hboth
      push Not at hboth
      exact hnot ⟨by simpa using hboth.1, hboth.2⟩
    omega
  obtain ⟨-, -, heq⟩ := h.credit hlive.1 hlive.2
  exact ⟨hlive.1, hlive.2, by omega⟩

variable (now : Nat)

theorem Windowed.send (h : Windowed s) (hsend : s.canSend = true) (wr : Bytes) :
    Windowed (({ s with next := s.next + 1 } : ReliableSession).sent s.next wr now) := by
  obtain ⟨-, hbnd, hroom⟩ := h.canSend hsend
  have hord := h.ordered
  refine ⟨h.start, ?_, ?_, hbnd, ?_⟩
  · show s.sendBase ≤ s.next + 1
    omega
  · show s.next + 1 ≤ s.sendBase + maxPending
    omega
  · intro k hk
    rcases mem_set.mp hk with rfl | hk
    · exact ⟨hord, Nat.lt_succ_self _⟩
    · obtain ⟨hlow, hhigh⟩ := h.keys k hk
      exact ⟨hlow, Nat.lt_succ_of_lt hhigh⟩

/-- The base moves to the first pending number, at most `n` on. -/
theorem baseLoop_spec (packets : Dict Nat PendingPacket) (n base : Nat) :
    base ≤ baseLoop packets n base ∧ baseLoop packets n base ≤ base + n ∧
      ∀ k, base ≤ k → k < baseLoop packets n base → k ∉ packets := by
  induction n generalizing base with
  | zero => exact ⟨le_rfl, le_rfl, fun k hlow hhigh => absurd hlow (not_le.mpr hhigh)⟩
  | succ n ih =>
    unfold baseLoop
    split
    · exact ⟨le_rfl, Nat.le_add_right _ _, fun k hlow hhigh => absurd hlow (not_le.mpr hhigh)⟩
    rename_i hfree
    obtain ⟨hlow, hhigh, hnone⟩ := ih (base + 1)
    refine ⟨by omega, by omega, ?_⟩
    intro k hk hlt
    rcases Nat.eq_or_lt_of_le hk with rfl | hk
    · exact hfree
    · exact hnone k hk hlt

theorem sampleRtt_eq (s : ReliableSession) (sm : Nat) :
    ∃ sr r, s.sampleRtt sm = { s with srtt := sr, rttvar := r } := by
  unfold sampleRtt
  split
  · exact ⟨s.srtt, s.rttvar, rfl⟩
  split
  · exact ⟨_, _, rfl⟩
  · exact ⟨_, _, rfl⟩

variable {sequence : Nat}

/-- What an acknowledgement of a pending packet changes. -/
theorem acknowledge_eq (hpend : sequence ∈ s.sentPackets) : ∃ sr r, s.acknowledge sequence now =
      (true, { s with
        srtt := sr, rttvar := r, sentPackets := s.sentPackets.erase sequence
        sendBase := baseLoop (s.sentPackets.erase sequence) (s.next - s.sendBase) s.sendBase }) := by
  obtain ⟨packet, hpkt⟩ := mem_iff_find?.mp hpend
  unfold acknowledge
  rw [hpkt]
  dsimp only
  split
  · obtain ⟨srtt, r, heq⟩ := sampleRtt_eq s (now - packet.firstSent)
    rw [heq]
    exact ⟨srtt, r, rfl⟩
  · exact ⟨s.srtt, s.rttvar, rfl⟩

theorem acknowledge_unknown (h : sequence ∉ s.sentPackets) : s.acknowledge sequence now = (false, s) := by
  unfold acknowledge
  rw [not_mem_iff_find?.mp h]

theorem Windowed.acknowledge (h : Windowed s) (sequence : Nat) : Windowed (s.acknowledge sequence now).2 := by
  by_cases hpend : sequence ∈ s.sentPackets
  · obtain ⟨srtt, rttvar, heq⟩ := acknowledge_eq now hpend
    rw [heq]
    obtain ⟨hlow, hhigh, hnone⟩ := baseLoop_spec (s.sentPackets.erase sequence) (s.next - s.sendBase) s.sendBase
    have hord := h.ordered
    have hwin := h.window
    refine ⟨h.start.trans hlow, ?_, ?_, h.bound, ?_⟩
    · dsimp only
      omega
    · dsimp only
      omega
    · intro k hk
      obtain ⟨hk', hrg⟩ := And.intro (mem_erase.mp hk).2 (h.keys k (mem_erase.mp hk).2)
      refine ⟨?_, hrg.2⟩
      by_contra hlt
      exact hnone k hrg.1 (not_le.mp hlt) hk
  · rw [acknowledge_unknown now hpend]
    exact h

/-! ## Retransmission -/

/-- `t` is `s` but for timers and the connection: the same numbers are pending with the same wires. -/
structure Restamped (s t : ReliableSession) : Prop where
  next : t.next = s.next
  sendBase : t.sendBase = s.sendBase
  receiveNext : t.receiveNext = s.receiveNext
  receivedPackets : t.receivedPackets = s.receivedPackets
  wires : ∀ k, (t.sentPackets.find? k).map (·.wire) = (s.sentPackets.find? k).map (·.wire)

theorem Restamped.refl (s : ReliableSession) : Restamped s s := ⟨rfl, rfl, rfl, rfl, fun _ => rfl⟩

theorem Restamped.trans {t u : ReliableSession} (h : Restamped s t) (h' : Restamped t u) : Restamped s u :=
  ⟨h'.next.trans h.next, h'.sendBase.trans h.sendBase, h'.receiveNext.trans h.receiveNext,
    h'.receivedPackets.trans h.receivedPackets, fun k => (h'.wires k).trans (h.wires k)⟩

variable {t : ReliableSession}

theorem Restamped.symm (h : Restamped s t) : Restamped t s :=
  ⟨h.next.symm, h.sendBase.symm, h.receiveNext.symm, h.receivedPackets.symm, fun k => (h.wires k).symm⟩

theorem Restamped.mem_iff (h : Restamped s t) (k : Nat) : k ∈ t.sentPackets ↔ k ∈ s.sentPackets := by
  have hsome := congrArg Option.isSome (h.wires k)
  simp only [Option.isSome_map] at hsome
  rw [mem_iff_find?, mem_iff_find?, ← Option.isSome_iff_exists, ← Option.isSome_iff_exists, hsome]

theorem Windowed.restamped (hw : Windowed s) (h : Restamped s t) : Windowed t := by
  have hmem := h.mem_iff
  obtain ⟨hbase, hnx, -, -, -⟩ := h
  cases t
  dsimp only at hbase hnx
  subst hbase hnx
  exact { hw with keys := fun k hk => hw.keys k ((hmem k).mp hk) }

theorem connected_restamped (s : ReliableSession) : Restamped s s.connected := { Restamped.refl s with }

theorem dueBy_restamped (s : ReliableSession) (p : PendingPacket) : Restamped s (s.dueBy p) := by
  unfold dueBy
  dsimp only
  split
  · exact { Restamped.refl s with }
  · exact .refl s

/-- A pending packet is stamped anew. -/
theorem set_restamped {p p' : PendingPacket} (hfd : s.sentPackets.find? sequence = some p)
    (hwire : p'.wire = p.wire) :
    Restamped s { s with sentPackets := s.sentPackets.set sequence p' } := by
  refine { Restamped.refl s with wires := ?_ }
  intro k
  rw [find?_set]
  split
  · rename_i hk
    subst hk
    rw [hfd, Option.map_some, Option.map_some, hwire]
  · rfl

/-- The wire of a packet that is pending. -/
def PendingWire (s : ReliableSession) (w : Bytes) : Prop := ∃ k p, s.sentPackets.find? k = some p ∧ p.wire = w

theorem Restamped.pendingWire (h : Restamped s t) {w : Bytes} (hw : PendingWire t w) : PendingWire s w := by
  obtain ⟨k, p, hp, rfl⟩ := hw
  have hk := h.wires k
  rw [hp, Option.map_some] at hk
  obtain ⟨q, hq, heq⟩ := Option.map_eq_some_iff.mp hk.symm
  exact ⟨k, q, hq, heq⟩

/-- A retransmission changes timers only, and what is due is pending. -/
theorem retransmitLoop_spec (o : List Nat) (s : ReliableSession) (due : List Bytes) :
    Restamped s (retransmitLoop now o s due).2 ∧
      ∀ wires, (retransmitLoop now o s due).1 = some wires → ∀ w ∈ wires, w ∈ due ∨ PendingWire s w := by
  induction o generalizing s due with
  | nil =>
    refine ⟨.refl s, ?_⟩
    rintro wires ⟨⟩ w hw
    exact .inl hw
  | cons sequence r ih =>
    -- the rest of the loop goes on from a session that differs in timers only
    have hgo : ∀ t due', Restamped s t → (∀ w ∈ due', w ∈ due ∨ PendingWire s w) →
        Restamped s (retransmitLoop now r t due').2 ∧
          ∀ wires, (retransmitLoop now r t due').1 = some wires → ∀ w ∈ wires, w ∈ due ∨ PendingWire s w := by
      intro t due' ht hdue
      obtain ⟨hsmp, hws⟩ := ih t due'
      refine ⟨ht.trans hsmp, ?_⟩
      intro wires hok w hw
      rcases hws wires hok w hw with hold | hpend
      · exact hdue w hold
      · exact .inr (ht.pendingWire hpend)
    unfold retransmitLoop
    cases hfd : s.sentPackets.find? sequence with
    | none => exact hgo s due (.refl s) fun w hw => .inl hw
    | some packet =>
      dsimp only
      split
      · split
        · exact ⟨.refl s, nofun⟩
        have hset : Restamped s { s with sentPackets := s.sentPackets.set sequence { packet with
            retries := packet.retries + 1, lastSent := now, timeout := min (packet.timeout * 2) 5000000000 } } :=
          set_restamped hfd rfl
        have hdue : ∀ w ∈ due ++ [packet.wire], w ∈ due ∨ PendingWire s w :=
          forall_mem_append.mpr ⟨fun _ => .inl, forall_mem_singleton.mpr (.inr ⟨sequence, packet, hfd, rfl⟩)⟩
        split
        · refine ⟨hset.trans { Restamped.refl _ with }, ?_⟩
          rintro wires ⟨⟩
          exact hdue
        · exact hgo _ _ (hset.trans (dueBy_restamped _ _)) hdue
      · exact hgo _ _ (dueBy_restamped s packet) fun w hw => .inl hw

theorem retransmit_spec (s : ReliableSession) (o : List Nat) : Restamped s (s.retransmit now o).2 ∧
      ∀ wires, (s.retransmit now o).1 = some wires → ∀ w ∈ wires, PendingWire s w := by
  unfold retransmit
  split
  · refine ⟨.refl s, ?_⟩
    rintro wires ⟨⟩ w hw
    exact absurd hw not_mem_nil
  have hzero : Restamped s { s with retryAt := 0 } := { Restamped.refl s with }
  obtain ⟨hsmp, hws⟩ := retransmitLoop_spec now o { s with retryAt := 0 } []
  refine ⟨hzero.trans hsmp, ?_⟩
  intro wires hok w hw
  rcases hws wires hok w hw with hnone | hpend
  · exact absurd hnone not_mem_nil
  · exact hzero.pendingWire hpend

/-! ## Receiving in order -/

/-- The payload of a number, once it has arrived: delivered, or held for later. -/
def Accepted (s : ReliableSession) (sequence : Nat) : Prop :=
  sequence < s.receiveNext ∨ sequence ∈ s.receivedPackets

instance (s : ReliableSession) (sequence : Nat) : Decidable (s.Accepted sequence) :=
  inferInstanceAs (Decidable (sequence < s.receiveNext ∨ sequence ∈ s.receivedPackets))

/-- Inside the window every number is accepted. -/
theorem acceptReceive_of_window (p : Bytes) (hlow : 2 ≤ sequence) (hmax : sequence < u64Max)
    (hwin : sequence < s.receiveNext + maxPending) : (s.acceptReceive sequence p).1 = true := by
  unfold acceptReceive
  rw [if_neg (by omega)]
  split
  · rfl
  · rw [if_neg (by omega)]
    split <;> rfl

/-- What `accept_receive` leaves: the session, with the payload held if it is new. -/
theorem acceptReceive_cases (s : ReliableSession) (sequence : Nat) (p : Bytes) :
    ((s.acceptReceive sequence p).2 = s ∧ ((s.acceptReceive sequence p).1 = true → s.Accepted sequence)) ∨
      (sequence ∉ s.receivedPackets ∧ s.receiveNext ≤ sequence ∧ 2 ≤ sequence ∧ s.acceptReceive sequence p
          = (true, { s with receivedPackets := s.receivedPackets.set sequence p })) := by
  unfold acceptReceive
  split
  · exact .inl ⟨rfl, nofun⟩
  split
  · rename_i hlow
    exact .inl ⟨rfl, fun _ => .inl hlow⟩
  rename_i hlow
  split
  · exact .inl ⟨rfl, nofun⟩
  split
  · rename_i hheld
    exact .inl ⟨rfl, fun _ => .inr hheld⟩
  · rename_i hheld
    exact .inr ⟨hheld, not_lt.mp hlow, by omega, rfl⟩

/-- The session has delivered `out` of the records `log` that its peer has numbered from 2 on. -/
structure Receiving (log out : List Bytes) (s : ReliableSession) : Prop where
  start : 2 ≤ s.receiveNext
  low : ∀ k ∈ s.receivedPackets, 2 ≤ k
  order : Reorder log (s.receiveNext - 2) (fun i => s.receivedPackets.find? (i + 2)) out

variable {log out : List Bytes}

theorem Receiving.new (log : List Bytes) : Receiving log [] new :=
  ⟨le_rfl, fun k hk => absurd hk (not_mem_empty k), .init log⟩

theorem Receiving.more (h : Receiving log out s) (l : List Bytes) : Receiving (log ++ l) out s :=
  ⟨h.start, h.low, h.order.more l⟩

/-- Only the two receiving fields matter. -/
theorem Receiving.congr (h : Receiving log out s) (hnx : t.receiveNext = s.receiveNext)
    (hpks : t.receivedPackets = s.receivedPackets) : Receiving log out t := by
  refine ⟨?_, ?_, ?_⟩
  · rw [hnx]
    exact h.start
  · rw [hpks]
    exact h.low
  · rw [hnx, hpks]
    exact h.order

/-- `receive_in_order` takes the next record. -/
theorem Receiving.next {p : Bytes} (h : Receiving log out s) (hx : log[s.receiveNext - 2]? = some p) :
    Receiving log (out ++ [p]) { s with receiveNext := s.receiveNext + 1 } := by
  have hst := h.start
  refine ⟨Nat.le_succ_of_le hst, h.low, ?_⟩
  have hnx : s.receiveNext + 1 - 2 = s.receiveNext - 2 + 1 := by omega
  rw [hnx]
  exact h.order.advance hx

/-- `accept_receive` holds a record at its place. -/
theorem Receiving.hold {p : Bytes} (h : Receiving log out s) (hlow : 2 ≤ sequence)
    (hx : log[sequence - 2]? = some p) :
    Receiving log out { s with receivedPackets := s.receivedPackets.set sequence p } := by
  refine ⟨h.start, ?_, ?_⟩
  · intro k hk
    rcases mem_set.mp hk with rfl | hk
    · exact hlow
    · exact h.low k hk
  · refine h.order.hold ?_
    intro i x hi
    rcases find?_set_cases hi with ⟨heq, rfl⟩ | ⟨-, hi⟩
    · rw [← heq] at hx
      exact .inr hx
    · exact .inl hi

/-- What `deliver` returns and leaves. -/
structure Drains (s : ReliableSession) (new : List Bytes) (t : ReliableSession) : Prop where
  changed : ∃ packets next, t = { s with receivedPackets := packets, receiveNext := next }
  receiving : ∀ log out, Receiving log out s → Receiving log (out ++ new) t
  accepted : ∀ k, t.Accepted k ↔ s.Accepted k
  size : new.length + t.receivedPackets.size = s.receivedPackets.size

theorem Drains.self (s : ReliableSession) : Drains s [] s :=
  ⟨⟨s.receivedPackets, s.receiveNext, rfl⟩, fun _ _ h => by rwa [append_nil], fun _ => .rfl, zero_add _⟩

theorem deliverLoop_spec (n : Nat) (s : ReliableSession) (r : List Bytes) :
    ∃ new, (deliverLoop n s r).1 = r ++ new ∧ Drains s new (deliverLoop n s r).2 ∧
      (s.receivedPackets.size ≤ n →
        (deliverLoop n s r).2.receiveNext ∉ (deliverLoop n s r).2.receivedPackets) := by
  induction n generalizing s r with
  | zero =>
    refine ⟨[], (append_nil _).symm, .self s, ?_⟩
    intro hsz hmem
    -- a map without records holds nothing
    have hmem : s.receiveNext ∈ s.receivedPackets := hmem
    obtain ⟨payload, hfd⟩ := mem_iff_find?.mp hmem
    have herase := size_erase hfd
    omega
  | succ n ih =>
    unfold deliverLoop
    cases hfd : s.receivedPackets.find? s.receiveNext with
    | none => exact ⟨[], (append_nil _).symm, .self s, fun _ => not_mem_iff_find?.mpr hfd⟩
    | some payload =>
      obtain ⟨new, hnew, hdrn, hdone⟩ := ih
        { s with receivedPackets := s.receivedPackets.erase s.receiveNext, receiveNext := s.receiveNext + 1 }
        (r ++ [payload])
      refine ⟨payload :: new, ?_, ⟨?_, ?_, ?_, ?_⟩, ?_⟩
      · rw [hnew, append_assoc]
        rfl
      · obtain ⟨packets, next, heq⟩ := hdrn.changed
        exact ⟨packets, next, heq⟩
      · intro log out h
        have hx := h.order.holds (s.receiveNext - 2) payload (by
          have hst := h.start
          rw [Nat.sub_add_cancel hst]
          exact hfd)
        have hnx := h.next hx
        have htk : Receiving log (out ++ [payload])
            { s with receivedPackets := s.receivedPackets.erase s.receiveNext, receiveNext := s.receiveNext + 1 } :=
          ⟨hnx.start, fun k hk => h.low k (mem_erase.mp hk).2, hnx.order.hold fun i x hi => by
            rw [find?_erase] at hi
            split at hi
            · cases hi
            · exact .inl hi⟩
        have hrs := hdrn.receiving log (out ++ [payload]) htk
        rwa [append_assoc] at hrs
      · intro k
        rw [hdrn.accepted k]
        unfold Accepted
        rw [mem_erase]
        by_cases hk : k = s.receiveNext
        · subst hk
          exact iff_of_true (.inl (Nat.lt_succ_self _)) (.inr (mem_of_find? hfd))
        · have hlt : k < s.receiveNext + 1 ↔ k < s.receiveNext := by omega
          rw [hlt, and_iff_right hk]
      · have hsz := hdrn.size
        have herase := size_erase hfd
        dsimp only at hsz ⊢
        rw [length_cons]
        omega
      · intro hsz
        have herase := size_erase hfd
        exact hdone (by dsimp only; omega)

/-- **`deliver` hands on what is next and leaves a gap in front of what it holds.** -/
theorem deliver_spec (s : ReliableSession) :
    Drains s s.deliver.1 s.deliver.2 ∧ s.deliver.2.receiveNext ∉ s.deliver.2.receivedPackets := by
  obtain ⟨new, hnew, hdrn, hdone⟩ := deliverLoop_spec s.receivedPackets.size s []
  have heq : s.deliver.1 = new := hnew
  rw [heq]
  exact ⟨hdrn, hdone le_rfl⟩

end ReliableSession

end Shadow6.CorePony
