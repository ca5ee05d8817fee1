import Shadow6.CoreZig.Enet
import Shadow6.Library.Machine

/-!
# `CoreZig.Channel` — the sending side of a session over whole runs

The worker of a channel calls `encode`, `queue`, `decode`, `acknowledge` and `retry` in any order and with any
arguments, and keeps the receive window itself (`Op`). `Bounded` is what the counters and the ring of packets keep in
every such run (`channel_bounded`). The trace of a run says what was sealed, sent and sent again: the `n`-th packet
that is sealed is sealed under counter `n`, and what is sent again is what was sent (`counters_used_once`).
-/

namespace Shadow6.CoreZig

open Library List Function Session

namespace Session

/-! ## Acknowledgements and retransmissions -/

section

variable {s t : Session} {seq : Nat} {i : Fin 256}

theorem acknowledge_stale (h : ¬ ((s.pending (slotOf 256 seq)).active = true ∧ (s.pending (slotOf 256 seq)).seq = seq)) :
    s.acknowledge seq = s := by
  unfold acknowledge
  exact if_pos (not_and_or.mp h)

/-- The acknowledgement of a packet in the ring. -/
theorem acknowledge_active (seq : Nat) (hact : (s.pending (slotOf 256 seq)).active = true)
    (hseq : (s.pending (slotOf 256 seq)).seq = seq) : ∃ cn credit, s.congestion ≤ cn ∧
      (s.congestion ≤ window → s.slowStartLimit ≤ window → cn ≤ window) ∧ s.acknowledge seq = { s with
        pending := update s.pending (slotOf 256 seq) { s.pending (slotOf 256 seq) with active := false }
        inFlight := s.inFlight - 1, congestion := cn, ackCredit := credit } := by
  unfold acknowledge
  dsimp only
  rw [if_neg (by simp [hact, hseq])]
  split
  · exact ⟨_, _, Nat.le_succ _, by omega, rfl⟩
  split
  · split
    · exact ⟨_, _, Nat.le_succ _, by omega, rfl⟩
    · exact ⟨_, _, le_rfl, by omega, rfl⟩
  · exact ⟨_, _, le_rfl, by omega, rfl⟩

/-- A retransmission changes the attempts and the deadline of its packet, and the window. -/
theorem retry_cases {now : Int} {ag : Bool} (h : s.retry i now = .ok (ag, t)) : (ag = false ∧ t = s) ∨
    (ag = true ∧ (s.pending i).active = true ∧ ∃ att deadline cn l credit r,
      t = { s with
        pending := update s.pending i { s.pending i with attempts := att, deadline := deadline }
        congestion := cn, slowStartLimit := l, ackCredit := credit, recoveryUntil := r } ∧
      (cn = s.congestion ∧ l = s.slowStartLimit ∨
        cn = max 2 (s.congestion / 2) ∧ l = cn)) := by
  unfold retry at h
  dsimp only at h
  split at h
  · cases h
    exact .inl ⟨rfl, rfl⟩
  rename_i hdue
  have hact : (s.pending i).active = true := not_not.mp (not_or.mp hdue).1
  split at h
  · cases h
  split at h
  · cases h
    exact .inr ⟨rfl, hact, _, _, _, _, _, _, rfl, .inr ⟨rfl, rfl⟩⟩
  · cases h
    exact .inr ⟨rfl, hact, _, _, _, _, _, _, rfl, .inl ⟨rfl, rfl⟩⟩

theorem note_eq (s : Session) (cnt : Nat) :
    ∃ replay highest, s.note cnt = { s with replay := replay, highestRx := highest } := by
  unfold note
  cases s.mark cnt with
  | stale => exact ⟨s.replay, s.highestRx, rfl⟩
  | fresh | ahead => exact ⟨_, _, rfl⟩
  | behind => exact ⟨_, s.highestRx, rfl⟩

end

/-! ## Runs -/

/-- What the worker of a channel does with its session. -/
inductive Op where
  | encode (kind : Kind) (seq : Nat) (data : Bytes)
  | queue (kind : Kind) (data : Bytes) (now : Int)
  | decode (packet : Bytes)
  | acknowledge (seq : Nat)
  | retry (i : Fin 256) (now : Int)
  /-- A record is stored or consumed. -/
  | receiving (nextRx : Nat) (received : Slots 256 Received)

/-- What an `encode` has sealed, what was sent when it was queued, and what was sent again. -/
inductive Event where
  | sealed (bytes : Bytes)
  | sent (seq : Nat) (bytes : Bytes)
  | resent (seq : Nat) (bytes : Bytes)

variable (C : Crypto)

/-- One call; a call that fails leaves the session as it is. -/
def apply (s : Session) : Op → Session × List Event
  | .encode kind seq data =>
    match s.encode C kind seq data with
    | .error _ => (s, [])
    | .ok (packet, t) => (t, [.sealed packet.bytes])
  | .queue kind data now =>
    match s.queue C kind data now with
    | .error _ => (s, [])
    | .ok (packet, t) => (t, [.sealed packet.bytes, .sent packet.seq packet.bytes])
  | .decode packet =>
    match s.decode C packet with
    | .error _ => (s, [])
    | .ok (_, t) => (t, [])
  | .acknowledge seq => (s.acknowledge seq, [])
  | .retry i now =>
    match s.retry i now with
    | .error _ => (s, [])
    | .ok (again, t) => (t, if again then [.resent (t.pending i).seq (t.pending i).bytes] else [])
  | .receiving nextRx received => ({ s with nextRx := nextRx, received := received }, [])

/-- A session and its trace. -/
def step (x : Session × List Event) (op : Op) : Session × List Event :=
  ((x.1.apply C op).1, x.2 ++ (x.1.apply C op).2)

def run (s : Session) (ops : List Op) : Session × List Event := ops.foldl (step C) (s, [])

/-- What one call can do, and what it adds to the trace. -/
inductive Moves (s : Session) : Session → List Event → Prop where
  | receives (replay highest nextRx : Nat) (received : Slots 256 Received) :
      Moves s { s with replay := replay, highestRx := highest, nextRx := nextRx, received := received } []
  | seals (kind : Kind) (seq : Nat) (data : Bytes) (hcounter : s.counter ≠ maxInt) :
      Moves s { s with counter := s.counter + 1 } [.sealed (sealedPacket C.aead s.txKey s.sid kind s.counter seq data)]
  | queues (kind : Kind) (data : Bytes) (packet : Packet) (hcan : s.canQueue = true)
      (hbytes : packet.bytes = sealedPacket C.aead s.txKey s.sid kind s.counter s.nextTx data)
      (hseq : packet.seq = s.nextTx) (hactive : packet.active = true) :
      Moves s { s with
        counter := s.counter + 1
        pending := update s.pending (slotOf 256 s.nextTx) packet
        inFlight := s.inFlight + 1
        nextTx := s.nextTx + 1 } [.sealed packet.bytes, .sent s.nextTx packet.bytes]
  | acknowledges (i : Fin 256) (packet : Packet) (congestion credit : Nat) (hactive : (s.pending i).active = true)
      (hpacket : packet.active = false) (hgrows : s.congestion ≤ congestion)
      (hmost : s.congestion ≤ window → s.slowStartLimit ≤ window → congestion ≤ window) :
      Moves s { s with
        pending := update s.pending i packet
        inFlight := s.inFlight - 1, congestion := congestion, ackCredit := credit } []
  | retries (i : Fin 256) (packet : Packet) (congestion limit credit recovery : Nat)
      (hactive : (s.pending i).active = true) (hpacket : packet.active = true)
      (hseq : packet.seq = (s.pending i).seq) (hbytes : packet.bytes = (s.pending i).bytes)
      (hwindow : congestion = s.congestion ∧ limit = s.slowStartLimit ∨
        congestion = max 2 (s.congestion / 2) ∧ limit = congestion) :
      Moves s { s with
        pending := update s.pending i packet
        congestion := congestion, slowStartLimit := limit, ackCredit := credit, recoveryUntil := recovery }
        [.resent packet.seq packet.bytes]

variable {C} {s : Session}

theorem Moves.refl : Moves C s s [] := .receives s.replay s.highestRx s.nextRx s.received

theorem apply_moves (op : Op) : Moves C s (s.apply C op).1 (s.apply C op).2 := by
  cases op with
  | encode kind seq data =>
    simp only [apply, encode]
    split_ifs with hlim
    · exact .refl
    · exact .seals kind seq data (not_or.mp hlim).2
  | queue kind data now =>
    simp only [apply, queue, encode]
    split_ifs with hcan hslot hlim
    · exact .refl
    · exact .refl
    · exact .refl
    · exact .queues kind data _ (not_not.mp (not_or.mp hcan).2) rfl rfl rfl
  | decode packet =>
    simp only [apply, decode]
    split_ifs
    · exact .refl
    cases (slice packet 5 1).head?.bind Kind.fromByte with
    | none => exact .refl
    | some kind =>
      dsimp only
      split_ifs
      · exact .refl
      cases C.aead.decrypt s.rxKey (nonceOf (ofBE (slice packet 24 8))) (packet.take headerSize)
          (packet.drop headerSize) with
      | none => exact .refl
      | some data =>
        obtain ⟨replay, highest, hnote⟩ := note_eq s (ofBE (slice packet 24 8))
        dsimp only
        rw [hnote]
        exact .receives replay highest s.nextRx s.received
  | acknowledge seq =>
    by_cases hring : (s.pending (slotOf 256 seq)).active = true ∧ (s.pending (slotOf 256 seq)).seq = seq
    · obtain ⟨congestion, credit, hgr, hmost, heq⟩ := acknowledge_active seq hring.1 hring.2
      show Moves C s (s.acknowledge seq) []
      rw [heq]
      exact .acknowledges _ _ congestion credit hring.1 rfl hgr hmost
    · show Moves C s (s.acknowledge seq) []
      rw [acknowledge_stale hring]
      exact .refl
  | retry i now =>
    simp only [apply]
    cases hrty : s.retry i now with
    | error => exact .refl
    | ok r =>
      rcases retry_cases hrty with ⟨hag, ht⟩ |
        ⟨hag, hact, attempts, deadline, congestion, limit, credit, recovery, ht, hwin⟩
      · dsimp only
        rw [hag, ht]
        exact .refl
      · dsimp only
        rw [hag, ht, if_pos rfl]
        simp only [update_self]
        exact .retries i _ congestion limit credit recovery hact hact rfl rfl hwin
  | receiving nextRx received => exact .receives s.replay s.highestRx nextRx received

/-! ## The counters and the ring -/

/-- How many send slots are active. -/
def active (s : Session) : Nat := (Finset.univ.filter fun i => (s.pending i).active = true).card

/-- The amounts by which `decode` shifts the replay bitmap for a packet with a counter. -/
def shifts (s : Session) (count : Nat) : List Nat :=
  match s.mark count with
  | .stale | .fresh => []
  | .ahead shift | .behind shift => [shift]

/-- The packets in a ring have the numbers of their slots and are among the last 256. -/
def Placed (nextTx : Nat) (pending : Fin 256 → Packet) : Prop := ∀ i, (pending i).active = true →
  slotOf 256 (pending i).seq = i ∧ (pending i).seq < nextTx ∧ nextTx ≤ (pending i).seq + 256

structure Bounded (s : Session) : Prop where
  counted : s.inFlight = s.active
  slots : Placed s.nextTx s.pending
  congestion : 2 ≤ s.congestion ∧ s.congestion ≤ window
  limit : s.slowStartLimit ≤ window

theorem shifts_lt (cnt : Nat) : ∀ n ∈ s.shifts cnt, n < 64 := by
  unfold shifts mark
  intro n hn
  dsimp only at hn
  split_ifs at hn <;> simp only [mem_singleton, not_mem_nil] at hn <;> omega

/-- A free slot is taken. -/
theorem active_take {pd : Fin 256 → Packet} {i : Fin 256} {p : Packet} (hfree : (pd i).active = false)
    (hpkt : p.active = true) : (Finset.univ.filter fun j => (update pd i p j).active = true).card
      = (Finset.univ.filter fun j => (pd j).active = true).card + 1 := by
  rw [← Finset.card_insert_of_notMem (a := i) (by simp [hfree])]
  congr 1
  ext j
  by_cases hj : j = i <;> simp [hj, hpkt, update_of_ne]

theorem Placed.update {nt : Nat} {pd : Fin 256 → Packet} {i : Fin 256} {pk : Packet}
    (h : ∀ j ≠ i, (pd j).active = true →
      slotOf 256 (pd j).seq = j ∧ (pd j).seq < nt ∧ nt ≤ (pd j).seq + 256)
    (hi : pk.active = true → slotOf 256 pk.seq = i ∧ pk.seq < nt ∧ nt ≤ pk.seq + 256) :
    Placed nt (update pd i pk) :=
  (forall_update_iff pd fun j p => p.active = true →
    slotOf 256 p.seq = j ∧ p.seq < nt ∧ nt ≤ p.seq + 256).mpr ⟨hi, h⟩

/-- **One call.** -/
theorem Bounded.move (h : Bounded s) {t : Session} {es : List Event} (hmove : Moves C s t es) : Bounded t := by
  have hcon := h.congestion
  have hlim := h.limit
  cases hmove with
  | receives | seals => exact { h with }
  | queues kind data packet hcan hby hseq hact =>
    obtain ⟨-, -, hfree, -⟩ := canQueue_iff.mp hcan
    have hplac : Placed (s.nextTx + 1) (update s.pending (slotOf 256 s.nextTx) packet) := by
      refine Placed.update (fun i hi hheld => ?_) fun _ => ⟨by rw [hseq], by omega, by omega⟩
      obtain ⟨hslot, hlow, hhigh⟩ := h.slots i hheld
      -- the packet 256 numbers back would be in the slot that is free
      have hne : s.nextTx ≠ (s.pending i).seq + 256 := by
        intro heq
        refine hi (hslot.symm.trans (Fin.ext ?_))
        rw [heq]
        exact (Nat.add_mod_right _ _).symm
      exact ⟨hslot, by omega, by omega⟩
    exact { h with
      counted := (congrArg (· + 1) h.counted).trans (active_take hfree hact).symm
      slots := hplac }
  | acknowledges i packet cn credit hact hpkt hgr hmost =>
    have hfree : (update s.pending i packet i).active = false := by rw [update_self, hpkt]
    have hcnt := active_take hfree hact
    rw [update_idem, update_eq_self] at hcnt
    refine ⟨?_, ?_, ⟨hcon.1.trans hgr, hmost hcon.2 hlim⟩, hlim⟩
    · exact Nat.sub_eq_of_eq_add (h.counted.trans hcnt)
    · exact Placed.update (fun i _ => h.slots i) (by simp [hpkt])
  | retries i packet cn l credit r hact hpkt hseq hby hwin =>
    have hsm : ∀ j, (update s.pending i packet j).active = (s.pending j).active :=
      (forall_update_iff s.pending fun j p => p.active = (s.pending j).active).mpr
        ⟨hpkt.trans hact.symm, fun _ _ => rfl⟩
    refine ⟨?_, Placed.update (fun i _ => h.slots i) fun _ => ?_, ?_, ?_⟩
    · simp only [active, hsm]
      exact h.counted
    · rw [hseq]
      exact h.slots i hact
    · dsimp only
      unfold window at *
      omega
    · dsimp only
      unfold window at *
      omega

theorem Bounded.init (C : Crypto) (m sid : Bytes) (cl : Bool) : Bounded (init C m sid cl) where
  counted := by simp [active, Session.init]
  slots := nofun
  congestion := show 2 ≤ 4 ∧ 4 ≤ window by decide
  limit := show 32 ≤ window by decide

/-- **The invariant of a channel.** In every run, whatever is queued, acknowledged, received and sent again: the packets
    in flight are the active slots, at most 256; an active slot holds a packet of its number, one of the last 256; the
    congestion window is in 2..256; an acknowledgement of a packet in the ring finds one in flight; and the replay
    bitmap is shifted by less than 64. -/
theorem channel_bounded (C : Crypto) (master sid : Bytes) (client : Bool) (ops : List Op) :
    Bounded (run C (.init C master sid client) ops).1 ∧
    (run C (.init C master sid client) ops).1.inFlight ≤ 256 ∧
    (∀ seq, ((run C (.init C master sid client) ops).1.pending (slotOf 256 seq)).active = true →
      0 < (run C (.init C master sid client) ops).1.inFlight) ∧
    ∀ count, ∀ n ∈ (run C (.init C master sid client) ops).1.shifts count, n < 64 := by
  have hstep : ∀ x op, Bounded x.1 → Bounded (step C x op).1 := fun _ op hx => hx.move (apply_moves op)
  have h : Bounded (run C (.init C master sid client) ops).1 :=
    foldl_invariant (I := fun x : Session × List Event => Bounded x.1) hstep (Bounded.init C master sid client) ops
  refine ⟨h, ?_, fun seq hactive => ?_, shifts_lt⟩
  · rw [h.counted]
    exact (Finset.card_le_univ _).trans_eq (Fintype.card_fin 256)
  · rw [h.counted]
    exact Finset.card_pos.mpr ⟨slotOf 256 seq, by simpa using hactive⟩

/-! ## The trace -/

/-- The packets that were sealed, in order. -/
def sealings (events : List Event) : List Bytes :=
  events.filterMap fun
    | .sealed bytes => some bytes
    | _ => none

/-- The numbers of the packets that were queued, in order. -/
def numbers (events : List Event) : List Nat :=
  events.filterMap fun
    | .sent seq _ => some seq
    | _ => none

/-- What the trace of a session keeps. -/
structure Traced (A : Aead) (x : Session × List Event) : Prop where
  limit : x.1.counter ≤ maxInt
  sealed : ∃ calls : List (Kind × Nat × Bytes), calls.length = x.1.counter ∧
    sealings x.2 = calls.mapIdx fun n c => sealedPacket A x.1.txKey x.1.sid c.1 n c.2.1 c.2.2
  numbered : numbers x.2 = List.range x.1.nextTx
  pending : ∀ i, (x.1.pending i).active = true → .sent (x.1.pending i).seq (x.1.pending i).bytes ∈ x.2
  resent : ∀ seq bytes, .resent seq bytes ∈ x.2 → .sent seq bytes ∈ x.2

theorem Traced.seal {A : Aead} {x : Session × List Event} (h : Traced A x) (k : Kind) (seq : Nat) (dt : Bytes) :
    ∃ cs : List (Kind × Nat × Bytes), cs.length = x.1.counter + 1 ∧
      sealings x.2 ++ [sealedPacket A x.1.txKey x.1.sid k x.1.counter seq dt]
        = cs.mapIdx fun n c => sealedPacket A x.1.txKey x.1.sid c.1 n c.2.1 c.2.2 := by
  obtain ⟨calls, hlen, hseal⟩ := h.sealed
  refine ⟨calls ++ [(k, seq, dt)], by simp [hlen], ?_⟩
  rw [mapIdx_concat, hseal, hlen]

/-- **One call.** -/
theorem Traced.move {es : List Event} (h : Traced C.aead (s, es)) {t : Session} {m : List Event}
    (hmove : Moves C s t m) : Traced C.aead (t, es ++ m) := by
  cases hmove with
  | receives => simpa using { h with }
  | seals k seq data hctr =>
    have hlim := h.limit
    dsimp only at hlim
    refine ⟨by dsimp only; omega, ?_, ?_, ?_, ?_⟩
    · simpa [sealings] using h.seal k seq data
    · simpa [numbers] using h.numbered
    · simpa using h.pending
    · simpa using h.resent
  | queues k data packet hcan hby hseq hact =>
    obtain ⟨-, -, -, hctr⟩ := canQueue_iff.mp hcan
    refine ⟨hctr, ?_, ?_, ?_, ?_⟩
    · simpa [sealings, hby] using h.seal k s.nextTx data
    · have hnumd := h.numbered
      simp only [numbers] at hnumd
      simp [numbers, hnumd, range_succ]
    · refine (forall_update_iff s.pending fun _ p => p.active = true → Event.sent p.seq p.bytes ∈ _).mpr ⟨?_, ?_⟩
      · simp [hseq]
      · intro i _ hheld
        exact mem_append_left _ (h.pending i hheld)
    · intro seq bytes hres
      simp only [mem_append, mem_cons, not_mem_nil, reduceCtorEq, or_false] at hres
      exact mem_append_left _ (h.resent seq bytes hres)
  | acknowledges i packet cn credit hact hpkt =>
    rw [append_nil]
    refine { h with pending := ?_ }
    exact (forall_update_iff s.pending fun _ p => p.active = true → Event.sent p.seq p.bytes ∈ es).mpr
      ⟨by simp [hpkt], fun i _ => h.pending i⟩
  | retries i packet cn l credit r hact hpkt hseq hby =>
    have hsn := h.pending i hact
    dsimp only at hsn
    refine ⟨h.limit, ?_, ?_, ?_, ?_⟩
    · simpa [sealings] using h.sealed
    · simpa [numbers] using h.numbered
    · refine (forall_update_iff s.pending fun _ p => p.active = true → Event.sent p.seq p.bytes ∈ _).mpr ⟨?_, ?_⟩
      · rw [hseq, hby]
        exact fun _ => mem_append_left _ hsn
      · intro j _ hheld
        exact mem_append_left _ (h.pending j hheld)
    · intro seq bytes hres
      refine mem_append_left _ ?_
      rcases mem_append.mp hres with hold | hnew
      · exact h.resent seq bytes hold
      · cases mem_singleton.mp hnew
        rw [hseq, hby]
        exact hsn

/-- **Nonce discipline.** In every run the `n`-th packet that is sealed is sealed under counter `n`, and no counter is
    used again; every number is queued once, and a packet that is sent again is, byte for byte, the one that was sent
    under its number. -/
theorem counters_used_once (C : Crypto) (master sid : Bytes) (client : Bool) (ops : List Op) :
    Traced C.aead (run C (.init C master sid client) ops) := by
  refine foldl_invariant (I := Traced C.aead) (fun x op hx => hx.move (apply_moves op)) ?_ ops
  exact ⟨Nat.zero_le _, ⟨[], rfl, rfl⟩, rfl, nofun, nofun⟩

end Session

end Shadow6.CoreZig
