import Shadow6.CoreZig.Channel
import Shadow6.CoreZig.Tunnel
import Shadow6.Library.Reorder

/-!
# `CoreZig.Endpoint` — what one tunnel keeps

One tunnel hears packets of an honest peer that has queued the records `log`. `Sound` is what it keeps, whatever it
hears and in whatever order its worker does its work: its packets are those of the records it has queued, a filled
slot holds a record of the receive window at its place modulo 256, and the bytes given to the local connection are
those of the front of `log`, up to the offset in the record that is being written.

`CoreZig.Delivery` and `CoreZig.FlowControl` put two of them together.
-/

namespace Shadow6.CoreZig

open Library List Function Tunnel Session

/-! ## Records and packets -/

/-- The bytes of a record that are for the local connection. -/
def payloadOf (r : Kind × Bytes) : Bytes := if r.1 = .data then r.2 else []

def payloads (log : List (Kind × Bytes)) : Bytes := log.flatMap payloadOf

/-- The key an end seals with. -/
def Pair.key (P : Pair) : End → Bytes
  | .client => P.crypto.hmac (P.sid ++ [0]) P.master
  | .agent => P.crypto.hmac (P.sid ++ [1]) P.master

/-- A packet that an end makes after it has queued the records `queued`. -/
inductive Wire (P : Pair) (e : End) (queued : List (Kind × Bytes)) : Bytes → Prop where
  | ack {counter seq : Nat} (hcounter : counter < maxInt) (hseq : seq < maxInt) :
      Wire P e queued (sealedPacket P.crypto.aead (P.key e) P.sid .ack counter seq [])
  | record {kind : Kind} {counter seq : Nat} {data : Bytes} (hcounter : counter < maxInt) (hseq : seq < maxInt)
      (hsize : data.length ≤ payloadMax) (hdata : kind = .data ∨ data = [])
      (hrecord : queued[seq]? = some (kind, data)) :
      Wire P e queued (sealedPacket P.crypto.aead (P.key e) P.sid kind counter seq data)

/-- What an end can have queued: no acknowledgements, and an opening only as the first record of a client. -/
def Shaped (e : End) (queued : List (Kind × Bytes)) : Prop :=
  ∀ i kind data, queued[i]? = some (kind, data) → kind ≠ .ack ∧ (kind = .opening → e = .client ∧ i = 0)

variable {P : Pair} {e : End} {log : List (Kind × Bytes)} {w : Bytes}

theorem Wire.more {q : List (Kind × Bytes)} (h : Wire P e q w) (l : List (Kind × Bytes)) : Wire P e (q ++ l) w := by
  cases h with
  | ack hctr hseq => exact .ack hctr hseq
  | record hctr hseq hsz hdt hrec =>
    refine .record hctr hseq hsz hdt ?_
    rw [List.getElem?_append_left (List.getElem?_eq_some_iff.mp hrec).1]
    exact hrec

theorem lt_of_lt_maxInt {n : Nat} (h : n < maxInt) : n < 2 ^ 64 := h.trans (by decide)

theorem getElem?_concat_cases {α : Type*} {l : List α} {x y : α} {i : Nat} (h : (l ++ [x])[i]? = some y) :
    l[i]? = some y ∨ (i = l.length ∧ x = y) := by
  rcases lt_or_ge i l.length with hi | hi
  · rw [getElem?_append_left hi] at h
    exact .inl h
  rw [getElem?_append_right hi] at h
  obtain ⟨hlt, hxy⟩ := List.getElem?_eq_some_iff.mp h
  rw [length_singleton] at hlt
  have hzero : i - l.length = 0 := by omega
  simp only [hzero, getElem_cons_zero] at hxy
  exact .inr ⟨by omega, hxy⟩

/-- A packet of the peer is opened to an acknowledgement or to the record at its place. -/
theorem Wire.decode (hw : Wire P e.other log w) : headerSize + 16 ≤ w.length ∧ slice w 8 16 = P.sid ∧
      ∀ s : Session, s.sid = P.sid → s.rxKey = P.key e.other →
        ∃ data count, s.decode P.crypto w = .ok (data, s.note count) ∧ data.seq < maxInt ∧
          (data.kind ≠ .ack → log[data.seq]? = some (data.kind, data.bytes)) := by
  obtain ⟨kind, ctr, seq, data, rfl, hctr, hseq, hsz, hdt, hrec⟩ : ∃ kind ctr seq data,
      w = sealedPacket P.crypto.aead (P.key e.other) P.sid kind ctr seq data ∧ ctr < maxInt ∧ seq < maxInt ∧
      data.length ≤ payloadMax ∧ (kind = .data ∨ data = []) ∧ (kind ≠ .ack → log[seq]? = some (kind, data)) := by
    cases hw with
    | ack hctr hseq => exact ⟨.ack, _, _, [], rfl, hctr, hseq, by decide, .inr rfl, fun hne => absurd rfl hne⟩
    | record hctr hseq hsz hdt hrec => exact ⟨_, _, _, _, rfl, hctr, hseq, hsz, hdt, fun _ => hrec⟩
  refine ⟨?_, ?_, ?_⟩
  · rw [length_sealedPacket (C := P.crypto) P.sid_length]
    exact Nat.le_add_left _ _
  · exact (slice_headerOf kind ctr seq P.sid_length _).2.2.2.2.1
  · intro s hsid hkey
    rw [← hsid]
    refine ⟨⟨kind, seq, data⟩, ctr, ?_, hseq, hrec⟩
    exact decode_sealed (by rw [hsid]; exact P.sid_length) hkey hsz hdt (lt_of_lt_maxInt hctr) (lt_of_lt_maxInt hseq)

/-- The record with a number, if its slot holds it. -/
def heldAt (received : Slots 256 Received) (k : Nat) : Option (Kind × Bytes) :=
  ((received (slotOf 256 k)).filter (fun d => d.seq = k)).map (fun d => (d.kind, d.bytes))

theorem heldAt_eq_some {rc : Slots 256 Received} {k : Nat} {r : Kind × Bytes} :
    heldAt rc k = some r ↔ ∃ d, rc (slotOf 256 k) = some d ∧ d.seq = k ∧ (d.kind, d.bytes) = r := by
  unfold heldAt
  rw [Option.map_eq_some_iff]
  constructor
  · rintro ⟨d, hd, rfl⟩
    obtain ⟨hd, hseq⟩ := Option.filter_eq_some_iff.mp hd
    exact ⟨d, hd, by simpa using hseq, rfl⟩
  · rintro ⟨d, hd, hseq, rfl⟩
    exact ⟨d, Option.filter_eq_some_iff.mpr ⟨hd, by simpa using hseq⟩, rfl⟩

/-! ## The invariant of one tunnel -/

namespace Tunnel

/-- The next sequence number a tunnel waits for. -/
def nextRx (st : Tunnel) : Nat :=
  match st.channel with
  | none => 0
  | some ch => ch.secure.nextRx

/-- What does not depend on the channel; `up` says that the peer has one, and `base` is what the tunnel was. -/
structure Outer (P : Pair) (e : End) (up : Prop) (base st : Tunnel) : Prop where
  role : st.client = e.isClient
  master : st.master = P.master
  wires : ∀ w ∈ st.wires, Wire P e st.queued w
  shaped : Shaped e st.queued
  limit : st.queued.length ≤ maxInt
  talking : e.isClient.toNat < st.queued.length → up
  accepts : base.queued <+: st.queued
  remembers : ∀ k ∈ base.arrived, k ∈ st.arrived

/-- What a tunnel keeps about its channel towards a peer that has queued `log`. -/
structure Live (P : Pair) (e : End) (log : List (Kind × Bytes)) (up : Prop) (base st : Tunnel) (ch : Channel) :
    Prop where
  sid : ch.secure.sid = P.sid
  txKey : ch.secure.txKey = P.key e
  rxKey : ch.secure.rxKey = P.key e.other
  counter : ch.secure.counter ≤ maxInt
  counted : ch.secure.nextTx = st.queued.length
  pending : ∀ i, (ch.secure.pending i).active = true → Wire P e st.queued (ch.secure.pending i).bytes
  windowed : Slots.Windowed Received.seq ch.secure.nextRx ch.secure.received
  order : Reorder log ch.secure.nextRx (heldAt ch.secure.received) (log.take ch.secure.nextRx)
  written : st.written = payloads (log.take ch.secure.nextRx) ++
    ((log[ch.secure.nextRx]?.map payloadOf).getD []).take ch.outputOffset
  offset : ch.outputOffset ≠ 0 → ch.secure.nextRx < log.length
  opened : ch.opened = true → up
  seen : ∀ i d, ch.secure.received i = some d → d.seq ∈ st.arrived
  passed : ∀ k < ch.secure.nextRx, k ∈ st.arrived
  onward : base.nextRx ≤ ch.secure.nextRx

structure Sound (P : Pair) (e : End) (log : List (Kind × Bytes)) (up : Prop) (base st : Tunnel) : Prop where
  outer : Outer P e up base st
  idle : st.channel = none → e = .agent ∧ st.wires = [] ∧ st.queued = [] ∧ st.written = [] ∧ base.channel = none
  live : ∀ ch, st.channel = some ch → Live P e log up base st ch

variable {up : Prop} {base st : Tunnel} {ch ch' : Channel}

/-- A tunnel with its channel. -/
theorem Sound.ofLive (ho : Outer P e up base st) (hl : Live P e log up base st ch) :
    Sound P e log up base { st with channel := some ch } where
  outer := { ho with }
  idle := nofun
  live := by
    rintro _ ⟨⟩
    exact { hl with }

theorem Sound.rebase (h : Sound P e log up base st) : Sound P e log up st st where
  outer := { h.outer with accepts := prefix_rfl, remembers := fun _ hk => hk }
  idle := by
    intro hchan
    obtain ⟨hagt, hws, hqd, hwr, -⟩ := h.idle hchan
    exact ⟨hagt, hws, hqd, hwr, hchan⟩
  live := by
    intro ch hchan
    refine { h.live ch hchan with onward := ?_ }
    unfold nextRx
    rw [hchan]

theorem Sound.more {up' : Prop} (h : Sound P e log up base st) (l : List (Kind × Bytes)) (hup : up → up') :
    Sound P e (log ++ l) up' base st where
  outer := { h.outer with talking := fun hlt => hup (h.outer.talking hlt) }
  idle := h.idle
  live := by
    intro ch hch
    have hl := h.live ch hch
    have hord := hl.order.more l
    have htake : (log ++ l).take ch.secure.nextRx = log.take ch.secure.nextRx :=
      take_append_of_le_length hl.order.reached
    exact { hl with
      order := by
        rw [htake]
        exact hord
      written := by
        rw [htake]
        by_cases hzero : ch.outputOffset = 0
        · have hwr := hl.written
          rw [hzero, take_zero] at hwr ⊢
          exact hwr
        · rw [getElem?_append_left (hl.offset hzero)]
          exact hl.written
      offset := by
        intro hne
        rw [length_append]
        exact Nat.lt_add_right _ (hl.offset hne)
      opened := fun hopen => hup (hl.opened hopen) }

/-- The packets that stay in the ring are those of the tunnel. -/
theorem Live.resent (h : Live P e log up base st ch) {pd : Fin 256 → Packet}
    (hpend : ∀ i, (pd i).active = true →
      (ch.secure.pending i).active = true ∧ (pd i).bytes = (ch.secure.pending i).bytes) :
    ∀ i, (pd i).active = true → Wire P e st.queued (pd i).bytes := by
  intro i hact
  obtain ⟨hact, hby⟩ := hpend i hact
  rw [hby]
  exact h.pending i hact

/-! ## Datagrams -/

theorem kept_update {pd : Fin 256 → Packet} {i : Fin 256} {pk : Packet}
    (h : pk.active = true → (pd i).active = true ∧ pk.bytes = (pd i).bytes) :
    ∀ j, (update pd i pk j).active = true →
      (pd j).active = true ∧ (update pd i pk j).bytes = (pd j).bytes :=
  (forall_update_iff pd fun j p => p.active = true → (pd j).active = true ∧
    p.bytes = (pd j).bytes).mpr ⟨h, fun _ _ hj => ⟨hj, rfl⟩⟩

/-- An acknowledgement takes a packet out of the ring and moves the congestion window. -/
theorem acknowledge_eq (s : Session) (seq : Nat) : ∃ pd inf cn credit,
      s.acknowledge seq = { s with
        pending := pd, inFlight := inf, congestion := cn, ackCredit := credit } ∧
      ∀ i, (pd i).active = true → (s.pending i).active = true ∧ (pd i).bytes = (s.pending i).bytes := by
  by_cases hring : (s.pending (slotOf 256 seq)).active = true ∧ (s.pending (slotOf 256 seq)).seq = seq
  · obtain ⟨congestion, credit, -, -, heq⟩ := acknowledge_active seq hring.1 hring.2
    exact ⟨_, _, _, _, heq, kept_update nofun⟩
  · exact ⟨_, _, _, _, acknowledge_stale hring, fun i hi => ⟨hi, rfl⟩⟩

theorem Sound.sendAck {seq : Nat} (ho : Outer P e up base st) (hl : Live P e log up base st ch) (hseq : seq < maxInt) :
    Sound P e log up base (st.sendAck P.crypto ch seq) := by
  unfold Tunnel.sendAck encode
  by_cases hlim : payloadMax < ([] : Bytes).length ∨ ch.secure.counter = maxInt
  · rw [if_pos hlim]
    exact .ofLive ho hl
  rw [if_neg hlim]
  have hctr : ch.secure.counter < maxInt := by
    have hle := hl.counter
    omega
  have hwire : Wire P e st.queued
      (sealedPacket P.crypto.aead ch.secure.txKey ch.secure.sid .ack ch.secure.counter seq []) := by
    rw [hl.txKey, hl.sid]
    exact .ack hctr hseq
  have houter : Outer P e up base (st.send
      (sealedPacket P.crypto.aead ch.secure.txKey ch.secure.sid .ack ch.secure.counter seq [])) :=
    { ho with
      wires := forall_mem_append.mpr ⟨ho.wires, forall_mem_singleton.mpr hwire⟩ }
  have hlive : Live P e log up base st
      { ch with secure := { ch.secure with counter := ch.secure.counter + 1 } } :=
    { hl with counter := hctr }
  exact .ofLive houter { hlive with }

variable {data : Received}

/-- **A record or an acknowledgement of the peer leaves a tunnel sound.** -/
theorem Sound.accept (ho : Outer P e up base st) (hl : Live P e log up base st ch) (hup : up) (hseq : data.seq < maxInt)
    (hrec : data.kind ≠ .ack → log[data.seq]? = some (data.kind, data.bytes)) :
    Sound P e log up base (st.accept P.crypto ch data) := by
  unfold Tunnel.accept
  split
  · -- an acknowledgement
    obtain ⟨pending, inf, cn, credit, heq, hpend⟩ := acknowledge_eq ch.secure data.seq
    refine .ofLive ho ?_
    rw [heq]
    split
    · exact { hl with pending := hl.resent hpend, opened := fun _ => hup }
    · exact { hl with pending := hl.resent hpend, opened := fun _ => hup }
  rename_i hkd
  have hrec := hrec hkd
  have harr : Outer P e up base { st with arrived := st.arrived ++ [data.seq] } :=
    { ho with remembers := fun k hk => mem_append_left _ (ho.remembers k hk) }
  have hkept : Live P e log up base { st with arrived := st.arrived ++ [data.seq] } ch := { hl with
    seen := fun i d hd => mem_append_left _ (hl.seen i d hd)
    passed := fun k hk => mem_append_left _ (hl.passed k hk) }
  split
  · exact Sound.sendAck harr hkept hseq
  rename_i hlow
  split
  · exact .ofLive harr hkept
  rename_i hhigh
  unfold window at hhigh
  split
  · -- the slot is free
    refine Sound.sendAck harr { hkept with
      windowed := hl.windowed.put (not_lt.mp hlow) (by omega)
      order := hl.order.hold ?_
      seen := ?_ } hseq
    · intro i r hr
      obtain ⟨d, hd, hd', rfl⟩ := heldAt_eq_some.mp hr
      dsimp only at hd
      by_cases hslot : slotOf 256 i = slotOf 256 data.seq
      · rw [hslot, update_self] at hd
        cases hd
        rw [← hd']
        exact .inr hrec
      · rw [update_of_ne hslot] at hd
        exact .inl (heldAt_eq_some.mpr ⟨d, hd, hd', rfl⟩)
    intro i d hd
    dsimp only at hd
    by_cases hi : i = slotOf 256 data.seq
    · subst hi
      rw [update_self] at hd
      cases hd
      exact mem_append_right _ (mem_singleton_self _)
    · rw [update_of_ne hi] at hd
      exact mem_append_left _ (hl.seen i d hd)
  · exact Sound.sendAck harr hkept hseq

/-- The channel that an agent makes for the first packet. -/
theorem Live.fresh (now : Int) (r highest : Nat) (hqd : st.queued = []) (hwr : st.written = [])
    (hbase : base.channel = none) (opn : Bool) (hopnd : opn = true → up) : Live P e log up base st (newChannel
      { init P.crypto P.master P.sid e.isClient with replay := r, highestRx := highest } now opn) where
  sid := rfl
  txKey := by cases e <;> rfl
  rxKey := by cases e <;> rfl
  counter := Nat.zero_le _
  counted := by
    rw [hqd]
    rfl
  pending := nofun
  windowed := .empty
  order := .init log
  written := by
    rw [hwr]
    rfl
  offset := fun hne => absurd rfl hne
  opened := hopnd
  seen := nofun
  passed := fun k hk => absurd hk (Nat.not_lt_zero k)
  onward := by
    unfold nextRx
    rw [hbase]
    exact Nat.zero_le _

theorem Sound.find {cs : Bool} {now : Int} (h : Sound P e log up base st) (hw : Wire P e.other log w) (hup : up)
    (hfd : st.find P.crypto w cs now = some ch) : Live P e log up base st ch := by
  obtain ⟨-, hid, hdec⟩ := hw.decode
  unfold Tunnel.find at hfd
  cases hchan : st.channel with
  | some ch₀ =>
    rw [hchan] at hfd
    dsimp only at hfd
    split at hfd
    · cases hfd
      exact h.live _ hchan
    · cases hfd
  | none =>
    obtain ⟨hagt, -, hqd, hwr, hbase⟩ := h.idle hchan
    subst hagt
    rw [hchan] at hfd
    dsimp only at hfd
    split at hfd
    · cases hfd
    rw [hid, h.outer.master] at hfd
    obtain ⟨data, count, hok, -⟩ := hdec (init P.crypto P.master P.sid false) rfl rfl
    obtain ⟨replay, highest, hnote⟩ := note_eq (init P.crypto P.master P.sid false) count
    rw [hok, hnote] at hfd
    dsimp only at hfd
    split at hfd
    · cases hfd
    split at hfd
    · cases hfd
      exact Live.fresh now replay highest hqd hwr hbase true fun _ => hup
    · cases hfd

/-- **A packet of the peer leaves a tunnel sound.** -/
theorem Sound.receive (cs : Bool) (now : Int) (h : Sound P e log up base st) (hw : Wire P e.other log w)
    (hup : up) : Sound P e log up base (st.receive P.crypto w cs now) := by
  unfold Tunnel.receive
  split
  · exact h
  cases hfd : st.find P.crypto w cs now with
  | none => exact h
  | some ch =>
    have hlive := h.find hw hup hfd
    dsimp only
    split
    · exact .ofLive h.outer hlive
    obtain ⟨data, count, hok, hseq, hrec⟩ := hw.decode.2.2 ch.secure hlive.sid hlive.rxKey
    obtain ⟨replay, highest, hnote⟩ := note_eq ch.secure count
    rw [hok, hnote]
    refine Sound.accept h.outer ?_ hup hseq hrec
    exact { hlive with }

/-! ## New packets -/

/-- **A record that is queued leaves a tunnel sound.** -/
theorem Sound.queueSend {kn : Kind} {data : Bytes} (now : Int) (ho : Outer P e up base st)
    (hl : Live P e log up base st ch) (hkd : kn = .opening → e = .client ∧ st.queued = [])
    (hsz : data.length ≤ payloadMax) (hdt : kn = .data ∨ data = [])
    (htal : e.isClient.toNat < st.queued.length + 1 → up) :
    Sound P e log up base (st.queueSend P.crypto ch kn data now) := by
  unfold Tunnel.queueSend Session.queue
  by_cases hqu : kn = .ack ∨ ¬ ch.secure.canQueue = true
  · rw [if_pos hqu]
    exact .ofLive ho hl
  rw [if_neg hqu]
  obtain ⟨hack, hcan⟩ := not_or.mp hqu
  obtain ⟨-, hnex, hfree, hctr⟩ := canQueue_iff.mp (not_not.mp hcan)
  unfold encode
  rw [if_neg (by simp [hfree]), if_neg (by omega)]
  have hplc : (st.queued ++ [(kn, data)])[ch.secure.nextTx]? = some (kn, data) := by
    rw [hl.counted]
    exact getElem?_concat_length
  have hwire : Wire P e (st.queued ++ [(kn, data)]) (sealedPacket P.crypto.aead ch.secure.txKey ch.secure.sid kn
      ch.secure.counter ch.secure.nextTx data) := by
    rw [hl.txKey, hl.sid]
    exact .record hctr hnex hsz hdt hplc
  have houter : Outer P e up base (send { st with queued := st.queued ++ [(kn, data)] }
      (sealedPacket P.crypto.aead ch.secure.txKey ch.secure.sid kn ch.secure.counter ch.secure.nextTx data)) :=
    { ho with
      wires := forall_mem_append.mpr ⟨fun w hw => (ho.wires w hw).more _, forall_mem_singleton.mpr hwire⟩
      shaped := by
        intro i k d hi
        rcases getElem?_concat_cases hi with hold | ⟨hlast, heq⟩
        · exact ho.shaped i k d hold
        cases heq
        refine ⟨hack, fun hopn => ?_⟩
        obtain ⟨hcli, hnil⟩ := hkd hopn
        rw [hlast, hnil]
        exact ⟨hcli, rfl⟩
      limit := by
        show (st.queued ++ [(kn, data)]).length ≤ maxInt
        rw [length_append, ← hl.counted]
        exact hnex
      talking := by
        intro hlt
        refine htal ?_
        have hlen : (st.queued ++ [(kn, data)]).length = st.queued.length + 1 := length_append
        rw [← hlen]
        exact hlt
      accepts := ho.accepts.trans (prefix_append _ _) }
  refine .ofLive houter
    { hl with
      counter := hctr
      counted := ?_
      pending := ?_ }
  · show ch.secure.nextTx + 1 = (st.queued ++ [(kn, data)]).length
    rw [length_append, hl.counted]
    rfl
  intro i hact
  dsimp only at hact ⊢
  by_cases hi : i = slotOf 256 ch.secure.nextTx
  · subst hi
    rw [update_self]
    exact hwire
  · rw [update_of_ne hi] at hact ⊢
    exact (hl.pending i hact).more _

theorem Sound.read (inp : Bytes) (now : Int) (h : Sound P e log up base st) :
    Sound P e log up base (st.read P.crypto inp now) := by
  unfold Tunnel.read
  cases hchan : st.channel with
  | none => exact h
  | some ch =>
    have hlive := h.live ch hchan
    dsimp only
    split
    · exact h
    rename_i hguard
    have hup : up := hlive.opened (by
      have hrdb := not_not.mp hguard
      simp only [readable, Bool.and_eq_true] at hrdb
      exact hrdb.1.1.2)
    split
    · exact Sound.queueSend now h.outer { hlive with } nofun (by decide) (.inr rfl) fun _ => hup
    · exact Sound.queueSend now h.outer hlive nofun (length_take_le _ _) (.inl rfl) fun _ => hup

/-! ## The local connection -/

/-- The record at the front of a channel is the next one of the peer. -/
theorem Live.front (hl : Live P e log up base st ch)
    (hdt : ch.secure.received (slotOf 256 ch.secure.nextRx) = some data) :
    data.seq = ch.secure.nextRx ∧ log[ch.secure.nextRx]? = some (data.kind, data.bytes) := by
  have hseq := hl.windowed.at_next hdt
  exact ⟨hseq, hl.order.holds _ _ (heldAt_eq_some.mpr ⟨data, hdt, hseq, rfl⟩)⟩

/-- More bytes of the record at the front are written. -/
theorem Live.write {n : Nat} (hl : Live P e log up base st ch)
    (hdt : ch.secure.received (slotOf 256 ch.secure.nextRx) = some data) (hkd : data.kind = .data) :
    Live P e log up base { st with written := st.written ++ (data.bytes.drop ch.outputOffset).take n }
      { ch with outputOffset := ch.outputOffset + n } := by
  obtain ⟨-, hrec⟩ := hl.front hdt
  have hpay : (log[ch.secure.nextRx]?.map payloadOf).getD [] = data.bytes := by
    rw [hrec]
    simp [payloadOf, hkd]
  have hwr := hl.written
  rw [hpay] at hwr
  exact { hl with
    written := by
      rw [hpay, hwr, take_add, append_assoc]
    offset := fun _ => (List.getElem?_eq_some_iff.mp hrec).1 }

/-- The record at the front is done with, once its bytes are written. -/
theorem Live.next (hl : Live P e log up base st ch) (hdt : ch.secure.received (slotOf 256 ch.secure.nextRx) = some data)
    (hdone : (payloadOf (data.kind, data.bytes)).length ≤ ch.outputOffset) :
    Live P e log up base st (advance (finish ch)) := by
  obtain ⟨hseq, hrec⟩ := hl.front hdt
  have htake : log.take (ch.secure.nextRx + 1) = log.take ch.secure.nextRx ++ [(data.kind, data.bytes)] := by
    rw [take_add_one, hrec]
    rfl
  exact { hl with
    windowed := hl.windowed.take
    order := by
      have hadv := hl.order.advance hrec
      rw [← htake] at hadv
      refine hadv.hold ?_
      intro i r hr
      obtain ⟨d, hd, hd', rfl⟩ := heldAt_eq_some.mp hr
      have hd : update ch.secure.received (slotOf 256 ch.secure.nextRx) none (slotOf 256 i) = some d := hd
      by_cases hslot : slotOf 256 i = slotOf 256 ch.secure.nextRx
      · rw [hslot, update_self] at hd
        cases hd
      · rw [update_of_ne hslot] at hd
        exact .inl (heldAt_eq_some.mpr ⟨d, hd, hd', rfl⟩)
    written := by
      show st.written = payloads (log.take (ch.secure.nextRx + 1)) ++ take 0 _
      rw [take_zero, append_nil, htake, hl.written, hrec]
      show _ ++ (payloadOf (data.kind, data.bytes)).take ch.outputOffset = _
      rw [take_of_length_le hdone]
      simp [payloads]
    offset := fun hne => absurd rfl hne
    seen := by
      intro i d hd
      have hd : update ch.secure.received (slotOf 256 ch.secure.nextRx) none i = some d := hd
      by_cases hi : i = slotOf 256 ch.secure.nextRx
      · subst hi
        rw [update_self] at hd
        cases hd
      · rw [update_of_ne hi] at hd
        exact hl.seen i d hd
    passed := by
      intro k hk
      have hk : k < ch.secure.nextRx + 1 := hk
      rcases Nat.lt_succ_iff_lt_or_eq.mp hk with hk | rfl
      · exact hl.passed k hk
      · rw [← hseq]
        exact hl.seen _ data hdt
    onward := Nat.le_succ_of_le hl.onward }

/-- One round of the pump: what it writes is next, and it does not find a record out of place. -/
theorem Live.pumpRound {client : Bool} (hcli : client = e.isClient) (hshap : Shaped e.other log)
    (hl : Live P e log up base st ch) (writes : List (Option Nat)) :
    Live P e log up base { st with written := st.written ++ (pumpRound client writes ch).2.2.2 }
        (pumpRound client writes ch).2.2.1 ∧
      (∀ err, (pumpRound client writes ch).1 = .fail err → err ≠ .invalidSequence) ∧
      ((pumpRound client writes ch).1 = .done → ∃ data, (pumpRound client writes ch).2.2.1.secure.received
          (slotOf 256 (pumpRound client writes ch).2.2.1.secure.nextRx) = some data ∧
        (payloadOf (data.kind, data.bytes)).length ≤ (pumpRound client writes ch).2.2.1.outputOffset) := by
  have hsm : Live P e log up base { st with written := st.written ++ [] } ch :=
    { hl with written := (append_nil _).trans hl.written }
  unfold Tunnel.pumpRound
  cases hdt : ch.secure.received (slotOf 256 ch.secure.nextRx) with
  | none => exact ⟨hsm, by rintro _ ⟨⟩, by rintro ⟨⟩⟩
  | some data =>
    obtain ⟨hseq, hrec⟩ := hl.front hdt
    obtain ⟨hack, hopn⟩ := hshap _ _ _ hrec
    dsimp only
    rw [if_neg (not_not.mpr hseq)]
    cases hkd : data.kind with
    | data =>
      dsimp only
      split
      · refine ⟨hsm, ?_, by rintro ⟨⟩⟩
        rintro err ⟨⟩
        decide
      split
      · rename_i taken rest
        have hwrt := hl.write (n := min taken (data.bytes.length - ch.outputOffset)) hdt hkd
        split
        · exact ⟨hwrt, by rintro _ ⟨⟩, by rintro ⟨⟩⟩
        rename_i hall
        refine ⟨hwrt, by rintro _ ⟨⟩, fun _ => ⟨data, hdt, ?_⟩⟩
        rw [payloadOf, if_pos hkd]
        exact (not_not.mp hall).ge
      · exact ⟨hsm, by rintro _ ⟨⟩, by rintro ⟨⟩⟩
    | fin =>
      refine ⟨{ hsm with }, by rintro _ ⟨⟩, fun _ => ⟨data, hdt, ?_⟩⟩
      rw [hkd]
      exact Nat.zero_le _
    | opening =>
      -- only the first record of a client is one
      obtain ⟨hoth, hzero⟩ := hopn hkd
      have hagt : e = .agent := by
        cases e with
        | client => cases hoth
        | agent => rfl
      subst hagt hcli
      dsimp only
      rw [if_neg (by simp [End.isClient, hseq, hzero])]
      refine ⟨hsm, by rintro _ ⟨⟩, fun _ => ⟨data, hdt, ?_⟩⟩
      rw [hkd]
      exact Nat.zero_le _
    | ack => exact absurd hkd hack

/-- **The pump writes the front of what the peer has queued**, and fails only for data after the end. -/
theorem Live.pumpLoop {cl : Bool} (hcli : cl = e.isClient) (hshap : Shaped e.other log)
    (hlim : log.length ≤ maxInt) (n : Nat) (ws : List (Option Nat)) (out : Bytes)
    (hl : Live P e log up base { st with written := st.written ++ out } ch) :
    Live P e log up base { st with written := st.written ++ (pumpLoop cl n ws ch out).2.2 }
        (pumpLoop cl n ws ch out).2.1 ∧ (pumpLoop cl n ws ch out).1 ≠ some .invalidSequence := by
  induction n generalizing ws ch out with
  | zero => exact ⟨hl, nofun⟩
  | succ n ih =>
    obtain ⟨hrnd, hfail, hdone⟩ := hl.pumpRound hcli hshap ws
    unfold pumpLoop
    generalize Tunnel.pumpRound cl ws ch = r at hrnd hfail hdone ⊢
    obtain ⟨front, ws', ch', more⟩ := r
    have hlive : Live P e log up base { st with written := st.written ++ (out ++ more) } ch' := { hrnd with
      written := by
        rw [← append_assoc]
        exact hrnd.written }
    cases front with
    | stop => exact ⟨hlive, nofun⟩
    | fail err =>
      refine ⟨hlive, ?_⟩
      rintro ⟨⟩
      exact hfail _ rfl rfl
    | done =>
      obtain ⟨data, hdt, hwr⟩ := hdone rfl
      dsimp only at hdt hwr
      -- the peer has not used the last number
      have hrch := (List.getElem?_eq_some_iff.mp (hlive.front hdt).2).1
      have hnx : ¬ (finish ch').secure.nextRx = maxInt := by
        show ¬ ch'.secure.nextRx = maxInt
        omega
      dsimp only
      rw [if_neg hnx]
      exact ih ws' (out ++ more) (hlive.next hdt hwr)

theorem Live.retryLoop (now : Int) (sl : List (Fin 256)) (out : List Bytes) (hl : Live P e log up base st ch)
    (hout : ∀ w ∈ out, Wire P e st.queued w) : Live P e log up base st (retryLoop now sl ch out).1 ∧
      ∀ w ∈ (retryLoop now sl ch out).2, Wire P e st.queued w := by
  induction sl generalizing ch out with
  | nil => exact ⟨hl, hout⟩
  | cons i rest ih =>
    unfold retryLoop
    cases hrty : ch.secure.retry i now with
    | error err => exact ⟨{ hl with }, hout⟩
    | ok r =>
      obtain ⟨again, sc⟩ := r
      rcases retry_cases hrty with ⟨rfl, rfl⟩ |
        ⟨rfl, hact, attempts, deadline, congestion, limit, credit, recovery, rfl, -⟩
      · exact ih _ { hl with } hout
      -- a packet that is sent again is one of the ring
      refine ih _ { hl with pending := hl.resent (kept_update fun _ => ⟨hact, rfl⟩) } ?_
      refine forall_mem_append.mpr ⟨hout, forall_mem_singleton.mpr ?_⟩
      dsimp only
      rw [update_self]
      exact hl.pending i hact

/-- **A round of the worker leaves a tunnel sound.** -/
theorem Sound.service (ws : List (Option Nat)) (now : Int) (hshap : Shaped e.other log)
    (hlim : log.length ≤ maxInt) (h : Sound P e log up base st) : Sound P e log up base (st.service ws now) := by
  unfold Tunnel.service
  cases hchan : st.channel with
  | none => exact h
  | some ch =>
    have hlive := h.live ch hchan
    dsimp only
    split
    · exact h
    split
    · exact .ofLive h.outer { hlive with }
    have hst : Live P e log up base { st with written := st.written ++ [] } ch :=
      { hlive with written := (append_nil _).trans hlive.written }
    obtain ⟨hpum, -⟩ := Live.pumpLoop h.outer.role hshap hlim window ws [] hst
    unfold pump
    generalize pumpLoop st.client window ws ch [] = r at hpum ⊢
    obtain ⟨err, ch', out⟩ := r
    have houter : Outer P e up base { st with written := st.written ++ out } := { h.outer with }
    cases err with
    | some err => exact .ofLive houter { hpum with }
    | none =>
      dsimp only at hpum ⊢
      split
      · exact .ofLive houter hpum
      have hscan : Live P e log up base { st with written := st.written ++ out }
          { ch' with retryScan := now + 5 } := { hpum with }
      obtain ⟨hret, hws⟩ := hscan.retryLoop now (finRange 256) []
        fun w hw => absurd hw not_mem_nil
      generalize retryLoop now (finRange 256) { ch' with retryScan := now + 5 } [] = r
        at hret hws ⊢
      have houter' : Outer P e up base
          { st with written := st.written ++ out, wires := st.wires ++ r.2 } :=
        { houter with
          wires := forall_mem_append.mpr ⟨h.outer.wires, hws⟩ }
      exact .ofLive houter' { hret with }

end Tunnel

end Shadow6.CoreZig
