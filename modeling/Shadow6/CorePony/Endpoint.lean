import Shadow6.CorePony.Runtime

/-!
# `CorePony.Endpoint` — what one end of a session keeps

One end hears packets of an honest peer: the peer has numbered the records `log` and has acknowledged the numbers in
`heard`. `Sound` is what the end keeps, whatever it hears and in whatever order: its window, its pending packets, the
packets it has made, what it has delivered of `log`, and which numbers it has acknowledged.

The last point is what joins the two ends. An end acknowledges a number only after it has accepted it, and after
every packet it stops in front of a number it has not accepted; so there is always a number at or below
`_receive_next` that it never acknowledged (`gap`), and a peer whose base moves over acknowledged numbers only cannot
pass it. Everything here is about one end; `CorePony.Transport` puts two of them together.
-/

namespace Shadow6.CorePony

open Library OCapToken List Dict ReliableSession

/-! ## Packets -/

/-- A packet that a session with token `t` makes after it has accepted the records `log`. -/
inductive Packet (A : Aead) (t : OCapToken) (log : List Bytes) : Bytes → Prop where
  | raw {w : Bytes} (h : w.take 3 ≠ magic) : Packet A t log w
  | confirm {k : Nat} (hk : k ≤ 1) : Packet A t log (t.sealedPacket A 1 k [])
  | data {s : Nat} {p : Bytes} (hlow : 2 ≤ s) (hmax : s < u64Max) (hp : log[s - 2]? = some p)
      (hsize : p.length ≤ 1172) : Packet A t log (t.sealedPacket A s kindData p)
  | ack {s : Nat} (hlow : 2 ≤ s) (hmax : s < u64Max) : Packet A t log (t.sealedPacket A s kindAck [])

variable {A : Aead} {t : OCapToken} {log : List Bytes}

variable {w : Bytes}

theorem Packet.more (h : Packet A t log w) (l : List Bytes) : Packet A t (log ++ l) w := by
  cases h with
  | raw h => exact .raw h
  | confirm hk => exact .confirm hk
  | data hlow hmax hp hsz =>
    refine .data hlow hmax ?_ hsz
    rw [List.getElem?_append_left (List.getElem?_eq_some_iff.mp hp).1]
    exact hp
  | ack hlow hmax => exact .ack hlow hmax

/-- An acknowledgement, by its header. -/
def isAck (w : Bytes) : Bool := decide (w.take 3 = magic ∧ kindOf w = kindAck)

/-- The numbers that a list of packets acknowledges. -/
def ackNumbers (ws : List Bytes) : List Nat := (ws.filter isAck).map sequenceOf

theorem ackNumbers_append (ws ws' : List Bytes) : ackNumbers (ws ++ ws') = ackNumbers ws ++ ackNumbers ws' := by
  unfold ackNumbers
  rw [filter_append, map_append]

theorem mem_ackNumbers_of_mem {ws : List Bytes} (hw : w ∈ ws) (h : isAck w = true) : sequenceOf w ∈ ackNumbers ws :=
  mem_map_of_mem (mem_filter.mpr ⟨hw, h⟩)

theorem ackNumbers_singleton (w : Bytes) : ackNumbers [w] = if isAck w then [sequenceOf w] else [] := by
  unfold ackNumbers
  rw [filter_singleton]
  cases isAck w <;> rfl

theorem take_sealedPacket (s k : Nat) (p : Bytes) : (t.sealedPacket A s k p).take 3 = magic := by
  simp [sealedPacket, header, magic]

theorem kindOf_sealedPacket {s k : Nat} (p : Bytes) (hk : k ≤ 3) : kindOf (t.sealedPacket A s k p) = k :=
  kindOf_header hk _

theorem sequenceOf_sealedPacket {s k : Nat} (p : Bytes) (hs : s < 2 ^ 64) : sequenceOf (t.sealedPacket A s k p) = s :=
  sequenceOf_header hs _

theorem isAck_sealedPacket {s k : Nat} (p : Bytes) (hk : k ≤ 3) :
    isAck (t.sealedPacket A s k p) = decide (k = kindAck) := by
  unfold isAck
  rw [take_sealedPacket, kindOf_sealedPacket p hk]
  simp

theorem packet_confirm {k : Nat} (hk : k ≤ 1) :
    Packet A t log (t.sealedPacket A 1 k []) ∧ isAck (t.sealedPacket A 1 k []) = false := by
  refine ⟨.confirm hk, ?_⟩
  rw [isAck_sealedPacket [] (by omega)]
  exact decide_eq_false (by unfold kindAck; omega)

theorem isAck_raw (h : w.take 3 ≠ magic) : isAck w = false := by
  unfold isAck
  simp [h]

/-! What the peer makes, an end opens to what was sealed. -/

theorem openPacket_raw (h : w.take 3 ≠ magic) : t.openPacket A w = none := by
  unfold OCapToken.openPacket
  rw [if_pos (.inr (.inr (.inl h)))]

variable {s : Nat}

theorem lt_of_lt_u64Max (h : s < u64Max) : s < 2 ^ 64 := h.trans (by decide)

theorem openPacket_confirm {k : Nat} (hk : k ≤ 1) :
    t.openPacket A (t.peer.sealedPacket A 1 k []) = some (header 1 k ++ []) :=
  openPacket_sealed (t := t.peer) (by decide) (by decide) (by decide) (by omega)

theorem openPacket_data {p : Bytes} (hlow : 2 ≤ s) (hmax : s < u64Max) (hsz : p.length ≤ 1172) :
    t.openPacket A (t.peer.sealedPacket A s kindData p) = some (header s kindData ++ p) :=
  openPacket_sealed (t := t.peer) hsz (by omega) (lt_of_lt_u64Max hmax) (by decide)

theorem openPacket_ack (hlow : 2 ≤ s) (hmax : s < u64Max) :
    t.openPacket A (t.peer.sealedPacket A s kindAck []) = some (header s kindAck ++ []) :=
  openPacket_sealed (t := t.peer) (by decide) (by omega) (lt_of_lt_u64Max hmax) (by decide)

theorem drop_header (s k : Nat) (payload : Bytes) : (header s k ++ payload).drop 12 = payload := by
  rw [drop_append_of_le_length (by simp), drop_of_length_le (by simp), nil_append]

namespace Station

/-- All packets an end has made, whether they have left it or not. -/
def out (st : Station) : List Bytes := st.wires ++ st.networkOutput

@[simp] theorem out_flushNetwork (st : Station) : st.flushNetwork.out = st.out := by
  simp [out, flushNetwork]

theorem sendWire_eq (st : Station) (w : Bytes) :
    ∃ wires o, st.sendWire w = { st with wires := wires, networkOutput := o } ∧
      wires ++ o = st.out ++ [w] := by
  unfold sendWire
  dsimp only
  split
  · exact ⟨_, _, rfl, by simp [out]⟩
  · exact ⟨_, _, rfl, by simp [out]⟩

/-! ## The invariant of one end -/

/-- What an end has kept since it was `base`. -/
structure Since (base st : Station) : Prop where
  accepts : base.accepted <+: st.accepted
  keeps : ∀ s ∈ ackNumbers base.out, s ∈ ackNumbers st.out
  client : st.client = base.client
  peer : st.peer = base.peer
  stage : base.stage = 3 → st.stage = 3
  attached : st.flowAttached = base.flowAttached
  opened : st.closed = false → base.closed = false
  fd : st.closed = false → st.flowFd = base.flowFd
  held : st.closed = false → ∀ s, base.session.Accepted s → st.session.Accepted s

theorem Since.refl (st : Station) : Since st st :=
  ⟨prefix_rfl, fun _ hs => hs, rfl, rfl, id, rfl, id, fun _ => rfl, fun _ _ hs => hs⟩

/-- What an end with token `t` keeps towards a peer that has numbered `log` and acknowledged `heard`, with what it has
    added since it was `base`; the session has handed out `rest`, which is not delivered yet, and while it is `busy`
    with a packet it may hold the record it waits for. -/
structure Sound (A : Aead) (t : OCapToken) (log : List Bytes) (heard : Nat → Prop) (base : Station)
    (busy : Prop) (rest : List Bytes) (st : Station) : Prop where
  windowed : st.session.Windowed
  counted : st.session.next = st.accepted.length + 2
  pending : ∀ w, st.session.PendingWire w → Packet A t st.accepted w ∧ isAck w = false
  packets : ∀ w ∈ st.out, Packet A t st.accepted w
  retry : Packet A t st.accepted st.retry ∧ isAck st.retry = false
  token : ∀ u, st.token = some u → u = t
  keyed : st.closed = false → st.stage ≠ 1 → st.token = some t
  front : st.delivered <+: log
  receiving : st.closed = false → st.session.Receiving log (st.delivered ++ rest)
  start : 2 ≤ st.session.receiveNext
  acked : st.closed = false → ∀ s ∈ ackNumbers st.out, st.session.Accepted s
  gap : ∃ u, 2 ≤ u ∧ u ≤ st.session.receiveNext ∧ u ∉ ackNumbers st.out
  stops : ¬ busy → st.closed = false → st.session.receiveNext ∉ st.session.receivedPackets
  below : ∀ s, 2 ≤ s → s < st.session.sendBase → heard s
  settled : st.closed = false → ∀ s, 2 ≤ s → s < st.session.next → s ∉ st.session.sentPackets → heard s
  sized : ∀ p ∈ st.accepted, p.length ≤ 1172
  flowed : st.closed = false → st.flowAttached = true → st.handed ++ st.appOutput = st.delivered
  since : Since base st

variable {heard : Nat → Prop} {bs : Station} {bu : Prop} {re : List Bytes} {st st' : Station} {H : Host}

section

variable (h : Sound A t log heard bs bu re st)
include h

/-- The peer goes on. -/
theorem Sound.more {heard' : Nat → Prop} (l : List Bytes) (hhd : ∀ s, heard s → heard' s) : Sound A t (log ++ l) heard' bs bu re st :=
  { h with
    front := h.front.trans (prefix_append log l)
    receiving := fun ho => (h.receiving ho).more l
    below := fun s hlow hs => hhd s (h.below s hlow hs)
    settled := fun ho s hlow hs hpend => hhd s (h.settled ho s hlow hs hpend) }

theorem Sound.rebase : Sound A t log heard st bu re st :=
  { h with since := .refl st }

end

/-- `st'` is `st` as far as the invariant can see, but for timers. -/
structure Quiet (st st' : Station) : Prop where
  session : st.session.Restamped st'.session
  out : st'.out = st.out
  accepted : st'.accepted = st.accepted
  delivered : st'.delivered = st.delivered
  closed : st'.closed = st.closed
  token : st'.token = st.token
  retry : st'.retry = st.retry
  stage : st'.stage = st.stage
  client : st'.client = st.client
  peer : st'.peer = st.peer
  attached : st'.flowAttached = st.flowAttached
  flow : st'.closed = false →
    st'.flowFd = st.flowFd ∧ (st'.flowAttached = true → st'.handed ++ st'.appOutput = st.handed ++ st.appOutput)

theorem Quiet.refl (st : Station) : Quiet st st :=
  ⟨.refl _, rfl, rfl, rfl, rfl, rfl, rfl, rfl, rfl, rfl, rfl, fun _ => ⟨rfl, fun _ => rfl⟩⟩

theorem Quiet.accepted_iff (q : Quiet st st') (s : Nat) : st'.session.Accepted s ↔ st.session.Accepted s := by
  show s < st'.session.receiveNext ∨ s ∈ st'.session.receivedPackets ↔ _
  rw [q.session.receiveNext, q.session.receivedPackets]
  rfl

theorem Since.quiet (h : Since bs st) (q : Quiet st st') : Since bs st' where
  accepts := by
    rw [q.accepted]
    exact h.accepts
  keeps := by
    rw [q.out]
    exact h.keeps
  client := q.client.trans h.client
  peer := q.peer.trans h.peer
  stage := fun hbase => q.stage.trans (h.stage hbase)
  attached := q.attached.trans h.attached
  opened := fun ho => h.opened (q.closed.symm.trans ho)
  fd := fun ho => (q.flow ho).1.trans (h.fd (q.closed.symm.trans ho))
  held := fun ho s hs => (q.accepted_iff s).mpr (h.held (q.closed.symm.trans ho) s hs)

section

variable (h : Sound A t log heard bs bu re st)
include h

theorem Sound.quiet (q : Quiet st st') : Sound A t log heard bs bu re st' where
  windowed := h.windowed.restamped q.session
  counted := by
    rw [q.session.next, q.accepted]
    exact h.counted
  pending := by
    intro w hw
    rw [q.accepted]
    exact h.pending w (q.session.pendingWire hw)
  packets := by
    rw [q.out, q.accepted]
    exact h.packets
  retry := by
    rw [q.retry, q.accepted]
    exact h.retry
  token := by
    rw [q.token]
    exact h.token
  keyed := by
    rw [q.closed, q.stage, q.token]
    exact h.keyed
  front := by
    rw [q.delivered]
    exact h.front
  receiving := by
    rw [q.closed, q.delivered]
    intro ho
    exact (h.receiving ho).congr q.session.receiveNext q.session.receivedPackets
  start := by
    rw [q.session.receiveNext]
    exact h.start
  acked := by
    rw [q.closed, q.out]
    intro ho s hs
    exact (q.accepted_iff s).mpr (h.acked ho s hs)
  gap := by
    rw [q.session.receiveNext, q.out]
    exact h.gap
  stops := by
    rw [q.closed, q.session.receiveNext, q.session.receivedPackets]
    exact h.stops
  below := by
    rw [q.session.sendBase]
    exact h.below
  settled := by
    rw [q.closed, q.session.next]
    intro ho s hlow hs hpend
    exact h.settled ho s hlow hs fun hmem => hpend ((q.session.mem_iff s).mpr hmem)
  sized := by
    rw [q.accepted]
    exact h.sized
  flowed := by
    intro ho hflow
    rw [(q.flow ho).2 hflow, q.delivered]
    exact h.flowed (q.closed.symm.trans ho) (q.attached.symm.trans hflow)
  since := h.since.quiet q

/-- Timers, counts of calls and the address of the application are not looked at. -/
theorem Sound.restamp {ss : ReliableSession} {address : Option NetAddress} {ac se sn r : Nat}
    {eof : Bool} (hsess : st.session.Restamped ss) : Sound A t log heard bs bu re { st with
      session := ss, localAddress := address, lastActivity := ac, handshakeSent := se, flowEof := eof,
      sends := sn, recvs := r } :=
  h.quiet { Quiet.refl st with session := hsess }

/-- For a closed end it does not matter what was left to do. -/
theorem Sound.ofClosed (hcl : st.closed = true) (bu' : Prop) (re' : List Bytes) : Sound A t log heard bs bu' re' st :=
  { h with
    receiving := fun ho => absurd (hcl.symm.trans ho) (by decide)
    stops := fun _ ho => absurd (hcl.symm.trans ho) (by decide) }

theorem Sound.close : Sound A t log heard bs bu re st.close := by
  unfold Station.close
  split
  · exact h
  exact { h with
    windowed := { h.windowed with keys := fun k hk => absurd hk (not_mem_empty k) }
    pending := by
      rintro w ⟨k, p, hfd, -⟩
      cases hfd
    token := nofun
    keyed := nofun
    receiving := nofun
    acked := nofun
    stops := nofun
    settled := nofun
    flowed := nofun
    since := { h.since with opened := nofun, fd := nofun, held := nofun } }

end

/-- For an end that closes it does not matter what waits for the flow, and which flow it is. -/
theorem Sound.closeQueue (st : Station) {q : List Bytes}
    (h : Sound A t log heard bs bu re { st with appOutput := q }) (n : Nat) (fd : Int) (dr : Bool) :
    Sound A t log heard bs bu re
      (Station.close { st with sends := n, flowFd := fd, flowDrained := dr }) := by
  have hcl := h.close
  unfold Station.close at hcl ⊢
  by_cases ho : st.closed = true
  · rw [if_pos ho] at hcl ⊢
    exact hcl.quiet { Quiet.refl _ with flow := fun ho' => absurd (ho.symm.trans ho') (by decide) }
  · rw [if_neg ho] at hcl ⊢
    exact hcl.quiet { Quiet.refl _ with flow := nofun }

section

variable (h : Sound A t log heard bs bu re st)
include h

/-- The end makes a packet that is no acknowledgement, and sends or queues it. -/
theorem Sound.made {ws o : List Bytes} (hw : Packet A t st.accepted w ∧ isAck w = false)
    (hperm : (ws ++ o).Perm (w :: st.out)) :
    Sound A t log heard bs bu re { st with wires := ws, networkOutput := o } := by
  have hacks : ∀ s, s ∈ ackNumbers (ws ++ o) ↔ s ∈ ackNumbers st.out := by
    intro s
    have hmem : s ∈ ackNumbers (ws ++ o) ↔ s ∈ ackNumbers (w :: st.out) :=
      ((hperm.filter isAck).map sequenceOf).mem_iff
    rw [hmem, ackNumbers, filter_cons_of_neg (by simp [hw.2])]
    rfl
  exact { h with
    packets := fun w' hmem => forall_mem_cons.mpr ⟨hw.1, h.packets⟩ w' (hperm.mem_iff.mp hmem)
    acked := fun ho s hs => h.acked ho s ((hacks s).mp hs)
    gap := by
      obtain ⟨u, hlow, hle, hnot⟩ := h.gap
      exact ⟨u, hlow, hle, fun hmem => hnot ((hacks u).mp hmem)⟩
    since := { h.since with keeps := fun s hs => (hacks s).mpr (h.since.keeps s hs) } }

theorem Sound.emit (hw : Packet A t st.accepted w ∧ isAck w = false) : Sound A t log heard bs bu re (st.sendWire w) := by
  obtain ⟨wires, o, heq, hout⟩ := sendWire_eq st w
  rw [heq]
  refine h.made hw ?_
  rw [hout]
  exact perm_append_singleton w st.out

/-! ## Output to the network and to the application -/

theorem Sound.flushNetwork : Sound A t log heard bs bu re st.flushNetwork :=
  h.quiet { Quiet.refl st with out := out_flushNetwork st }

end

variable (rs : List Bytes)

theorem Sound.flushFlow
    (h : Sound A t log heard bs bu re { st with appOutput := rs }) (hnil : st.appOutput = []) :
    Sound A t log heard bs bu re (flushFlow H rs st) := by
  induction rs generalizing st with
  | nil =>
    refine h.quiet { Quiet.refl _ with flow := fun _ => ⟨rfl, fun _ => ?_⟩ }
    show st.handed ++ st.appOutput = st.handed ++ []
    rw [hnil]
  | cons payload rs ih =>
    unfold flushFlow
    dsimp only
    split
    · exact h.restamp (.refl _)
    split
    · exact Sound.closeQueue st h _ st.flowFd st.flowDrained
    · refine ih (h.quiet { Quiet.refl _ with flow := fun _ => ⟨rfl, fun _ => ?_⟩ }) hnil
      exact append_assoc st.handed [payload] rs

theorem Sound.flushOutput (h : Sound A t log heard bs bu re st) :
    Sound A t log heard bs bu re (flushOutput H st) := by
  have hnet := h.flushNetwork
  unfold Station.flushOutput
  dsimp only
  split
  · exact hnet
  split
  · exact Sound.flushFlow _ hnet rfl
  rename_i hflow
  split
  · exact hnet.quiet { Quiet.refl _ with flow := fun _ => ⟨rfl, fun hflow' => absurd hflow' hflow⟩ }
  · exact hnet

theorem closed_close (st : Station) : st.close.closed = true := by
  unfold close
  split
  · assumption
  · rfl

theorem flowFd_close (ho : st.closed = false) : st.close.flowFd < 0 := by
  unfold close
  rw [if_neg (by simp [ho])]
  dsimp only
  split <;> omega

/-- A flush of the flow leaves the session as it is, or it closes the session and the flow. -/
theorem flushFlow_cases (st : Station) (ho : st.closed = false) :
    ((flushFlow H rs st).closed = false ∧ (flushFlow H rs st).session = st.session) ∨
      ((flushFlow H rs st).closed = true ∧ (flushFlow H rs st).flowFd < 0) := by
  induction rs generalizing st with
  | nil => exact .inl ⟨ho, rfl⟩
  | cons payload rs ih =>
    unfold flushFlow
    dsimp only
    split
    · exact .inl ⟨ho, rfl⟩
    split
    · exact .inr ⟨closed_close _, flowFd_close ho⟩
    · exact ih _ ho

theorem flushOutput_cases (st : Station) (ho : st.closed = false) :
    ((flushOutput H st).closed = false ∧ (flushOutput H st).session = st.session) ∨
      (st.flowAttached = true ∧ (flushOutput H st).closed = true ∧ (flushOutput H st).flowFd < 0) := by
  unfold flushOutput
  dsimp only
  split
  · exact .inl ⟨ho, rfl⟩
  split
  · rename_i hflow
    exact (flushFlow_cases _ { st.flushNetwork with appOutput := [] } ho).imp_right fun hdown => ⟨hflow, hdown⟩
  · split <;> exact .inl ⟨ho, rfl⟩

/-- Delivering to the application closes a session or leaves it as it is, and `_deliver` says which. -/
theorem deliver_cases (st : Station) (pl : Bytes) (ho : st.closed = false) :
    (∃ st', deliver H st pl = (true, st') ∧ st'.closed = false ∧ st'.session = st.session) ∨
      ∃ st', deliver H st pl = (false, st') ∧ st'.closed = true := by
  have hflush := flushOutput_cases (H := H)
    { st with delivered := st.delivered ++ [pl], appOutput := st.appOutput ++ [pl] } ho
  unfold deliver
  dsimp only
  split
  · split
    · exact .inr ⟨_, rfl, closed_close _⟩
    rcases hflush with ⟨hstill, hsess⟩ | ⟨-, hcl, -⟩
    · exact .inl ⟨_, by rw [hstill]; rfl, hstill, hsess⟩
    · exact .inr ⟨_, by rw [hcl]; rfl, hcl⟩
  rename_i hflow
  split
  · split
    · rcases hflush with ⟨hstill, hsess⟩ | ⟨hatt, -⟩
      · exact .inl ⟨_, rfl, hstill, hsess⟩
      · exact absurd hatt hflow
    · exact .inl ⟨_, rfl, ho, rfl⟩
  · exact .inl ⟨_, rfl, ho, rfl⟩

variable {p : Bytes}

/-- The next record of the session is the next one of what the peer has numbered, and waits for the application. -/
theorem Sound.queued (h : Sound A t log heard bs bu (p :: re) st) (ho : st.closed = false) :
    Sound A t log heard bs bu re
      { st with delivered := st.delivered ++ [p], appOutput := st.appOutput ++ [p] } := by
  have hrec := h.receiving ho
  rw [append_cons] at hrec
  exact { h with
    front := (prefix_append _ re).trans hrec.order.front
    receiving := fun _ => hrec
    flowed := by
      intro _ hflow
      rw [← append_assoc, h.flowed ho hflow]
    since := { h.since with } }

theorem Sound.deliver (h : Sound A t log heard bs bu (p :: re) st) (ho : st.closed = false) :
    Sound A t log heard bs bu re (deliver H st p).2 := by
  have hqu := h.queued ho
  unfold Station.deliver
  dsimp only
  split
  · split
    · exact Sound.closeQueue { st with delivered := st.delivered ++ [p] } hqu st.sends st.flowFd st.flowDrained
    · exact hqu.flushOutput
  rename_i hflow
  split
  · split
    · exact hqu.flushOutput
    · exact hqu
  · exact hqu.quiet { Quiet.refl _ with flow := fun _ => ⟨rfl, fun hflow' => absurd hflow' hflow⟩ }

theorem Sound.deliverAll (h : Sound A t log heard bs False rs st) (ho : st.closed = false) :
    Sound A t log heard bs False [] (deliverAll H rs st) := by
  induction rs generalizing st with
  | nil => exact h
  | cons p rs ih =>
    have hnx := h.deliver (H := H) ho
    unfold deliverAll
    rcases deliver_cases (H := H) st p ho with ⟨st', heq, ho', -⟩ | ⟨st', heq, hcl⟩ <;> rw [heq] at hnx ⊢
    · exact ih hnx ho'
    · exact hnx.ofClosed hcl False []

/-! ## Receiving -/

/-- A number that was accepted is acknowledged, and the session stops in front of one that was not. -/
theorem Sound.settle {new : List Bytes} {ss : ReliableSession} (h : Sound A t log heard bs bu [] st)
    (ho : st.closed = false) (hlow : 2 ≤ s) (hmax : s < u64Max) (hacc : st.session.Accepted s)
    (hdrn : st.session.Drains new ss) (hstop : ss.receiveNext ∉ ss.receivedPackets) :
    Sound A t log heard bs False new { st.sendWire (t.sealedPacket A s kindAck []) with session := ss } := by
  have hrcv := hdrn.receiving log (st.delivered ++ []) (h.receiving ho)
  rw [append_nil] at hrcv
  obtain ⟨wires, o, heq, hout⟩ := sendWire_eq st (t.sealedPacket A s kindAck [])
  have hacks : ackNumbers (wires ++ o) = ackNumbers st.out ++ [s] := by
    rw [hout, ackNumbers_append, ackNumbers_singleton, isAck_sealedPacket [] (by decide),
      sequenceOf_sealedPacket [] (lt_of_lt_u64Max hmax)]
    rfl
  have hacked : ∀ k ∈ ackNumbers (wires ++ o), ss.Accepted k := by
    rw [hacks]
    intro k hk
    rw [hdrn.accepted k]
    rcases mem_append.mp hk with hk | hk
    · exact h.acked ho k hk
    · rw [mem_singleton.mp hk]
      exact hacc
  -- the number the session now waits for was not accepted, hence never acknowledged
  have hgap : ss.receiveNext ∉ ackNumbers (wires ++ o) := by
    intro hmem
    rcases hacked _ hmem with hlt | hheld
    · exact absurd hlt (lt_irrefl _)
    · exact hstop hheld
  obtain ⟨packets, next, rfl⟩ := hdrn.changed
  rw [heq]
  exact { h with
    windowed := { h.windowed with }
    packets := by
      show ∀ w ∈ wires ++ o, Packet A t st.accepted w
      rw [hout]
      exact forall_mem_append.mpr ⟨h.packets, forall_mem_singleton.mpr (.ack hlow hmax)⟩
    receiving := fun _ => hrcv
    start := hrcv.start
    acked := fun _ => hacked
    gap := ⟨_, hrcv.start, le_rfl, hgap⟩
    stops := fun _ _ => hstop
    since := { h.since with
      keeps := by
        show ∀ k ∈ ackNumbers bs.out, k ∈ ackNumbers (wires ++ o)
        rw [hacks]
        exact fun k hk => mem_append_left _ (h.since.keeps k hk)
      held := fun _ k hk => (hdrn.accepted k).mpr (h.since.held ho k hk) } }

theorem Sound.acknowledgePacket {s now : Nat} (h : Sound A t log heard bs bu [] st) (ho : st.closed = false)
    (hlow : 2 ≤ s) (hmax : s < u64Max) (hacc : st.session.Accepted s) :
    Sound A t log heard bs False [] (acknowledgePacket H A st t s now) := by
  have hqt : Sound A t log heard bs bu [] { st with lastActivity := now } :=
    h.restamp (.refl _)
  unfold Station.acknowledgePacket
  rw [sealPacket_empty (by omega) (by decide)]
  dsimp only
  obtain ⟨wires, o, heq, -⟩ := sendWire_eq { st with lastActivity := now } (t.sealedPacket A s kindAck [])
  have hsess : (sendWire { st with lastActivity := now } (t.sealedPacket A s kindAck [])).session
      = st.session := by rw [heq]
  have hcl : (sendWire { st with lastActivity := now } (t.sealedPacket A s kindAck [])).closed
      = false := by rw [heq]; exact ho
  rw [hsess]
  split
  · -- what is held in order is delivered
    obtain ⟨hdrn, hstop⟩ := st.session.deliver_spec
    exact Sound.deliverAll _ (hqt.settle ho hlow hmax hacc hdrn hstop) hcl
  -- nothing is held
  rename_i hbuf
  have hstop : st.session.receiveNext ∉ st.session.receivedPackets := by
    intro hmem
    apply hbuf
    obtain ⟨payload, hfd⟩ := mem_iff_find?.mp hmem
    have hsz := size_erase hfd
    exact decide_eq_true (by omega)
  have hset := hqt.settle ho hlow hmax hacc (.self st.session) hstop
  rwa [heq] at hset ⊢

/-- The end when it has taken the number it waits for. -/
abbrev advanced (st : Station) : Station :=
  { st with session := { st.session with receiveNext := st.session.receiveNext + 1 } }

/-- The end when it holds a record out of order. -/
abbrev holding (st : Station) (s : Nat) (payload : Bytes) : Station :=
  { st with session := { st.session with receivedPackets := st.session.receivedPackets.set s payload } }

section

variable (h : Sound A t log heard bs False [] st) (ho : st.closed = false)
include h ho

/-- The session takes a record, or holds it out of order. -/
theorem Sound.take {nx : Nat} {p : Dict Nat Bytes} (hnx : st.session.receiveNext ≤ nx)
    (hkp : ∀ k, st.session.Accepted k →
      ReliableSession.Accepted { st.session with receiveNext := nx, receivedPackets := p } k)
    (hrcv : ReliableSession.Receiving log (st.delivered ++ re)
      { st.session with receiveNext := nx, receivedPackets := p }) : Sound A t log heard bs True re
      { st with session := { st.session with receiveNext := nx, receivedPackets := p } } :=
  { h with
    windowed := { h.windowed with }
    receiving := fun _ => hrcv
    start := h.start.trans hnx
    acked := fun _ k hk => hkp k (h.acked ho k hk)
    gap := by
      obtain ⟨u, hlow, hle, hnot⟩ := h.gap
      exact ⟨u, hlow, hle.trans hnx, hnot⟩
    stops := fun hbusy => absurd trivial hbusy
    since := { h.since with held := fun _ k hk => hkp k (h.since.held ho k hk) } }

theorem Sound.advance (hx : log[st.session.receiveNext - 2]? = some p) :
    Sound A t log heard bs True [p] st.advanced := by
  have hrcv := h.receiving ho
  rw [append_nil] at hrcv
  refine h.take ho (Nat.le_succ _) ?_ (hrcv.next hx)
  intro k hk
  exact hk.imp_left Nat.lt_succ_of_lt

theorem Sound.hold (hlow : 2 ≤ s) (hx : log[s - 2]? = some p) : Sound A t log heard bs True [] (st.holding s p) := by
  refine h.take ho le_rfl ?_ ((h.receiving ho).hold hlow hx)
  intro k hk
  exact hk.imp_right fun hheld => mem_set.mpr (.inr hheld)

end

theorem receiveInOrder_cases (ss : ReliableSession) (s : Nat) : (s = ss.receiveNext ∧
        ss.receiveInOrder s = (true, { ss with receiveNext := ss.receiveNext + 1 })) ∨
      ss.receiveInOrder s = (false, ss) := by
  unfold receiveInOrder
  split
  · rename_i h
    exact .inl ⟨h.1, rfl⟩
  · exact .inr rfl

/-- What an open end does with a packet with data. -/
inductive Received (H : Host) (A : Aead) (t : OCapToken) (st : Station) (s : Nat) (payload : Bytes) (now : Nat) :
    Station → Prop where
  | closed {st' : Station} (hs : s = st.session.receiveNext) (heq : deliver H st.advanced payload = (false, st'))
      (hclosed : st'.closed = true) : Received H A t st s payload now st'
  | next {st' : Station} (hs : s = st.session.receiveNext) (heq : deliver H st.advanced payload = (true, st'))
      (hopen : st'.closed = false) (haccepted : st'.session.Accepted s) :
      Received H A t st s payload now (acknowledgePacket H A st' t s now)
  | refused (hrefused : (st.session.acceptReceive s payload).1 = false) : Received H A t st s payload now st
  | known (haccepted : st.session.Accepted s) : Received H A t st s payload now (acknowledgePacket H A st t s now)
  | held (hfree : s ∉ st.session.receivedPackets) (haccepted : (st.holding s payload).session.Accepted s) :
      Received H A t st s payload now (acknowledgePacket H A (st.holding s payload) t s now)

theorem receiveData_received (s : Nat) (pl : Bytes) (now : Nat) (ho : st.closed = false) :
    Received H A t st s pl now (receiveData H A st t s pl now) := by
  unfold receiveData
  rcases receiveInOrder_cases st.session s with ⟨hs, heq⟩ | heq <;> rw [heq]
  · dsimp only
    rcases deliver_cases (H := H) st.advanced pl ho with
      ⟨st', hdlv, ho', hsess⟩ | ⟨st', hdlv, hcl⟩
    · have hacc : st'.session.Accepted s := by
        rw [hsess, hs]
        exact .inl (Nat.lt_succ_self _)
      rw [hdlv]
      exact .next hs hdlv ho' hacc
    · rw [hdlv]
      exact .closed hs hdlv hcl
  rcases st.session.acceptReceive_cases s pl with ⟨hsm, hacc⟩ | ⟨hfree, -, -, heq⟩
  · cases htk : (st.session.acceptReceive s pl).1 with
    | false =>
      rw [show st.session.acceptReceive s pl = (false, st.session) from Prod.ext htk hsm]
      exact .refused htk
    | true =>
      rw [show st.session.acceptReceive s pl = (true, st.session) from Prod.ext htk hsm]
      exact .known (hacc htk)
  · rw [heq]
    exact .held hfree (.inr (mem_set.mpr (.inl rfl)))

theorem Sound.receiveData {s now : Nat} (h : Sound A t log heard bs False [] st) (ho : st.closed = false)
    (hlow : 2 ≤ s) (hmax : s < u64Max) (hx : log[s - 2]? = some p) :
    Sound A t log heard bs False [] (receiveData H A st t s p now) := by
  have hrcd := receiveData_received (H := H) (A := A) (t := t) s p now ho
  generalize Station.receiveData H A st t s p now = st₁ at hrcd ⊢
  cases hrcd with
  | closed hs heq hcl =>
    subst hs
    have hnx := (h.advance ho hx).deliver (H := H) ho
    rw [heq] at hnx
    exact hnx.ofClosed hcl False []
  | next hs heq ho' hacc =>
    subst hs
    have hnx := (h.advance ho hx).deliver (H := H) ho
    rw [heq] at hnx
    exact hnx.acknowledgePacket ho' hlow hmax hacc
  | refused => exact h
  | known hacc => exact h.acknowledgePacket ho hlow hmax hacc
  | held _ hacc => exact (h.hold ho hlow hx).acknowledgePacket ho hlow hmax hacc

/-! ## What is in the window is accepted -/

theorem session_deliverAll (ho : st.closed = false) :
    (deliverAll H rs st).closed = true ∨ (deliverAll H rs st).session = st.session := by
  induction rs generalizing st with
  | nil => exact .inr rfl
  | cons p rs ih =>
    unfold deliverAll
    rcases deliver_cases (H := H) st p ho with ⟨st', heq, ho', hsess⟩ | ⟨st', heq, hcl⟩ <;> rw [heq]
    · rw [← hsess]
      exact ih ho'
    · exact .inl hcl

/-- An end that acknowledges a packet keeps what it has accepted, unless the application closes it. -/
theorem accepted_acknowledgePacket {s now k : Nat} (ho : st.closed = false) (hs : s ≠ 0)
    (h : st.session.Accepted k) : (acknowledgePacket H A st t s now).closed = true ∨
      (acknowledgePacket H A st t s now).session.Accepted k := by
  unfold acknowledgePacket
  rw [sealPacket_empty hs (by decide)]
  dsimp only
  obtain ⟨wires, o, heq, -⟩ := sendWire_eq { st with lastActivity := now } (t.sealedPacket A s kindAck [])
  rw [heq]
  split
  · refine (session_deliverAll _ (by exact ho)).imp_right ?_
    intro hsess
    rw [hsess]
    exact (st.session.deliver_spec.1.accepted k).mpr h
  · exact .inr h

/-- **An open end accepts every packet of its window.** -/
theorem accepted_receiveData {s now : Nat} (pl : Bytes) (ho : st.closed = false) (hlow : 2 ≤ s)
    (hmax : s < u64Max) (hwind : s < st.session.receiveNext + maxPending) :
    (receiveData H A st t s pl now).closed = true ∨ (receiveData H A st t s pl now).session.Accepted s := by
  have htk := acceptReceive_of_window pl hlow hmax hwind
  have hrcd := receiveData_received (H := H) (A := A) (t := t) s pl now ho
  generalize receiveData H A st t s pl now = st₁ at hrcd ⊢
  cases hrcd with
  | closed _ _ hcl => exact .inl hcl
  | next _ _ ho' hacc => exact accepted_acknowledgePacket ho' (by omega) hacc
  | refused href =>
    rw [htk] at href
    cases href
  | known hacc | held _ hacc => exact accepted_acknowledgePacket ho (by omega) hacc

/-! ## Acknowledgements and other packets -/

section

variable (h : Sound A t log heard bs False [] st) (ho : st.closed = false)
include h ho

variable (now : Nat)

/-- A number that the peer has acknowledged is no longer pending, and the base moves over what is not. -/
theorem Sound.acknowledge (hhd : heard s) :
    Sound A t log heard bs False [] { st with session := (st.session.acknowledge s now).2 } := by
  have hwin := h.windowed.acknowledge now s
  by_cases hpend : s ∈ st.session.sentPackets
  · obtain ⟨srtt, r, heq⟩ := acknowledge_eq now hpend
    rw [heq] at hwin ⊢
    obtain ⟨hbase, hbnd, hnone⟩ := baseLoop_spec (st.session.sentPackets.erase s)
      (st.session.next - st.session.sendBase) st.session.sendBase
    have hset : ∀ k, 2 ≤ k → k < st.session.next → k ∉ st.session.sentPackets.erase s → heard k := by
      intro k hlow hlt hfree
      by_cases hk : k = s
      · rw [hk]
        exact hhd
      · exact h.settled ho k hlow hlt fun hmem => hfree (mem_erase.mpr ⟨hk, hmem⟩)
    exact { h with
      windowed := hwin
      pending := by
        rintro w ⟨k, p, hfd, hwire⟩
        refine h.pending w ⟨k, p, ?_, hwire⟩
        have hfd : (st.session.sentPackets.erase s).find? k = some p := hfd
        rw [find?_erase] at hfd
        split at hfd
        · cases hfd
        · exact hfd
      receiving := fun ho => (h.receiving ho).congr rfl rfl
      below := by
        intro k hlow hlt
        by_cases hk : k < st.session.sendBase
        · exact h.below k hlow hk
        refine hset k hlow ?_ (hnone k (not_lt.mp hk) hlt)
        have hlt : k < baseLoop _ _ _ := hlt
        omega
      settled := fun _ => hset
      since := { h.since with held := fun ho => h.since.held ho } }
  · rw [acknowledge_unknown now hpend]
    exact h

omit ho in
theorem Sound.established (htok : st.token = some t) (now : Nat) : Sound A t log heard bs False []
    { st with stage := 3, session := st.session.connected, lastActivity := now } := by
  have hsm : Sound A t log heard bs False [] { st with session := st.session.connected, lastActivity := now } :=
    h.restamp st.session.connected_restamped
  exact { hsm with keyed := fun _ _ => htok, since := { hsm.since with stage := fun _ => rfl } }

theorem Sound.openedPacket {s k now : Nat} (htok : st.token = some t) (hmax : s < u64Max) (hk : k ≤ 3)
    (hack : k = kindAck → heard s) (hdt : k = kindData → 2 ≤ s ∧ log[s - 2]? = some p) :
    Sound A t log heard bs False [] (openedPacket H A st t (header s k ++ p) now) := by
  unfold Station.openedPacket
  rw [sequenceOf_header (lt_of_lt_u64Max hmax), kindOf_header hk]
  dsimp only
  split
  · -- the client confirms its key: the answer is kept for repetition
    rw [sealPacket_empty (by decide) (by decide)]
    dsimp only
    have hcon : Packet A t st.accepted _ ∧ _ := packet_confirm (k := kindConfirmed) (by decide)
    have hrty : Sound A t log heard bs False [] { st with retry := t.sealedPacket A 1 kindConfirmed [] } :=
      { h with retry := hcon, since := { h.since with } }
    have hsn := hrty.emit hcon
    obtain ⟨wires, o, heq, -⟩ := sendWire_eq { st with retry := t.sealedPacket A 1 kindConfirmed [] }
      (t.sealedPacket A 1 kindConfirmed [])
    rw [heq] at hsn ⊢
    split
    · exact hsn.established htok now
    · exact hsn.restamp (.refl _)
  split
  · exact h.established htok now
  split
  · exact h
  split
  · rename_i hkd
    split
    · have hdone := h.acknowledge ho now (hack hkd)
      generalize st.session.acknowledge s now = r at hdone ⊢
      obtain ⟨known, session⟩ := r
      cases known with
      | true => exact hdone.restamp (.refl _)
      | false => exact hdone
    · exact h
  split
  · exact h
  rename_i hkd
  obtain ⟨hlow, hx⟩ := hdt (not_not.mp hkd)
  exact h.receiveData ho hlow hmax hx

/-- **What an open end hears from its peer leaves it sound.** -/
theorem Sound.encrypted {now : Nat} (hfin : ∀ d u, H.finish d = some u → u = t) (hw : Packet A t.peer log w)
    (hack : isAck w = true → heard (sequenceOf w)) : Sound A t log heard bs False [] (encrypted H A st w now) := by
  unfold Station.encrypted
  split
  · split
    · exact h
    split
    · exact h
    rename_i u hu
    have hu : u = t := hfin w u hu
    subst hu
    have hcon : Packet A u st.accepted _ ∧ _ := packet_confirm (k := kindConfirm) (by decide)
    have hkeyed : Sound A u log heard bs False []
        { st with token := some u, retry := u.sealedPacket A 1 kindConfirm [], stage := 2 } :=
      { h with
        retry := hcon
        token := by rintro v ⟨⟩; rfl
        keyed := fun _ _ => rfl
        since := { h.since with stage := fun hbase => absurd (h.since.stage hbase) (by omega) } }
    exact hkeyed.emit hcon
  split
  · split
    · exact h.emit h.retry
    · exact h
  split
  · exact h
  rename_i u hu
  have htok := h.token u hu
  subst htok
  -- a packet of the peer opens to what was sealed
  cases hw with
  | raw hraw =>
    rw [openPacket_raw hraw]
    exact h
  | @confirm k hk =>
    rw [openPacket_confirm hk]
    exact h.openedPacket ho hu (by decide) (by omega)
      (fun hk' => by unfold kindAck at hk'; omega) (fun hk' => by unfold kindData at hk'; omega)
  | @data s p hlow hmax hp hsz =>
    rw [openPacket_data hlow hmax hsz]
    exact h.openedPacket ho hu hmax (by decide) nofun fun _ => ⟨hlow, hp⟩
  | @ack s hlow hmax =>
    rw [openPacket_ack hlow hmax]
    refine h.openedPacket ho hu hmax (by decide) (fun _ => ?_) nofun
    have hhd := hack (by rw [isAck_sealedPacket [] (by decide)]; rfl)
    rwa [sequenceOf_sealedPacket [] (lt_of_lt_u64Max hmax)] at hhd

/-- The window at the point where a packet arrives: an end that is set up accepts a packet of its peer, unless it is
    an agent and the packet has the size of a hello. -/
theorem Sound.accepted_encrypted {s now : Nat} (hstg : st.stage = 3) (hlow : 2 ≤ s) (hmax : s < u64Max)
    (hwind : s < st.session.receiveNext + maxPending) (hsz : p.length ≤ 1172)
    (hhello : st.client = true ∨ p.length ≠ 112) :
    (Station.encrypted H A st (t.peer.sealedPacket A s kindData p) now).closed = true ∨
      (Station.encrypted H A st (t.peer.sealedPacket A s kindData p) now).session.Accepted s := by
  have htok := h.keyed ho (by omega)
  have hlen : ¬ (¬ st.client = true ∧ (t.peer.sealedPacket A s kindData p).length = 140) := by
    rw [length_sealedPacket]
    rintro ⟨hagt, hsm⟩
    rcases hhello with hcli | hne
    · exact hagt hcli
    · omega
  unfold Station.encrypted
  rw [if_neg (by omega), if_neg hlen, htok]
  dsimp only
  rw [openPacket_data hlow hmax hsz]
  dsimp only
  unfold Station.openedPacket
  rw [sequenceOf_header (lt_of_lt_u64Max hmax), kindOf_header (by decide), drop_header]
  rw [if_neg (by omega), if_neg (by omega), if_neg (by omega), if_neg (by decide), if_neg (by decide)]
  exact accepted_receiveData p ho hlow hmax hwind

/-! ## Sending -/

theorem Sound.submit {data : Bytes} {now : Nat} (hsend : st.session.canSend = true) (hsz : data.length ≤ 1172) :
    Sound A t log heard bs False [] (submit A st data now).2 := by
  unfold Station.submit
  split
  · rename_i u sequence session htok hnx
    unfold nextSequence at hnx
    rw [if_pos hsend] at hnx
    cases hnx
    have hu := h.token u htok
    subst hu
    obtain ⟨-, hmax, -⟩ := h.windowed.canSend hsend
    have hcoun := h.counted
    rw [sealPacket_payload hsz (by omega) (by decide)]
    dsimp only
    -- the number of the packet is the place of the record in what was accepted
    have hplc : (st.accepted ++ [data])[st.session.next - 2]? = some data := by
      rw [hcoun]
      simp
    have hpkt : Packet A u (st.accepted ++ [data]) (u.sealedPacket A st.session.next kindData data) ∧
        isAck (u.sealedPacket A st.session.next kindData data) = false :=
      ⟨.data (by omega) hmax hplc hsz, by rw [isAck_sealedPacket data (by decide)]; decide⟩
    have hkept : Sound A u log heard bs False [] { st with
        session := ({ st.session with next := st.session.next + 1 } : ReliableSession).sent st.session.next
          (u.sealedPacket A st.session.next kindData data) now
        accepted := st.accepted ++ [data] } :=
      { h with
        windowed := h.windowed.send now hsend _
        counted := by
          rw [length_append, hcoun]
          rfl
        pending := by
          rintro w ⟨k, p, hfd, rfl⟩
          have hfd : (st.session.sentPackets.set st.session.next _).find? k = some p := hfd
          rcases find?_set_cases hfd with ⟨-, rfl⟩ | ⟨-, hfd⟩
          · exact hpkt
          · obtain ⟨hold, hnot⟩ := h.pending p.wire ⟨k, p, hfd, rfl⟩
            exact ⟨hold.more [data], hnot⟩
        packets := fun w hw => (h.packets w hw).more [data]
        retry := ⟨h.retry.1.more [data], h.retry.2⟩
        receiving := fun ho => (h.receiving ho).congr rfl rfl
        settled := by
          intro _ s hlow hs hpend
          have hs : s < st.session.next + 1 := hs
          have hnot : s ∉ st.session.sentPackets.set st.session.next _ := hpend
          rw [Dict.mem_set, not_or] at hnot
          exact h.settled ho s hlow (by omega) hnot.2
        sized := forall_mem_append.mpr ⟨h.sized, forall_mem_singleton.mpr hsz⟩
        since := { h.since with accepts := h.since.accepts.trans (prefix_append _ _) } }
    exact (hkept.emit hpkt).restamp (.refl _)
  · exact h

theorem Sound.plaintext {dt : Bytes} {sd : NetAddress} {now : Nat} :
    Sound A t log heard bs False [] (plaintext A st dt sd now) := by
  unfold Station.plaintext
  split
  · exact h
  rename_i hnot
  obtain ⟨-, hsz, hsend⟩ := by simpa only [not_or, not_not, not_lt] using hnot
  split
  · split
    · exact h
    · exact h.submit ho hsend hsz
  have hloc : Sound A t log heard bs False [] { st with localAddress := some sd } :=
    h.restamp (.refl _)
  exact hloc.submit ho hsend hsz

omit h ho in
theorem closed_submit (st : Station) (dt : Bytes) (now : Nat) : (submit A st dt now).2.closed = st.closed := by
  unfold submit
  split
  · split
    · rfl
    dsimp only
    obtain ⟨wires, o, heq, -⟩ := sendWire_eq { st with
      session := _, accepted := st.accepted ++ [dt] } _
    rw [heq]
  · rfl

theorem Sound.sendFlowMessage (dt : Bytes) (now : Nat) :
    Sound A t log heard bs False [] (sendFlowMessage A st dt now).2 ∧
      (sendFlowMessage A st dt now).2.closed = false := by
  unfold Station.sendFlowMessage
  split
  · exact ⟨h, ho⟩
  rename_i hnot
  obtain ⟨-, hsz, hsend⟩ := by simpa only [not_or, not_not, not_lt] using hnot
  exact ⟨h.submit ho hsend hsz, (closed_submit st dt now).trans ho⟩

theorem Sound.readFlowLoop (n : Nat) : Sound A t log heard bs False [] (readFlowLoop H A now n st).2 := by
  induction n generalizing st with
  | zero => exact h
  | succ n ih =>
    have hrd : Sound A t log heard bs False [] { st with recvs := st.recvs + 1 } :=
      h.restamp (.refl _)
    unfold readFlowLoop
    split
    · exact h
    dsimp only
    split
    · exact hrd
    split
    · exact hrd.restamp (.refl _)
    split
    · exact ih hrd ho
    split
    · exact hrd.close
    split
    · rename_i data _ _
      obtain ⟨hsn, hstill⟩ := hrd.sendFlowMessage ho data now
      generalize Station.sendFlowMessage A { st with recvs := st.recvs + 1 } data now = r
        at hsn hstill ⊢
      obtain ⟨ok, st'⟩ := r
      cases ok with
      | true => exact ih hsn hstill
      | false => exact hsn
    · exact hrd

theorem Sound.readFlow : Sound A t log heard bs False [] (readFlow H A st now).2 := by
  unfold Station.readFlow
  split
  · exact h
  · exact h.readFlowLoop ho now 16

/-! ## The behaviours -/

omit ho

/-- A packet that goes to the network at once. -/
theorem Sound.sendNow :
    Sound A t log heard bs False [] { st with wires := st.wires ++ [st.retry], handshakeSent := now } := by
  have hmade : Sound A t log heard bs False [] { st with wires := st.wires ++ [st.retry], networkOutput := st.networkOutput } := by
    refine h.made h.retry ?_
    rw [append_assoc]
    exact perm_middle
  exact hmade.restamp (.refl _)

theorem Sound.bound : Sound A t log heard bs False [] (bound st now) := by
  unfold Station.bound
  split
  · exact h
  · exact h.sendNow now

theorem Sound.receive {dt : Bytes} {sd : NetAddress} {app : Bool}
    (hfin : ∀ d u, H.finish d = some u → u = t)
    (hw : app = false → Packet A t.peer log dt ∧ (isAck dt = true → heard (sequenceOf dt))) :
    Sound A t log heard bs False [] (receive H A st dt sd app now) := by
  unfold Station.receive
  split
  · exact h
  rename_i ho
  have ho : st.closed = false := by simpa using ho
  cases app with
  | true => exact h.plaintext ho
  | false =>
    obtain ⟨hpkt, hack⟩ := hw rfl
    simp only [Bool.false_eq_true, if_false]
    split
    · exact h.encrypted ho hfin hpkt hack
    · exact h

/-- **A batch of datagrams leaves an end sound**, from the application or from the network. -/
theorem Sound.receivedBatch {bt : List (Bytes × NetAddress)} {app : Bool}
    (hfin : ∀ d u, H.finish d = some u → u = t) (hw : app = false →
      ∀ d ∈ bt, Packet A t.peer log d.1 ∧ (isAck d.1 = true → heard (sequenceOf d.1))) :
    Sound A t log heard bs False [] (receivedBatch H A st bt app now) := by
  refine Sound.flushOutput ?_
  induction bt generalizing st with
  | nil => exact h
  | cons d bt ih =>
    refine ih (h.receive now hfin fun hnet => hw hnet d mem_cons_self) ?_
    intro hnet d' hd'
    exact hw hnet d' (mem_cons_of_mem d hd')

theorem Sound.sendAll (due : List Bytes) (hdue : ∀ w ∈ due, Packet A t st.accepted w ∧ isAck w = false) :
    Sound A t log heard bs False [] (due.foldl sendWire st) := by
  induction due generalizing st with
  | nil => exact h
  | cons w due ih =>
    refine ih (h.emit (hdue w mem_cons_self)) ?_
    obtain ⟨wires, o, heq, -⟩ := sendWire_eq st w
    rw [heq]
    intro w' hw'
    exact hdue w' (mem_cons_of_mem w hw')

omit h in
theorem closed_sendAll (due : List Bytes) (st : Station) : (due.foldl sendWire st).closed = st.closed := by
  induction due generalizing st with
  | nil => rfl
  | cons w due ih =>
    obtain ⟨wires, o, heq, -⟩ := sendWire_eq st w
    rw [foldl_cons, ih, heq]

/-- **A tick leaves an end sound**: what it sends again is pending. -/
theorem Sound.tick (o : List Nat) : Sound A t log heard bs False [] (tick H A st now o) := by
  unfold Station.tick
  split
  · exact h
  rename_i hrun
  have ho : st.closed = false := by
    by_contra hcl
    exact hrun (.inl (by simpa using hcl))
  split
  · split
    · exact h.close
    split
    · exact h.sendNow now
    · exact h
  split
  · exact h.close
  obtain ⟨hsmp, hdue⟩ := st.session.retransmit_spec now o
  generalize st.session.retransmit now o = r at hsmp hdue ⊢
  obtain ⟨due, session⟩ := r
  have hqt : Sound A t log heard bs False [] { st with session := session } :=
    h.restamp hsmp
  cases due with
  | none => exact hqt.close
  | some due =>
    have hflus : Sound A t log heard bs False []
        (Station.flushOutput H (due.foldl sendWire { st with session := session })) :=
      (hqt.sendAll due fun w hw => h.pending w (hdue due rfl w hw)).flushOutput
    have hflow := flushOutput_cases (H := H) _ ((closed_sendAll due { st with session := session }).trans ho)
    dsimp only
    generalize Station.flushOutput H (due.foldl sendWire { st with session := session }) = st'
      at hflus hflow ⊢
    -- a session that the flush has closed reads nothing
    have hrd : Sound A t log heard bs False [] (Station.readFlow H A st' now).2 := by
      rcases hflow with ⟨ho', -⟩ | ⟨-, -, hdown⟩
      · exact hflus.readFlow ho' now
      unfold Station.readFlow
      rw [if_pos (.inl hdown)]
      exact hflus
    generalize Station.readFlow H A st' now = r at hrd ⊢
    obtain ⟨ok, st''⟩ := r
    cases ok with
    | false => exact hrd.close
    | true =>
      dsimp only
      split
      · exact Sound.closeQueue st'' hrd st''.sends (-1) true
      · exact hrd

end

end Station

end Shadow6.CorePony
