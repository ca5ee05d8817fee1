import Shadow6.CorePony.Transport

/-!
# `CorePony.Flow` — datagrams for an inherited application flow

A client that was started with a flow hands every record it delivers to the flow's socket. Records that the socket
does not take at once wait in `_app_output`; the actor gives up when 256 of them wait, or when the socket refuses one
for another reason than being full, and `s6_app_flow_send` refuses a record without bytes.

The waiting records and those the session holds out of order draw on one budget of 256, and a packet of the peer
takes at most one unit of it (`Ready`): either its record is next and joins the queue, or it is held.
-/

namespace Shadow6.CorePony

open Library OCapToken List Station

/-- The socket of the flow takes a whole record or would block. -/
def Host.Whole (H : Host) : Prop := ∀ i data, H.send i data = .sent data.length ∨ H.send i data = .again

/-- The socket of the flow takes every record. -/
def Host.Takes (H : Host) : Prop := ∀ i data, H.send i data = .sent data.length

/-- Records that a flow can take. -/
def Fit (log : List Bytes) : Prop := ∀ p ∈ log, p ≠ [] ∧ p.length ≤ 1172

theorem s6AppFlowSend_sent {fd : Int} {dt : Bytes} (hfd : 0 ≤ fd) (hdt : dt ≠ [] ∧ dt.length ≤ 1172) :
    s6AppFlowSend fd dt (.sent dt.length) = 1 := by
  have hpos := length_pos_iff.mpr hdt.1
  unfold s6AppFlowSend
  rw [if_neg (by omega)]
  exact if_pos rfl

theorem s6AppFlowSend_again {fd : Int} {dt : Bytes} (hfd : 0 ≤ fd) (hdt : dt ≠ [] ∧ dt.length ≤ 1172) :
    s6AppFlowSend fd dt .again = 0 := by
  have hpos := length_pos_iff.mpr hdt.1
  unfold s6AppFlowSend
  rw [if_neg (by omega)]

namespace Station

variable {A : Aead} {t : OCapToken} {log r : List Bytes} {heard : Nat → Prop} {bs st st' : Station}
  {bu : Prop} {H : Host} {n : Nat}

/-! ## The budget -/

/-- An open end with a flow: what waits for the flow, what is held out of order, what is about to be delivered and
    `n` further packets fit together. -/
structure Ready (n : Nat) (rest : List Bytes) (st : Station) : Prop where
  opened : st.closed = false
  attached : st.flowAttached = true
  fd : 0 ≤ st.flowFd
  room : st.appOutput.length + st.session.receivedPackets.size + rest.length + n ≤ 256

theorem Ready.less (h : Ready (n + 1) r st) : Ready n r st :=
  { h with room := by have := h.room; omega }

theorem Ready.sendWire (h : Ready n r st) (w : Bytes) : Ready n r (st.sendWire w) := by
  obtain ⟨wires, o, heq, -⟩ := sendWire_eq st w
  rw [heq]
  exact { h with }

section

variable (hwhole : H.Whole)
include hwhole

/-- What a flush of the flow leaves, if the records fit and the socket does not fail. -/
theorem flushFlow_spec (rs : List Bytes) (hfit : Fit rs) (st : Station) (hopen : st.closed = false)
    (hfd : 0 ≤ st.flowFd) (hnil : st.appOutput = []) :
    (flushFlow H rs st).closed = false ∧ (flushFlow H rs st).flowFd = st.flowFd ∧
      (flushFlow H rs st).flowAttached = st.flowAttached ∧ (flushFlow H rs st).session = st.session ∧
      (flushFlow H rs st).appOutput.length ≤ rs.length ∧
      (H.Takes → (flushFlow H rs st).appOutput = []) := by
  induction rs generalizing st with
  | nil =>
    refine ⟨hopen, rfl, rfl, rfl, ?_, fun _ => hnil⟩
    show st.appOutput.length ≤ 0
    rw [hnil]
    exact le_rfl
  | cons payload rs ih =>
    have hpay := hfit payload mem_cons_self
    unfold flushFlow
    rcases hwhole st.sends payload with hsn | hag
    · rw [hsn, s6AppFlowSend_sent hfd hpay, if_neg (by decide), if_neg (by decide)]
      obtain ⟨hopen', hfd', hatt, hsess, hlen, htks⟩ :=
        ih (fun p hp => hfit p (mem_cons_of_mem _ hp))
          { st with handed := st.handed ++ [payload], sends := st.sends + 1 } hopen hfd hnil
      exact ⟨hopen', hfd', hatt, hsess, Nat.le_succ_of_le hlen, htks⟩
    rw [hag, s6AppFlowSend_again hfd hpay, if_pos rfl]
    refine ⟨hopen, rfl, rfl, rfl, le_rfl, ?_⟩
    intro htks
    rw [htks st.sends payload] at hag
    cases hag

section

variable (hfit : Fit log)
include hfit

omit hwhole in
/-- What waits for the flow was numbered by the peer. -/
theorem Sound.fit (h : Sound A t log heard bs bu r st) (hopen : st.closed = false)
    (hatt : st.flowAttached = true) : Fit st.appOutput := by
  intro p hp
  refine hfit p (h.front.subset ?_)
  rw [← h.flowed hopen hatt]
  exact mem_append_right _ hp

theorem flushOutput_spec (h : Sound A t log heard bs bu r st) {r' : List Bytes} (hrdy : Ready n r' st) :
    Ready n r' (flushOutput H st) ∧ (flushOutput H st).session = st.session ∧
      (H.Takes → (flushOutput H st).appOutput = []) := by
  have hrecs := h.fit hfit hrdy.opened hrdy.attached
  unfold flushOutput
  dsimp only
  split
  · rename_i hnil
    exact ⟨{ hrdy with }, rfl, fun _ => hnil⟩
  rw [if_pos (show st.flushNetwork.flowAttached = true from hrdy.attached)]
  obtain ⟨hopen, hfd, hatt, hsess, hlen, htks⟩ := flushFlow_spec hwhole st.appOutput hrecs
    { st.flushNetwork with appOutput := [] } hrdy.opened hrdy.fd rfl
  have hpks := le_of_eq (congrArg (fun s => s.receivedPackets.size) hsess)
  refine ⟨⟨hopen, hatt.trans hrdy.attached, le_of_le_of_eq hrdy.fd hfd.symm, ?_⟩, hsess, htks⟩
  exact le_trans (Nat.add_le_add_right (Nat.add_le_add_right (Nat.add_le_add hlen hpks) _) _) hrdy.room

/-! ## Receiving with a flow -/

/-- A record that is about to be delivered joins the queue, and the flow is tried. -/
theorem Ready.deliver {pl : Bytes} (h : Sound A t log heard bs bu (pl :: r) st)
    (hrdy : Ready n (pl :: r) st) : Ready n r (deliver H st pl).2 := by
  have hroom := hrdy.room
  rw [length_cons] at hroom
  unfold Station.deliver
  dsimp only
  rw [if_pos hrdy.attached, if_neg (by omega)]
  have hqu := h.queued hrdy.opened
  have hqd : Ready n r
      { st with delivered := st.delivered ++ [pl], appOutput := st.appOutput ++ [pl] } := by
    refine { hrdy with room := ?_ }
    show (st.appOutput ++ [pl]).length + st.session.receivedPackets.size + r.length + n ≤ 256
    rw [length_append, length_singleton]
    omega
  exact (flushOutput_spec hwhole hfit hqu hqd).1

theorem Ready.deliverAll (rs : List Bytes) (h : Sound A t log heard bs False rs st)
    (hrdy : Ready n rs st) : Ready n [] (deliverAll H rs st) := by
  induction rs generalizing st with
  | nil => exact hrdy
  | cons payload rs ih =>
    have hnx := h.deliver (H := H) hrdy.opened
    have hrdy' := hrdy.deliver hwhole hfit h
    unfold deliverAll
    rcases deliver_cases (H := H) st payload hrdy.opened with ⟨st', heq, -, -⟩ | ⟨st', heq, hcl⟩ <;>
      rw [heq] at hrdy'
    · rw [heq] at hnx ⊢
      exact ih hnx hrdy'
    · exact absurd (hcl.symm.trans hrdy'.opened) (by decide)

theorem Ready.acknowledgePacket {s now : Nat} (h : Sound A t log heard bs bu [] st) (hrdy : Ready n [] st)
    (hlow : 2 ≤ s) (hmax : s < u64Max) (hacc : st.session.Accepted s) :
    Ready n [] (acknowledgePacket H A st t s now) := by
  have hqt : Sound A t log heard bs bu [] { st with lastActivity := now } :=
    h.restamp (.refl _)
  have hact : Ready n [] { st with lastActivity := now } := { hrdy with }
  unfold Station.acknowledgePacket
  rw [sealPacket_empty (by omega) (by decide)]
  dsimp only
  split
  · obtain ⟨hdrn, hstop⟩ := st.session.deliver_spec
    have hset := hqt.settle hrdy.opened hlow hmax hacc hdrn hstop
    obtain ⟨wires, o, heq, -⟩ := sendWire_eq { st with lastActivity := now } (t.sealedPacket A s kindAck [])
    rw [heq] at hset ⊢
    refine Ready.deliverAll hwhole hfit _ hset { hrdy with room := ?_ }
    -- what leaves the map is about to be delivered
    have hsz := hdrn.size
    have hroom := hrdy.room
    show st.appOutput.length + st.session.deliver.2.receivedPackets.size + st.session.deliver.1.length + n ≤ 256
    omega
  · exact hact.sendWire _

/-- A packet with data takes one unit of the budget. -/
theorem Ready.receiveData {s now : Nat} {pl : Bytes} (h : Sound A t log heard bs False [] st)
    (hrdy : Ready (n + 1) [] st) (hlow : 2 ≤ s) (hmax : s < u64Max) (hx : log[s - 2]? = some pl) :
    Ready n [] (receiveData H A st t s pl now) := by
  have hroom := hrdy.room
  have hdel : s = st.session.receiveNext → Sound A t log heard bs True [] (Station.deliver H st.advanced pl).2 ∧
        Ready n [] (Station.deliver H st.advanced pl).2 := by
    rintro rfl
    have hadv := h.advance hrdy.opened hx
    refine ⟨hadv.deliver hrdy.opened, ?_⟩
    refine Ready.deliver hwhole hfit hadv { hrdy with room := ?_ }
    show st.appOutput.length + st.session.receivedPackets.size + [pl].length + n ≤ 256
    rw [length_singleton]
    omega
  have hrcd := receiveData_received (H := H) (A := A) (t := t) s pl now hrdy.opened
  generalize Station.receiveData H A st t s pl now = st₁ at hrcd ⊢
  cases hrcd with
  | closed hs heq hcl =>
    obtain ⟨-, hrdy'⟩ := hdel hs
    rw [heq] at hrdy'
    exact absurd (hcl.symm.trans hrdy'.opened) (by decide)
  | next hs heq _ hacc =>
    obtain ⟨hnx, hrdy'⟩ := hdel hs
    rw [heq] at hnx hrdy'
    exact hrdy'.acknowledgePacket hwhole hfit hnx hlow hmax hacc
  | refused => exact hrdy.less
  | known hacc => exact hrdy.less.acknowledgePacket hwhole hfit h hlow hmax hacc
  | held hfree hacc =>
    have hsz : (st.session.receivedPackets.set s pl).size = st.session.receivedPackets.size + 1 :=
      Dict.size_set_absent (Dict.not_mem_iff_find?.mp hfree)
    refine Ready.acknowledgePacket hwhole hfit (h.hold hrdy.opened hlow hx)
      { hrdy with room := ?_ } hlow hmax hacc
    show st.appOutput.length + (st.session.receivedPackets.set s pl).size + _ + n ≤ 256
    omega

/-- Every packet of the peer takes at most one unit. -/
theorem Ready.openedPacket {s k now : Nat} {pl : Bytes} (h : Sound A t log heard bs False [] st)
    (hrdy : Ready (n + 1) [] st) (hmax : s < u64Max) (hk : k ≤ 3)
    (hdt : k = kindData → 2 ≤ s ∧ log[s - 2]? = some pl) :
    Ready n [] (openedPacket H A st t (header s k ++ pl) now) := by
  unfold Station.openedPacket
  rw [sequenceOf_header (lt_of_lt_u64Max hmax), kindOf_header hk]
  dsimp only
  split
  · rw [sealPacket_empty (by decide) (by decide)]
    dsimp only
    obtain ⟨wires, o, heq, -⟩ := sendWire_eq { st with retry := t.sealedPacket A 1 kindConfirmed [] }
      (t.sealedPacket A 1 kindConfirmed [])
    rw [heq]
    split
    · exact { hrdy.less with }
    · exact { hrdy.less with }
  split
  · exact { hrdy.less with }
  split
  · exact hrdy.less
  split
  · split
    · have hpks : (st.session.acknowledge s now).2.receivedPackets = st.session.receivedPackets := by
        by_cases hpend : s ∈ st.session.sentPackets
        · obtain ⟨srtt, rt, heq⟩ := ReliableSession.acknowledge_eq now hpend
          rw [heq]
        · rw [ReliableSession.acknowledge_unknown now hpend]
      generalize st.session.acknowledge s now = r at hpks ⊢
      obtain ⟨known, session⟩ := r
      cases known with
      | true | false => exact { hrdy.less with room := hpks ▸ hrdy.less.room }
    · exact hrdy.less
  split
  · exact hrdy.less
  rename_i hkd
  obtain ⟨hlow, hx⟩ := hdt (not_not.mp hkd)
  exact hrdy.receiveData hwhole hfit h hlow hmax hx

theorem Ready.encrypted {w : Bytes} {now : Nat} (h : Sound A t log heard bs False [] st)
    (hrdy : Ready (n + 1) [] st) (hw : Packet A t.peer log w) : Ready n [] (encrypted H A st w now) := by
  unfold Station.encrypted
  split
  · split
    · exact hrdy.less
    split
    · exact hrdy.less
    rename_i u _
    have hkeyed : Ready n []
        { st with token := some u, retry := u.sealedPacket A 1 kindConfirm [], stage := 2 } :=
      { hrdy.less with }
    exact hkeyed.sendWire _
  split
  · split
    · exact hrdy.less.sendWire _
    · exact hrdy.less
  split
  · exact hrdy.less
  rename_i u hu
  have htok := h.token u hu
  subst htok
  cases hw with
  | raw hraw =>
    rw [openPacket_raw hraw]
    exact hrdy.less
  | @confirm k hk =>
    rw [openPacket_confirm hk]
    exact hrdy.openedPacket hwhole hfit h (by decide) (by omega) (fun hk' => by unfold kindData at hk'; omega)
  | @data s p hlow hmax hp hsz =>
    rw [openPacket_data hlow hmax hsz]
    exact hrdy.openedPacket hwhole hfit h hmax (by decide) fun _ => ⟨hlow, hp⟩
  | @ack s hlow hmax =>
    rw [openPacket_ack hlow hmax]
    exact hrdy.openedPacket hwhole hfit h hmax (by decide) nofun

/-- **A batch of packets of the peer takes one unit for each, and every number in it is accepted.** The base of the
    peer is behind numbers that this end has acknowledged, which keeps its packets in the window. -/
theorem Ready.batch {b : Nat} {bt : List (Bytes × NetAddress)} (now : Nat)
    (hfin : ∀ d u, H.finish d = some u → u = t) (h : Sound A t log heard st False [] st)
    (hrdy : Ready bt.length [] st) (hbl : ∀ k, 2 ≤ k → k < b → k ∈ ackNumbers st.out)
    (hbatch : ∀ d ∈ bt, d.2 = st.peer ∧ Packet A t.peer log d.1 ∧ (isAck d.1 = true → heard (sequenceOf d.1))) :
    Ready 0 [] (bt.foldl (fun st d => receive H A st d.1 d.2 false now) st) ∧
      Sound A t log heard (bt.foldl (fun st d => receive H A st d.1 d.2 false now) st) False []
        (bt.foldl (fun st d => receive H A st d.1 d.2 false now) st) ∧ (∀ s, st.session.Accepted s →
        (bt.foldl (fun st d => receive H A st d.1 d.2 false now) st).session.Accepted s) ∧
      (st.stage = 3 → st.client = true → ∀ d ∈ bt, ∀ s p, d.1 = t.peer.sealedPacket A s kindData p → 2 ≤ s →
        s < u64Max → s < b + maxPending → p.length ≤ 1172 →
        (bt.foldl (fun st d => receive H A st d.1 d.2 false now) st).session.Accepted s) := by
  induction bt generalizing st with
  | nil => exact ⟨hrdy, h, fun _ hs => hs, fun _ _ d hd => absurd hd not_mem_nil⟩
  | cons d bt ih =>
    obtain ⟨hsen, hpkt, hack⟩ := hbatch d mem_cons_self
    have hrec : receive H A st d.1 d.2 false now = Station.encrypted H A st d.1 now := by
      unfold receive
      rw [if_neg (by simp [hrdy.opened]), if_neg (by decide), if_pos hsen]
    have hnx : Sound A t log heard st False [] (Station.encrypted H A st d.1 now) :=
      h.encrypted hrdy.opened hfin hpkt hack
    have hrdy' : Ready bt.length [] (Station.encrypted H A st d.1 now) :=
      hrdy.encrypted hwhole hfit h hpkt
    have hbase : b ≤ st.session.receiveNext := by
      obtain ⟨u, hlow, hle, hnot⟩ := h.gap
      by_contra hlt
      exact hnot (hbl u hlow (by omega))
    obtain ⟨hend, hsd, hheld, hacc⟩ := ih hnx.rebase hrdy' (fun k hlow hk => hnx.since.keeps k (hbl k hlow hk))
      (fun d' hd' => by
        rw [hnx.since.peer]
        exact hbatch d' (mem_cons_of_mem _ hd'))
    rw [foldl_cons, hrec]
    refine ⟨hend, hsd, fun s hs => hheld s (hnx.since.held hrdy'.opened s hs), ?_⟩
    intro hstg hcli d' hd' s p hp hlow hmax hwin hsz
    rcases mem_cons.mp hd' with rfl | hd'
    · -- accepted here, and held from here on
      have hhere : (Station.encrypted H A st d'.1 now).closed = true ∨
          (Station.encrypted H A st d'.1 now).session.Accepted s := by
        rw [hp]
        exact h.accepted_encrypted hrdy.opened hstg hlow hmax (by omega) hsz (.inl hcli)
      have hhere := hhere.resolve_left (by simp [hrdy'.opened])
      exact hheld s hhere
    · exact hacc (hnx.since.stage hstg) (hnx.since.client.trans hcli) d' hd' s p hp hlow hmax
        hwin hsz

end

end

end Station

namespace Pair

variable {P : Pair}

/-! ## A client with a flow -/

/-- The client keeps its role, and its flow as long as it is open. -/
structure Carrying (P : Pair) (st : Station) : Prop where
  client : st.client = true
  attached : st.flowAttached = decide (0 ≤ P.flowFd)
  fd : st.closed = false → st.flowFd = P.flowFd

theorem Carrying.after (P : Pair) (run : List (End × Event)) : P.Carrying (P.after run .client) := by
  have hboth : P.Joined (P.after run) ∧ P.Carrying (P.after run .client) := by
    refine foldl_invariant (I := fun x => P.Joined x ∧ P.Carrying (x .client)) ?_ ⟨Joined.init, rfl, rfl, fun _ => rfl⟩ run
    rintro x ⟨e, v⟩ ⟨hjoin, hcarry⟩
    refine ⟨hjoin.step _, ?_⟩
    cases e with
    | agent => exact hcarry
    | client =>
      have hsince := (hjoin.react .client v).since
      exact ⟨hsince.client.trans hcarry.client, hsince.attached.trans hcarry.attached,
        fun hopen => (hsince.fd hopen).trans (hcarry.fd (hsince.opened hopen))⟩
  exact hboth.2

/-- What the flow of a client gets after packets have arrived. -/
structure Reaches (P : Pair) (arrived : List Bytes) (agent before client : Station) : Prop where
  /-- Neither the session nor the flow is closed. -/
  opened : client.closed = false ∧ client.flowFd = P.flowFd
  /-- A packet with data that has arrived at a client that is set up is accepted. -/
  accepted : before.stage = 3 → ∀ w ∈ arrived, isData w = true → client.session.Accepted (sequenceOf w)
  /-- The datagrams up to the one the session waits for, in order, were handed to the flow or wait for it. -/
  handed : client.handed ++ client.appOutput = agent.accepted.take (client.session.receiveNext - 2)
  /-- A flow that takes every record has all of them. -/
  taken : (P.host .client).Takes → client.appOutput = []

theorem length_arriving (ws : List Bytes) (sd : NetAddress) (ar : List Nat) :
    (arriving ws sd ar).length ≤ ar.length := by
  unfold arriving
  rw [length_map]
  exact (length_filter_le _ _).trans (length_filterMap_le _ _)

/-- **Datagrams reach the flow.** Packets arrive at an open client with a flow whose socket takes whole records or
    would block. If no datagram that the agent has accepted is empty, and what waits for the flow and what is held out
    of order leaves room for the packets, then session and flow stay open and the datagrams go to the flow. -/
theorem datagrams_reach_flow (P : Pair) (run : List (End × Event)) (arrivals : List Nat) (now : Nat)
    (hflow : 0 ≤ P.flowFd) (hwhole : (P.host .client).Whole) (hopen : (P.after run .client).closed = false)
    (hnonempty : ∀ p ∈ (P.after run .agent).accepted, p ≠ [])
    (hroom : (P.after run .client).appOutput.length + (P.after run .client).session.receivedPackets.size
      + arrivals.length ≤ 256) :
    P.Reaches (arrivals.filterMap ((P.after run .agent).wires[·]?)) (P.after run .agent) (P.after run .client)
      (P.step (P.after run) (.client, .network arrivals now) .client) := by
  have hjoined := Joined.after P run
  have hcarry := Carrying.after P run
  have hcarry' : P.Carrying (P.step (P.after run) (.client, .network arrivals now) .client) := by
    have hafter := Carrying.after P (run ++ [(.client, .network arrivals now)])
    unfold Pair.after at hafter
    rwa [foldl_append] at hafter
  generalize P.after run = x at *
  have hsound : P.Towards x .client (x .client) (x .client) := hjoined .client
  have hfit : Fit (x .agent).accepted := fun p hp => ⟨hnonempty p hp, (hjoined .agent).sized p hp⟩
  have hready : Station.Ready (arriving (x .agent).wires (x .client).peer arrivals).length [] (x .client) := by
    have hlength := length_arriving (x .agent).wires (x .client).peer arrivals
    refine ⟨hopen, hcarry.attached.trans (decide_eq_true hflow), ?_, ?_⟩
    · rw [hcarry.fd hopen]
      exact hflow
    · rw [length_nil]
      omega
  -- the packets are taken one by one, and then the flow is tried once more
  obtain ⟨hend, hsound', -, haccepted⟩ := hready.batch hwhole hfit now (P.finish_key .client) hsound
    (hjoined .agent).below (by
      intro d hd
      refine ⟨?_, hjoined.arriving .client (x .client).peer arrivals d hd⟩
      obtain ⟨w, -, rfl⟩ := mem_map.mp hd
      rfl)
  have hstep : P.step x (.client, .network arrivals now) .client = flushOutput (P.host .client)
      ((arriving (x .agent).wires (x .client).peer arrivals).foldl
        (fun st d => receive (P.host .client) P.aead st d.1 d.2 false now) (x .client)) := rfl
  rw [hstep] at hcarry' ⊢
  generalize (arriving (x .agent).wires (x .client).peer arrivals).foldl
    (fun st d => receive (P.host .client) P.aead st d.1 d.2 false now) (x .client) = st
    at hend hsound' haccepted hcarry' ⊢
  obtain ⟨hlast, hsession, htakes⟩ := flushOutput_spec hwhole hfit hsound' hend
  have hflushed := hsound'.flushOutput (H := P.host .client)
  refine ⟨⟨hlast.opened, hcarry'.fd hlast.opened⟩, ?_, ?_, htakes⟩
  · intro hstage w hw hdata
    have hout : w ∈ (x .agent).out := by
      obtain ⟨i, -, hi⟩ := mem_filterMap.mp hw
      exact mem_append_left _ (mem_of_getElem? hi)
    obtain ⟨p, hsealed, hp, hsize, hlow, hmax⟩ := hjoined.data .agent hout hdata
    have hframe : onReceived w = true := by
      rw [hsealed]
      exact onReceived_data hsize
    have hwindow : sequenceOf w < (x .agent).session.sendBase + maxPending := by
      have hplace := (List.getElem?_eq_some_iff.mp hp).1
      have hcounted := (hjoined .agent).counted
      have hwindow := (hjoined .agent).windowed.window
      omega
    have hmem : (w, (x .client).peer) ∈ arriving _ _ arrivals := mem_map.mpr ⟨w, mem_filter.mpr ⟨hw, hframe⟩, rfl⟩
    rw [hsession]
    exact haccepted hstage hcarry.client _ hmem _ p hsealed hlow hmax hwindow hsize
  · rw [hflushed.flowed hlast.opened hlast.attached]
    have hreceiving := hflushed.receiving hlast.opened
    rw [append_nil] at hreceiving
    exact hreceiving.order.handed

/-! ### Concrete flows -/

/-- A client with a flow whose socket takes every record. -/
def flowSample : Pair := { sample with
  host := fun e => ⟨fun _ => some (e.token ⟨[1], [2], [3]⟩), fun _ data => .sent data.length, fun _ => .again⟩
  flowFd := 3
  finish_key := by
    rintro e d u ⟨⟩
    rfl }

/-- The agent gets a datagram for the client. -/
def oneDatagram (data : Bytes) : List (End × Event) := setUp ++ [(.agent, .application [(data, 7)] 5)]

/-- A datagram with a byte gets to the flow. -/
theorem datagrams_reach_flow_one :
    flowSample.Reaches ([2].filterMap ((flowSample.after (oneDatagram [1]) .agent).wires[·]?))
      (flowSample.after (oneDatagram [1]) .agent) (flowSample.after (oneDatagram [1]) .client)
      (flowSample.step (flowSample.after (oneDatagram [1])) (.client, .network [2] 6) .client) := by
  have hopen : (flowSample.after (oneDatagram [1]) .client).closed = false := by decide +kernel
  have hnonempty : ∀ p ∈ (flowSample.after (oneDatagram [1]) .agent).accepted, p ≠ [] := by decide +kernel
  have hroom : (flowSample.after (oneDatagram [1]) .client).appOutput.length
      + (flowSample.after (oneDatagram [1]) .client).session.receivedPackets.size + [2].length ≤ 256 := by
    decide +kernel
  exact datagrams_reach_flow flowSample (oneDatagram [1]) [2] 6 (by decide) (fun _ _ => .inl rfl) hopen hnonempty
    hroom

/-- An empty datagram: the agent accepts it, and its packet makes the client close session and flow. -/
theorem empty_datagram_closes : (flowSample.after (oneDatagram []) .agent).accepted = [[]] ∧
      (flowSample.after (oneDatagram []) .client).closed = false ∧
      (flowSample.after (oneDatagram [] ++ [(.client, .network [2] 6)]) .client).closed = true ∧
      (flowSample.after (oneDatagram [] ++ [(.client, .network [2] 6)]) .client).flowFd = -1 ∧
      (flowSample.after (oneDatagram [] ++ [(.client, .network [2] 6)]) .client).handed = [] := by
  decide +kernel

end Pair

end Shadow6.CorePony
