import Shadow6.CorePony.Transport

/-!
# `CorePony.Nonce` — no nonce for two plaintexts

The nonce of a packet is made of its kind and its sequence number. `SealCall` is a call of `s6p_seal`, and the
functions `…Seals` list the calls that the functions of `CorePony.Runtime` make, in their order. An end is given any
input: datagrams of its application, any bytes from the network, ticks with any clock. It numbers the records it
accepts, so a data packet is determined by its number; the other packets are empty. Retransmissions seal nothing:
whatever an end sends is the handshake or the packet of a call (`makes_run`).
-/

namespace Shadow6.CorePony

open Library OCapToken List ReliableSession Station

/-- A call of `s6p_seal`. -/
structure SealCall where
  token : OCapToken
  sequence : Nat
  kind : Nat
  plaintext : Bytes

/-- The packet it makes. -/
def SealCall.packet (A : Aead) (c : SealCall) : Bytes := c.token.sealedPacket A c.sequence c.kind c.plaintext

namespace Station

/-! ## The calls -/

section

variable (H : Host) (A : Aead) (st : Station)

def submitSeals (data : Bytes) : List SealCall :=
  match st.token, st.session.nextSequence with
  | some token, some (sequence, _) => [⟨token, sequence, kindData, data⟩]
  | _, _ => []

def plaintextSeals (data : Bytes) (sender : NetAddress) : List SealCall :=
  if st.stage ≠ 3 ∨ 1172 < data.length ∨ ¬ st.session.canSend then []
  else
    match st.localAddress with
    | some address => if sender ≠ address then [] else st.submitSeals data
    | none => st.submitSeals data

def sendFlowSeals (data : Bytes) : List SealCall :=
  if st.stage ≠ 3 ∨ 1172 < data.length ∨ ¬ st.session.canSend then [] else st.submitSeals data

def readFlowLoopSeals (now : Nat) : Nat → Station → List SealCall
  | 0, _ => []
  | n + 1, st =>
    if ¬ st.session.canSend then []
    else
      let input := H.recv st.recvs
      let result := s6AppFlowRecv 1173 input
      let st := { st with recvs := st.recvs + 1 }
      if result = -1 then []
      else if result = -2 then []
      else if result = -3 then readFlowLoopSeals now n st
      else if result < 0 then []
      else
        match input with
        | .received data _ =>
          st.sendFlowSeals data ++
            if (sendFlowMessage A st data now).1 then readFlowLoopSeals now n (sendFlowMessage A st data now).2 else []
        | _ => []

def readFlowSeals (now : Nat) : List SealCall :=
  if st.flowFd < 0 ∨ st.flowEof ∨ st.stage ≠ 3 then [] else readFlowLoopSeals H A now 16 st

def receiveDataSeals (token : OCapToken) (sequence : Nat) (payload : Bytes) : List SealCall :=
  match st.session.receiveInOrder sequence with
  | (true, session) =>
    if (deliver H { st with session := session } payload).1 then [⟨token, sequence, kindAck, []⟩] else []
  | (false, _) => if (st.session.acceptReceive sequence payload).1 then [⟨token, sequence, kindAck, []⟩] else []

def openedSeals (token : OCapToken) (packet : Bytes) : List SealCall :=
  let sequence := OCapToken.sequenceOf packet
  let kind := OCapToken.kindOf packet
  if ¬ st.client ∧ sequence = 1 ∧ kind = kindConfirm ∧ packet.length = 12 then [⟨token, 1, kindConfirmed, []⟩]
  else if st.client ∧ st.stage = 2 ∧ sequence = 1 ∧ kind = kindConfirmed ∧ packet.length = 12 then []
  else if st.stage ≠ 3 then []
  else if kind = kindAck then []
  else if kind ≠ kindData then []
  else receiveDataSeals H st token sequence (packet.drop 12)

def encryptedSeals (data : Bytes) : List SealCall :=
  if st.client ∧ st.stage = 1 then
    if data.length ≠ 172 then []
    else
      match H.finish data with
      | none => []
      | some token => [⟨token, 1, kindConfirm, []⟩]
  else if ¬ st.client ∧ data.length = 140 then []
  else
    match st.token with
    | none => []
    | some token =>
      match token.openPacket A data with
      | none => []
      | some packet => openedSeals H st token packet

def receiveSeals (data : Bytes) (sender : NetAddress) (application : Bool) : List SealCall :=
  if st.closed then []
  else if application then plaintextSeals st data sender
  else if sender = st.peer then encryptedSeals H A st data
  else []

def batchSeals (application : Bool) (now : Nat) : List (Bytes × NetAddress) → Station → List SealCall
  | [], _ => []
  | d :: batch, st =>
    receiveSeals H A st d.1 d.2 application ++ batchSeals application now batch (receive H A st d.1 d.2 application now)

def tickSeals (now : Nat) (order : List Nat) : List SealCall :=
  if st.closed ∨ now < st.started then []
  else if st.stage < 3 then []
  else if st.lastActivity ≤ now ∧ 60000000000 < now - st.lastActivity then []
  else
    match st.session.retransmit now order with
    | (none, _) => []
    | (some due, session) => readFlowSeals H A (flushOutput H (due.foldl sendWire { st with session := session })) now

end

end Station

/-! ## Runs of one end -/

/-- What can happen to an end: `Event` of `CorePony.Transport` with any datagrams from the network. -/
inductive Input where
  | bound (now : Nat)
  | received (batch : List (Bytes × NetAddress)) (application : Bool) (now : Nat)
  | tick (now : Nat) (order : List Nat)
  | close

namespace Station

variable (H : Host) (A : Aead)

def react (st : Station) : Input → Station
  | .bound now => st.bound now
  | .received batch application now => st.receivedBatch H A batch application now
  | .tick now order => st.tick H A now order
  | .close => st.close

def reactSeals (st : Station) : Input → List SealCall
  | .received batch application now => batchSeals H A application now batch st
  | .tick now order => tickSeals H A st now order
  | .bound _ | .close => []

/-- The calls of a run. -/
def runSeals : Station → List Input → List SealCall
  | _, [] => []
  | st, i :: inputs => reactSeals H A st i ++ runSeals (react H A st i) inputs

end Station

/-! ## What one call can be -/

/-- A call that an end makes which has accepted the records `log`: an empty packet of the handshake or an empty
    acknowledgement, or the record with its number. -/
structure Regular (t : OCapToken) (log : List Bytes) (c : SealCall) : Prop where
  token : c.token = t
  empty : c.kind ≠ kindData → c.plaintext = []
  record : c.kind = kindData → 2 ≤ c.sequence ∧ log[c.sequence - 2]? = some c.plaintext

variable {c : SealCall}

theorem Regular.more {t : OCapToken} {log log' : List Bytes} (h : Regular t log c) (hmore : log <+: log') :
    Regular t log' c := by
  obtain ⟨rest, rfl⟩ := hmore
  refine ⟨h.token, h.empty, fun hkd => ?_⟩
  obtain ⟨hlow, hrec⟩ := h.record hkd
  refine ⟨hlow, ?_⟩
  rw [List.getElem?_append_left (List.getElem?_eq_some_iff.mp hrec).1]
  exact hrec

/-- Two regular calls with one nonce seal one plaintext. -/
theorem Regular.plaintext_eq {t : OCapToken} {log : List Bytes} {c c' : SealCall} (h : Regular t log c)
    (h' : Regular t log c') (hseq : c.sequence = c'.sequence) (hkd : c.kind = c'.kind) :
    c.plaintext = c'.plaintext := by
  by_cases hdt : c.kind = kindData
  · have hrec := (h.record hdt).2
    rw [hseq, (h'.record (hkd ▸ hdt)).2] at hrec
    exact (Option.some.inj hrec).symm
  · rw [h.empty hdt, h'.empty (hkd ▸ hdt)]

/-! ## What one function does -/

namespace Station

/-- A packet that an end has made or keeps for sending it again. -/
def Holds (st : Station) (w : Bytes) : Prop := w ∈ st.out ∨ w = st.retry ∨ st.session.PendingWire w

/-- The records are numbered in the order in which they were accepted, and the session has one key. -/
structure Keyed (t : OCapToken) (st : Station) : Prop where
  counted : st.session.next = st.accepted.length + 2
  token : ∀ u, st.token = some u → u = t

/-- From `st` to `st'` nothing was sealed. -/
structure Idle (st st' : Station) : Prop where
  next : st'.session.next = st.session.next
  accepted : st'.accepted = st.accepted
  token : ∀ u, st'.token = some u → st.token = some u
  holds : ∀ w, st'.Holds w → st.Holds w

/-- From `st` to `st'` these calls were made, and nothing else was made. -/
structure Makes (A : Aead) (t : OCapToken) (st st' : Station) (calls : List SealCall) : Prop where
  keyed : Keyed t st'
  grows : st.accepted <+: st'.accepted
  regular : ∀ c ∈ calls, Regular t st'.accepted c
  holds : ∀ w, st'.Holds w → st.Holds w ∨ ∃ c ∈ calls, w = c.packet A

variable {H : Host} {A : Aead} {t : OCapToken} {st st' st'' : Station} {calls calls' : List SealCall} {w : Bytes}

theorem Idle.refl (st : Station) : Idle st st := ⟨rfl, rfl, fun _ h => h, fun _ h => h⟩

theorem Idle.trans (h : Idle st st') (h' : Idle st' st'') : Idle st st'' where
  next := h'.next.trans h.next
  accepted := h'.accepted.trans h.accepted
  token := fun u hu => h.token u (h'.token u hu)
  holds := fun w hw => h.holds w (h'.holds w hw)

theorem Keyed.idle (h : Keyed t st) (hidle : Idle st st') : Keyed t st' where
  counted := by
    rw [hidle.next, hidle.accepted]
    exact h.counted
  token := fun u hu => h.token u (hidle.token u hu)

theorem Idle.makes (hidle : Idle st st') (h : Keyed t st) : Makes A t st st' [] where
  keyed := h.idle hidle
  grows := by rw [hidle.accepted]
  regular := fun _ hc => absurd hc not_mem_nil
  holds := fun w hw => .inl (hidle.holds w hw)

theorem Makes.trans (h : Makes A t st st' calls) (h' : Makes A t st' st'' calls') :
    Makes A t st st'' (calls ++ calls') where
  keyed := h'.keyed
  grows := h.grows.trans h'.grows
  regular := forall_mem_append.mpr ⟨fun c hc => (h.regular c hc).more h'.grows, h'.regular⟩
  holds := by
    intro w hw
    rcases h'.holds w hw with hold | ⟨c, hc, rfl⟩
    · rcases h.holds w hold with hold | ⟨c, hc, rfl⟩
      · exact .inl hold
      · exact .inr ⟨c, mem_append_left _ hc, rfl⟩
    · exact .inr ⟨c, mem_append_right _ hc, rfl⟩

theorem Makes.idle (h : Makes A t st st' calls) (hidle : Idle st' st'') : Makes A t st st'' calls := by
  have hboth := h.trans (hidle.makes h.keyed)
  rwa [append_nil] at hboth

theorem Idle.andThen (hidle : Idle st st') (h : Makes A t st' st'' calls) : Makes A t st st'' calls where
  keyed := h.keyed
  grows := hidle.accepted ▸ h.grows
  regular := h.regular
  holds := fun w hw => (h.holds w hw).imp (hidle.holds w) id

theorem Makes.none (h : Keyed t st) : Makes A t st st [] := (Idle.refl st).makes h

/-! ### Functions that seal nothing -/

variable (st)

/-- Only the session changes, and its next number and pending packets do not grow. -/
theorem Idle.session {ss : ReliableSession} (hnx : ss.next = st.session.next)
    (hpend : ∀ w, ss.PendingWire w → st.session.PendingWire w) : Idle st { st with session := ss } where
  next := hnx
  accepted := rfl
  token := fun _ h => h
  holds := fun w hw => hw.imp_right fun hw => hw.imp_right (hpend w)

theorem idle_close : Idle st st.close := by
  unfold close
  split
  · exact .refl st
  refine ⟨rfl, rfl, nofun, ?_⟩
  rintro w (hw | hw | ⟨k, p, hfd, -⟩)
  · exact .inl hw
  · exact .inr (.inl hw)
  · cases hfd

/-- Packets move to the network, or one that is held is sent. -/
theorem Idle.out {ws o : List Bytes} (h : ∀ w ∈ ws ++ o, st.Holds w) :
    Idle st { st with wires := ws, networkOutput := o } where
  next := rfl
  accepted := rfl
  token := fun _ h => h
  holds := by
    rintro w (hw | hw | hw)
    · exact h w hw
    · exact .inr (.inl hw)
    · exact .inr (.inr hw)

theorem idle_flushNetwork : Idle st st.flushNetwork := by
  refine Idle.out st fun w hw => .inl ?_
  rwa [append_nil] at hw

variable {st}

theorem idle_sendWire (h : st.Holds w) : Idle st (st.sendWire w) := by
  obtain ⟨wires, o, heq, hout⟩ := sendWire_eq st w
  rw [heq]
  refine Idle.out st fun w' hw' => ?_
  rw [hout] at hw'
  rcases mem_append.mp hw' with hw' | hw'
  · exact .inl hw'
  · rw [mem_singleton.mp hw']
    exact h

theorem idle_flushFlow (rs : List Bytes) (st : Station) : Idle st (flushFlow H rs st) := by
  induction rs generalizing st with
  | nil => exact .refl st
  | cons payload rs ih =>
    unfold flushFlow
    dsimp only
    split
    · exact { Idle.refl st with }
    split
    · exact { idle_close _ with }
    · exact { ih _ with }

theorem idle_flushOutput (st : Station) : Idle st (flushOutput H st) := by
  refine (idle_flushNetwork st).trans ?_
  unfold flushOutput
  dsimp only
  split
  · exact .refl _
  split
  · exact { idle_flushFlow _ _ with }
  split
  · exact { Idle.refl _ with }
  · exact .refl _

theorem idle_deliver (st : Station) (p : Bytes) : Idle st (deliver H st p).2 := by
  unfold deliver
  dsimp only
  split
  · split
    · exact { idle_close _ with }
    · exact { idle_flushOutput _ with }
  split
  · split
    · exact { idle_flushOutput _ with }
    · exact { Idle.refl _ with }
  · exact { Idle.refl _ with }

theorem idle_deliverAll (rs : List Bytes) (st : Station) : Idle st (deliverAll H rs st) := by
  induction rs generalizing st with
  | nil => exact .refl st
  | cons payload rs ih =>
    have hdlv : Idle st (deliver H st payload).2 := idle_deliver st payload
    unfold deliverAll
    generalize deliver H st payload = r at hdlv ⊢
    obtain ⟨ok, st'⟩ := r
    cases ok with
    | true => exact hdlv.trans (ih st')
    | false => exact hdlv

theorem holds_sendWire (h : st.Holds w) (w' : Bytes) : (st.sendWire w').Holds w := by
  obtain ⟨wires, o, heq, hout⟩ := sendWire_eq st w'
  rw [heq]
  rcases h with h | h | h
  · refine .inl ?_
    show w ∈ wires ++ o
    rw [hout]
    exact mem_append_left _ h
  · exact .inr (.inl h)
  · exact .inr (.inr h)

/-- Packets that are held are sent again. -/
theorem idle_sendAll (due : List Bytes) (st : Station) (h : ∀ w ∈ due, st.Holds w) : Idle st (due.foldl sendWire st) := by
  induction due generalizing st with
  | nil => exact .refl st
  | cons w due ih =>
    refine (idle_sendWire (h w mem_cons_self)).trans (ih _ fun w' hw' => ?_)
    exact holds_sendWire (h w' (mem_cons_of_mem _ hw')) w

/-- The packet of the handshake is sent again. -/
theorem idle_sendRetry (now : Nat) (st : Station) :
    Idle st { st with wires := st.wires ++ [st.retry], handshakeSent := now } where
  next := rfl
  accepted := rfl
  token := fun _ h => h
  holds := by
    rintro w (hw | hw | hw)
    · rcases mem_append.mp hw with hw | hw
      · rcases mem_append.mp hw with hw | hw
        · exact .inl (mem_append_left _ hw)
        · exact .inr (.inl (mem_singleton.mp hw))
      · exact .inl (mem_append_right _ hw)
    · exact .inr (.inl hw)
    · exact .inr (.inr hw)

theorem idle_bound (now : Nat) (st : Station) : Idle st (st.bound now) := by
  unfold bound
  split
  · exact .refl st
  · exact idle_sendRetry now st

theorem idle_acknowledge (st : Station) (sq now : Nat) :
    Idle st { st with session := (st.session.acknowledge sq now).2 } := by
  by_cases hpend : sq ∈ st.session.sentPackets
  · obtain ⟨srtt, r, heq⟩ := acknowledge_eq now hpend
    rw [heq]
    refine Idle.session st rfl ?_
    rintro w ⟨k, p, hfd, rfl⟩
    replace hfd : (st.session.sentPackets.erase sq).find? k = some p := hfd
    rw [Dict.find?_erase] at hfd
    split at hfd
    · cases hfd
    · exact ⟨k, p, hfd, rfl⟩
  · rw [acknowledge_unknown now hpend]
    exact .refl st

/-! ### Functions that seal -/

section

variable (h : Keyed t st)
include h

/-- A regular call is made and its packet is sent. -/
theorem Makes.send (hc : Regular t st.accepted c) : Makes A t st (st.sendWire (c.packet A)) [c] := by
  obtain ⟨wires, output, heq, hout⟩ := sendWire_eq st (c.packet A)
  rw [heq]
  refine ⟨⟨h.counted, h.token⟩, prefix_rfl, fun c' hc' => ?_, ?_⟩
  · rw [mem_singleton.mp hc']
    exact hc
  rintro w (hw | hw | hw)
  · have hw : w ∈ wires ++ output := hw
    rw [hout] at hw
    rcases mem_append.mp hw with hw | hw
    · exact .inl (.inl hw)
    · exact .inr ⟨c, mem_singleton_self c, mem_singleton.mp hw⟩
  · exact .inl (.inr (.inl hw))
  · exact .inl (.inr (.inr hw))

/-- A regular call is made and its packet is kept for repetition. -/
theorem Makes.retry {tk : Option OCapToken} (stg : Nat) (hc : Regular t st.accepted c)
    (htok : ∀ u, tk = some u → u = t) :
    Makes A t st { st with token := tk, retry := c.packet A, stage := stg } [c] := by
  refine ⟨⟨h.counted, htok⟩, prefix_rfl, forall_mem_singleton.mpr hc, ?_⟩
  rintro w (hw | hw | hw)
  · exact .inl (.inl hw)
  · exact .inr ⟨_, mem_singleton_self _, hw⟩
  · exact .inl (.inr (.inr hw))

/-- A call whose packet is not sent. -/
theorem Idle.call (hidle : Idle st st') (hc : Regular t st.accepted c) : Makes A t st st' [c] where
  keyed := h.idle hidle
  grows := by rw [hidle.accepted]
  regular := by
    intro c' hc'
    rw [mem_singleton.mp hc', hidle.accepted]
    exact hc
  holds := fun w hw => .inl (hidle.holds w hw)

omit h in
theorem regular_empty {sq k : Nat} {log : List Bytes} (hkd : k ≠ kindData) : Regular t log ⟨t, sq, k, []⟩ :=
  ⟨rfl, fun _ => rfl, fun h => absurd h hkd⟩

omit h in
theorem sealPacket_empty_some {sq k : Nat} (h : t.sealPacket A frameEmpty sq k = some w) :
    w = (⟨t, sq, k, []⟩ : SealCall).packet A := by
  unfold OCapToken.sealPacket at h
  split_ifs at h
  exact (Option.some.inj h).symm

theorem makes_submit {dt : Bytes} (now : Nat) (hsz : dt.length ≤ 1172) :
    Makes A t st (submit A st dt now).2 (st.submitSeals dt) := by
  unfold submit
  split
  · rename_i u sequence session htok hnx
    have hcalls : st.submitSeals dt = [⟨u, sequence, kindData, dt⟩] := by rw [submitSeals, htok, hnx]
    rw [hcalls]
    obtain rfl := h.token u htok
    unfold nextSequence at hnx
    split_ifs at hnx
    cases hnx
    have hcoun := h.counted
    rw [sealPacket_payload hsz (by omega) (by decide)]
    dsimp only
    -- the record is pending under its number before its packet is sent
    have hnumd : Makes A u st { st with
        session := ({ st.session with next := st.session.next + 1 } : ReliableSession).sent st.session.next
          (u.sealedPacket A st.session.next kindData dt) now
        accepted := st.accepted ++ [dt] } [⟨u, st.session.next, kindData, dt⟩] := by
      refine ⟨⟨?_, h.token⟩, prefix_append _ _, ?_, ?_⟩
      · rw [length_append, hcoun]
        rfl
      · intro c hc
        rw [mem_singleton.mp hc]
        refine ⟨rfl, fun habs => absurd rfl habs, fun _ => ⟨?_, ?_⟩⟩
        · show 2 ≤ st.session.next
          omega
        · rw [hcoun]
          simp
      · rintro w (hw | hw | ⟨k, p, hfd, rfl⟩)
        · exact .inl (.inl hw)
        · exact .inl (.inr (.inl hw))
        · replace hfd : (st.session.sentPackets.set st.session.next _).find? k = some p := hfd
          rcases Dict.find?_set_cases hfd with ⟨-, rfl⟩ | ⟨-, hfd⟩
          · exact .inr ⟨_, mem_singleton_self _, rfl⟩
          · exact .inl (.inr (.inr ⟨k, p, hfd, rfl⟩))
    refine (hnumd.idle (idle_sendWire (.inr (.inr ⟨st.session.next, _, Dict.find?_set_self _ _ _, rfl⟩)))).idle ?_
    exact { Idle.refl _ with }
  rename_i hnone
  have hcalls : st.submitSeals dt = [] := by
    unfold submitSeals
    split
    · exact absurd ‹_› (hnone _ _ _ ‹_›)
    · rfl
  rw [hcalls]
  exact .none h

theorem makes_plaintext (dt : Bytes) (sd : NetAddress) (now : Nat) :
    Makes A t st (plaintext A st dt sd now) (st.plaintextSeals dt sd) := by
  unfold plaintext plaintextSeals
  split
  · exact .none h
  rename_i hnot
  obtain ⟨-, hsz, -⟩ := by simpa only [not_or, not_not, not_lt] using hnot
  cases hloc : st.localAddress with
  | some address =>
    dsimp only
    split
    · exact .none h
    · exact makes_submit h now hsz
  | none =>
    have hal : Idle st { st with localAddress := some sd } := { Idle.refl st with }
    exact hal.andThen (makes_submit (h.idle hal) now hsz)

theorem makes_sendFlowMessage (dt : Bytes) (now : Nat) :
    Makes A t st (sendFlowMessage A st dt now).2 (st.sendFlowSeals dt) := by
  unfold sendFlowMessage sendFlowSeals
  split
  · exact .none h
  rename_i hnot
  obtain ⟨-, hsz, -⟩ := by simpa only [not_or, not_not, not_lt] using hnot
  exact makes_submit h now hsz

theorem makes_readFlowLoop (now n : Nat) :
    Makes A t st (readFlowLoop H A now n st).2 (readFlowLoopSeals H A now n st) := by
  induction n generalizing st with
  | zero => exact .none h
  | succ n ih =>
    have hrd : Idle st { st with recvs := st.recvs + 1 } := { Idle.refl st with }
    unfold readFlowLoop readFlowLoopSeals
    split
    · exact .none h
    dsimp only
    split
    · exact hrd.makes h
    split
    · exact Idle.makes { Idle.refl _ with } h
    split
    · exact hrd.andThen (ih (h.idle hrd))
    split
    · exact (hrd.trans (idle_close _)).makes h
    cases hin : H.recv st.recvs with
    | again | failed => exact hrd.makes h
    | received data tr =>
      have hsn := makes_sendFlowMessage (A := A) (h.idle hrd) data now
      dsimp only
      generalize sendFlowMessage A { st with recvs := st.recvs + 1 } data now = r at hsn ⊢
      obtain ⟨ok, st'⟩ := r
      cases ok with
      | true => exact hrd.andThen (hsn.trans (ih hsn.keyed))
      | false =>
        rw [if_neg Bool.false_ne_true, append_nil]
        exact hrd.andThen hsn

theorem makes_readFlow (now : Nat) : Makes A t st (readFlow H A st now).2 (readFlowSeals H A st now) := by
  unfold readFlow readFlowSeals
  split
  · exact .none h
  · exact makes_readFlowLoop h now 16

theorem makes_acknowledgePacket (sq now : Nat) :
    Makes A t st (acknowledgePacket H A st t sq now) [⟨t, sq, kindAck, []⟩] := by
  have hnow : Idle st { st with lastActivity := now } := { Idle.refl st with }
  have hreg : Regular t st.accepted ⟨t, sq, kindAck, []⟩ := regular_empty (by decide)
  unfold acknowledgePacket
  dsimp only
  split
  · exact hnow.call h hreg
  rename_i ack hack
  obtain rfl := sealPacket_empty_some hack
  refine hnow.andThen ((Makes.send (h.idle hnow) hreg).idle ?_)
  split
  · refine Idle.trans (Idle.session _ ?_ ?_) (idle_deliverAll _ _)
    · obtain ⟨packets, next, heq⟩ := (deliver_spec _).1.changed
      rw [heq]
    · obtain ⟨packets, next, heq⟩ := (deliver_spec _).1.changed
      rw [heq]
      exact fun w hw => hw
  · exact .refl _

theorem makes_receiveData (sq now : Nat) (p : Bytes) :
    Makes A t st (receiveData H A st t sq p now) (receiveDataSeals H st t sq p) := by
  unfold receiveData receiveDataSeals
  rcases receiveInOrder_cases st.session sq with ⟨-, hnx⟩ | hnot
  -- in order: delivered before it is acknowledged
  · rw [hnx]
    dsimp only
    have hsess : Idle st { st with session := { st.session with receiveNext := st.session.receiveNext + 1 } } :=
      Idle.session st rfl fun w hw => hw
    have hdlv := hsess.trans (idle_deliver (H := H) _ p)
    generalize deliver H _ p = r at hdlv ⊢
    obtain ⟨ok, st'⟩ := r
    cases ok with
    | true => exact hdlv.andThen (makes_acknowledgePacket (h.idle hdlv) sq now)
    | false => exact hdlv.makes h
  rw [hnot]
  have hsess : Idle st { st with session := (st.session.acceptReceive sq p).2 } := by
    rcases acceptReceive_cases st.session sq p with ⟨hsm, -⟩ | ⟨-, -, -, hheld⟩
    · rw [hsm]
      exact .refl st
    · rw [hheld]
      exact Idle.session st rfl fun w hw => hw
  generalize st.session.acceptReceive sq p = r at hsess ⊢
  obtain ⟨ok, session⟩ := r
  cases ok with
  | true => exact hsess.andThen (makes_acknowledgePacket (h.idle hsess) sq now)
  | false => exact .none h

theorem makes_openedPacket (p : Bytes) (now : Nat) :
    Makes A t st (openedPacket H A st t p now) (openedSeals H st t p) := by
  unfold openedPacket openedSeals
  dsimp only
  split
  -- the confirmation of the client is answered, each time it comes
  · have hreg : Regular t st.accepted ⟨t, 1, kindConfirmed, []⟩ := regular_empty (by decide)
    split
    · exact (Idle.refl st).call h hreg
    rename_i retry hrty
    obtain rfl := sealPacket_empty_some hrty
    refine ((Makes.retry h st.stage hreg h.token).idle (idle_sendWire (.inr (.inl rfl)))).idle ?_
    split
    · exact { Idle.refl _ with }
    · exact { Idle.refl _ with }
  split
  · exact Idle.makes { Idle.refl st with } h
  split
  · exact .none h
  split
  · split
    · have hack := idle_acknowledge st (sequenceOf p) now
      generalize st.session.acknowledge (sequenceOf p) now = r at hack ⊢
      obtain ⟨ok, session⟩ := r
      cases ok with
      | true => exact Idle.makes (hack.trans { Idle.refl _ with }) h
      | false => exact hack.makes h
    · exact .none h
  split
  · exact .none h
  · exact makes_receiveData h _ now _

section

variable (hfin : ∀ d u, H.finish d = some u → u = t)
include hfin

theorem makes_encrypted (dt : Bytes) (now : Nat) :
    Makes A t st (encrypted H A st dt now) (encryptedSeals H A st dt) := by
  unfold encrypted encryptedSeals
  split
  -- the response completes the handshake of the client
  · split
    · exact .none h
    cases hdone : H.finish dt with
    | none => exact .none h
    | some u =>
      obtain rfl := hfin dt u hdone
      have hreg : Regular u st.accepted ⟨u, 1, kindConfirm, []⟩ := regular_empty (by decide)
      dsimp only
      have htok : ∀ v, some u = some v → v = u := fun v hv => (Option.some.inj hv).symm
      exact (Makes.retry h 2 hreg htok).idle (idle_sendWire (.inr (.inl rfl)))
  split
  · split
    · exact (idle_sendWire (.inr (.inl rfl))).makes h
    · exact .none h
  cases htok : st.token with
  | none => exact .none h
  | some u =>
    obtain rfl := h.token u htok
    dsimp only
    cases ho : u.openPacket A dt with
    | none => exact .none h
    | some packet => exact makes_openedPacket h packet now

theorem makes_receive (dt : Bytes) (sd : NetAddress) (app : Bool) (now : Nat) :
    Makes A t st (receive H A st dt sd app now) (receiveSeals H A st dt sd app) := by
  unfold receive receiveSeals
  split
  · exact .none h
  split
  · exact makes_plaintext h dt sd now
  split
  · exact makes_encrypted h hfin dt now
  · exact .none h

theorem makes_batch (bt : List (Bytes × NetAddress)) (app : Bool) (now : Nat) :
    Makes A t st (bt.foldl (fun st d => receive H A st d.1 d.2 app now) st)
      (batchSeals H A app now bt st) := by
  induction bt generalizing st with
  | nil => exact .none h
  | cons d bt ih =>
    have hfst := makes_receive (A := A) h hfin d.1 d.2 app now
    exact hfst.trans (ih hfst.keyed)

omit hfin in
theorem makes_tick (now : Nat) (o : List Nat) : Makes A t st (st.tick H A now o) (tickSeals H A st now o) := by
  unfold tick tickSeals
  split
  · exact .none h
  split
  · split
    · exact (idle_close st).makes h
    split
    · exact (idle_sendRetry now st).makes h
    · exact .none h
  split
  · exact (idle_close st).makes h
  obtain ⟨hsmp, hdue⟩ := retransmit_spec now st.session o
  generalize st.session.retransmit now o = r at hsmp hdue ⊢
  obtain ⟨due, session⟩ := r
  have hsess : Idle st { st with session := session } :=
    Idle.session st hsmp.next fun w hw => hsmp.pendingWire hw
  cases due with
  | none => exact (hsess.trans (idle_close _)).makes h
  | some due =>
    have hflus : Idle st (flushOutput H (due.foldl sendWire { st with session := session })) := by
      refine (hsess.trans (idle_sendAll due _ fun w hw => ?_)).trans (idle_flushOutput _)
      exact .inr (.inr (hsmp.symm.pendingWire (hdue due rfl w hw)))
    dsimp only
    generalize flushOutput H (due.foldl sendWire { st with session := session }) = st' at hflus ⊢
    have hrd := hflus.andThen (makes_readFlow (H := H) (A := A) (h.idle hflus) now)
    generalize readFlow H A st' now = r at hrd ⊢
    obtain ⟨ok, st''⟩ := r
    cases ok with
    | false => exact hrd.idle (idle_close st'')
    | true =>
      dsimp only
      split
      · exact hrd.idle { idle_close _ with }
      · exact hrd

/-! ## Runs -/

theorem makes_react (i : Input) : Makes A t st (react H A st i) (reactSeals H A st i) := by
  cases i with
  | bound now => exact (idle_bound now st).makes h
  | received batch application now => exact (makes_batch h hfin batch application now).idle (idle_flushOutput _)
  | tick now o => exact makes_tick h now o
  | close => exact (idle_close st).makes h

/-- **The calls of a run** are regular, and nothing else is sent. -/
theorem makes_run (inp : List Input) : Makes A t st (inp.foldl (react H A) st) (runSeals H A st inp) := by
  induction inp generalizing st with
  | nil => exact .none h
  | cons i inp ih =>
    have hfst := makes_react (A := A) h hfin i
    exact hfst.trans (ih hfst.keyed)

end

end

end Station

/-! ## Both ends of a session -/

/-- No two calls use one key and one nonce for different plaintexts. -/
def NoReuse (calls : List SealCall) : Prop :=
  ∀ c ∈ calls, ∀ c' ∈ calls, c.token.tx = c'.token.tx → c.sequence = c'.sequence → c.kind = c'.kind →
    c.plaintext = c'.plaintext

namespace Pair

variable (P : Pair)

/-- The calls of an end that is given `inputs`. -/
def endSeals (e : End) (inputs : List Input) : List SealCall := (P.init e).runSeals (P.host e) P.aead inputs

/-- The calls of a session. -/
def sealCalls (inputs : End → List Input) : List SealCall :=
  P.endSeals .client (inputs .client) ++ P.endSeals .agent (inputs .agent)

theorem keyed_init (e : End) : (P.init e).Keyed (e.token P.key) := by
  cases e with
  | client => exact ⟨rfl, by rintro u ⟨⟩⟩
  | agent => exact ⟨rfl, by rintro u ⟨⟩; rfl⟩

theorem makes_init (e : End) (inp : List Input) :
    Station.Makes P.aead (e.token P.key) (P.init e) (inp.foldl (Station.react (P.host e) P.aead) (P.init e))
      (P.endSeals e inp) :=
  makes_run (P.keyed_init e) (P.finish_key e) inp

theorem mem_sealCalls {inp : End → List Input} (hc : c ∈ P.sealCalls inp) : ∃ e, c ∈ P.endSeals e (inp e) := by
  rcases mem_append.mp hc with hc | hc
  · exact ⟨.client, hc⟩
  · exact ⟨.agent, hc⟩

theorem end_eq_of_tx_eq (hkeys : P.key.tx ≠ P.key.rx) {e e' : End} (h : (e.token P.key).tx = (e'.token P.key).tx) :
    e = e' := by
  cases e <;> cases e'
  · rfl
  · exact absurd h hkeys
  · exact absurd h hkeys.symm
  · rfl

/-- **Nonce discipline.** Whatever the two ends of a session are given, two calls of `s6p_seal` with one key, one kind
    and one sequence number seal the same plaintext. -/
theorem nonce_discipline (hkeys : P.key.tx ≠ P.key.rx) (inputs : End → List Input) : NoReuse (P.sealCalls inputs) := by
  intro c hc c' hc' htx hsequence hkind
  obtain ⟨e, he⟩ := P.mem_sealCalls hc
  obtain ⟨e', he'⟩ := P.mem_sealCalls hc'
  have hregular := (P.makes_init e (inputs e)).regular c he
  have hregular' := (P.makes_init e' (inputs e')).regular c' he'
  rw [hregular.token, hregular'.token] at htx
  obtain rfl := P.end_eq_of_tx_eq hkeys htx
  exact hregular.plaintext_eq hregular' hsequence hkind

/-- A session in which each end sends a datagram and acknowledges one, and the client is asked to confirm twice. -/
def exchange : End → List Input
  | .client =>
    [.bound 1, .received [(sample.response, 0)] false 2,
      .received [(sample.key.peer.sealedPacket sample.aead 1 kindConfirmed [], 0)] false 3,
      .received [([5, 6], 9), ([7], 9)] true 4,
      .received [(sample.key.peer.sealedPacket sample.aead 2 kindData [8], 0)] false 5, .tick 900000000 [2, 3]]
  | .agent =>
    [.bound 1, .received [(sample.key.sealedPacket sample.aead 1 kindConfirm [], 0)] false 3,
      .received [(sample.key.sealedPacket sample.aead 1 kindConfirm [], 0)] false 4, .received [([8], 7)] true 5,
      .received [(sample.key.sealedPacket sample.aead 2 kindData [5, 6], 0)] false 6]

theorem nonce_discipline_exchange :
    ((sample.sealCalls exchange).map fun c => (c.token.tx, c.sequence, c.kind, c.plaintext)) =
        [([1], 1, kindConfirm, []), ([1], 2, kindData, [5, 6]), ([1], 3, kindData, [7]), ([1], 2, kindAck, []),
          ([2], 1, kindConfirmed, []), ([2], 1, kindConfirmed, []), ([2], 2, kindData, [8]), ([2], 2, kindAck, [])] ∧
      NoReuse (sample.sealCalls exchange) :=
  ⟨by decide +kernel, sample.nonce_discipline (by decide) exchange⟩

end Pair

end Shadow6.CorePony
