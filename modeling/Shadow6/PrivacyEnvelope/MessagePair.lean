import Shadow6.PrivacyEnvelope.Sealing

/-!
# `PrivacyEnvelope.MessagePair` — a sealing and an opening context

Two contexts with the keys of one session and the same channels. Either side may be called in any way; the records
that the sender seals are logged, and the receiver may be given any message. The sending half and the receiving half
of a context do not touch each other (`openRecord_sameSending`, `sealRecord_sameReceiving`), so one direction is
followed without the other.

What the sender has sealed is ordered: each record was sealed with the counts that those before it have left, nothing
follows a final, and no data of a channel follows its close (`Entry.Before`, `Sending`). The key of a record is that of
the epoch of its number.
-/

namespace Shadow6.PrivacyEnvelope

open Library Library.Json List Dict

/-! ## The two halves of a context -/

namespace MessageSecurity

/-- What sealing reads and writes of a channel. -/
def sendingPart (s : ChannelState) : Reliability × Ratchet × Int × Bool := (s.policy, s.tx, s.sent, s.txClosed)

/-- What opening reads and writes of a channel. -/
def receivingPart (s : ChannelState) : Reliability × Window × Ratchet × Option Int :=
  (s.policy, s.toWindow, s.rx, s.rxLimit)

structure SameSettings (t t' : MessageSecurity) : Prop where
  maximum : t'.maximum = t.maximum
  keyEpoch : t'.keyEpoch = t.keyEpoch
  wirePpid : t'.wirePpid = t.wirePpid
  closed : t'.closed = t.closed

structure SameSending (t t' : MessageSecurity) : Prop extends SameSettings t t' where
  channels : t'.channels.view sendingPart = t.channels.view sendingPart
  txFinal : t'.txFinal = t.txFinal

structure SameReceiving (t t' : MessageSecurity) : Prop extends SameSettings t t' where
  channels : t'.channels.view receivingPart = t.channels.view receivingPart
  rxTargets : t'.rxTargets = t.rxTargets

variable {C : Crypto} {t t' t'' : MessageSecurity} {s s' : ChannelState} {id : Int}

theorem SameSettings.refl (t : MessageSecurity) : SameSettings t t := ⟨rfl, rfl, rfl, rfl⟩

theorem SameSettings.trans (h : SameSettings t t') (h' : SameSettings t' t'') : SameSettings t t'' :=
  ⟨h'.maximum.trans h.maximum, h'.keyEpoch.trans h.keyEpoch, h'.wirePpid.trans h.wirePpid, h'.closed.trans h.closed⟩

theorem SameSending.refl (t : MessageSecurity) : SameSending t t := ⟨.refl t, rfl, rfl⟩

theorem SameSending.trans (h : SameSending t t') (h' : SameSending t' t'') : SameSending t t'' :=
  ⟨h.toSameSettings.trans h'.toSameSettings, h'.channels.trans h.channels, h'.txFinal.trans h.txFinal⟩

theorem SameReceiving.refl (t : MessageSecurity) : SameReceiving t t := ⟨.refl t, rfl, rfl⟩

theorem SameReceiving.trans (h : SameReceiving t t') (h' : SameReceiving t' t'') : SameReceiving t t'' :=
  ⟨h.toSameSettings.trans h'.toSameSettings, h'.channels.trans h.channels, h'.rxTargets.trans h.rxTargets⟩

theorem SameSending.setState (hs : t.channels.find? id = some s) (h : sendingPart s' = sendingPart s) :
    SameSending t (t.setState id s') := ⟨⟨rfl, rfl, rfl, rfl⟩, view_set hs h, rfl⟩

theorem SameReceiving.setState (hs : t.channels.find? id = some s) (h : receivingPart s' = receivingPart s) :
    SameReceiving t (t.setState id s') := ⟨⟨rfl, rfl, rfl, rfl⟩, view_set hs h, rfl⟩

/-- A part of the channels that is the same on both sides is the same for each channel. -/
theorem find?_of_view {β : Type} {f : ChannelState → β} (h : t'.channels.view f = t.channels.view f) (id : Int) :
    (t'.channels.find? id).map f = (t.channels.find? id).map f := by
  rw [← lookup_view, ← lookup_view, h]

/-- A channel keeps what opening reads and writes. -/
theorem SameReceiving.origin (h : SameReceiving t t') (hs' : t'.channels.find? id = some s') :
    ∃ s, t.channels.find? id = some s ∧ s.toWindow = s'.toWindow ∧ s.rx = s'.rx ∧ s.rxLimit = s'.rxLimit := by
  have hpart := find?_of_view h.channels id
  rw [hs'] at hpart
  obtain ⟨s, hs, heq⟩ := Option.map_eq_some_iff.mp hpart.symm
  exact ⟨s, hs, (Prod.mk.inj (Prod.mk.inj heq).2).imp_right Prod.mk.inj⟩

theorem skeleton_of_view {β : Type} {f : ChannelState → Reliability × β} (hf : ∀ s, (f s).1 = s.policy)
    (h : t'.channels.view f = t.channels.view f) : t'.skeleton = t.skeleton := by
  have hpol : ∀ t : MessageSecurity, t.skeleton = (t.channels.view f).map fun p => (p.1, p.2.1) := by
    intro t
    unfold skeleton Dict.view
    rw [map_map]
    apply map_congr_left
    intro e _
    exact congrArg (Prod.mk e.1) (hf e.2).symm
  rw [hpol, hpol, h]

theorem Alike.refl (t : MessageSecurity) : Alike t t := ⟨rfl, rfl, rfl, rfl⟩

theorem Alike.symm (h : Alike t t') : Alike t' t :=
  ⟨h.skeleton.symm, h.maximum.symm, h.keyEpoch.symm, h.wirePpid.symm⟩

theorem Alike.trans (h : Alike t t') (h' : Alike t' t'') : Alike t t'' :=
  ⟨h'.skeleton.trans h.skeleton, h'.maximum.trans h.maximum, h'.keyEpoch.trans h.keyEpoch, h'.wirePpid.trans h.wirePpid⟩

theorem SameSending.alike (h : SameSending t t') : Alike t t' :=
  ⟨skeleton_of_view (f := sendingPart) (fun _ => rfl) h.channels, h.maximum, h.keyEpoch, h.wirePpid⟩

theorem SameReceiving.alike (h : SameReceiving t t') : Alike t t' :=
  ⟨skeleton_of_view (f := receivingPart) (fun _ => rfl) h.channels, h.maximum, h.keyEpoch, h.wirePpid⟩

/-! ### `open_record` and `confirm_native_close` leave the sending half alone -/

variable (t)

variable (fra : Frame)

theorem conclude_sameSending : SameSending t (t.conclude fra).2 := by
  rcases conclude_cases t fra with
    ⟨heq, -⟩ | ⟨id, count, s, -, hs, heq⟩ | ⟨id, n, s, -, hs, -, -, heq⟩ | ⟨e, heq, -⟩ <;> rw [heq]
  · exact .refl t
  · exact .setState hs rfl
  · exact .setState hs rfl
  · exact .refl t

theorem openRecord_sameSending (C : Crypto) (t : MessageSecurity) (m : Message) :
    SameSending t (t.openRecord C m).2 := by
  unfold openRecord
  cases hchk : t.openChecks m with
  | error e => exact .refl t
  | ok s =>
    obtain ⟨hfd, -⟩ := openChecks_ok hchk
    dsimp only
    cases hdec : t.decode C s m with
    | error e => exact .refl t
    | ok p =>
      obtain ⟨frame, t₁, key, derived⟩ := p
      have hpar : SameSending t t₁ ∧ t₁.channels = t.channels := by
        rcases (decode_eq_ok hdec).2 with rfl | ⟨targets, -, rfl⟩
        · exact ⟨.refl _, rfl⟩
        · exact ⟨⟨⟨rfl, rfl, rfl, rfl⟩, rfl, rfl⟩, rfl⟩
      dsimp only
      split_ifs
      · exact hpar.1
      cases hrx : stepRx s (sequenceOf m / 4096) key derived with
      | error e => exact hpar.1
      | ok s₁ =>
        obtain ⟨rx, rfl⟩ := stepRx_eq_ok hrx
        have hfd' : t₁.channels.find? m.channel.id = some s := by
          rw [hpar.2]
          exact hfd
        refine (hpar.1.trans ?_).trans (conclude_sameSending _ frame)
        exact .setState hfd' rfl

theorem confirmNativeClose_sameSending (id : Int) : SameSending t (t.confirmNativeClose id).2 := by
  rcases confirmNativeClose_cases t id with ⟨e, heq⟩ | ⟨heq, -⟩ | ⟨s, count, -, hs, -, -, -, heq⟩ <;> rw [heq]
  · exact .refl t
  · exact .refl t
  · exact .setState hs rfl

/-! ### `seal` leaves the receiving half alone -/

theorem receivingPart_stepTx (C : Crypto) (s : ChannelState) : receivingPart (s.stepTx C) = receivingPart s := by
  unfold ChannelState.stepTx
  split <;> rfl

theorem sealedFrame_sameReceiving : SameReceiving t (t.sealedFrame fra) := by
  cases fra with
  | channelClose id =>
    simp only [sealedFrame]
    cases hfd : t.channels.find? id with
    | none => exact .refl t
    | some s => exact .setState hfd rfl
  | final => exact ⟨⟨rfl, rfl, rfl, rfl⟩, rfl, rfl⟩
  | _ => exact .refl t

variable {t}

theorem sealedRecord_sameReceiving {chn : Channel} (body : Bytes)
    (hs : t.channels.find? chn.id = some s) : SameReceiving t (sealedRecord C t fra chn body s) := by
  have hset : SameReceiving t (t.setState chn.id { s.stepTx C with sent := s.sent + 1 }) :=
    .setState hs (receivingPart_stepTx C s)
  have hbud : SameReceiving (t.setState chn.id { s.stepTx C with sent := s.sent + 1 })
      { t.setState chn.id { s.stepTx C with sent := s.sent + 1 } with
        budget := t.budget - t.overheadOf fra body.length
        overhead := t.overhead + t.overheadOf fra body.length } := ⟨⟨rfl, rfl, rfl, rfl⟩, rfl, rfl⟩
  exact (hset.trans hbud).trans (sealedFrame_sameReceiving _ fra)

theorem sealRecord_sameReceiving (C : Crypto) (t : MessageSecurity) (r : Bytes) :
    SameReceiving t (t.sealRecord C fra r).2 := by
  rcases sealRecord_cases C t fra r with ⟨e, hsm⟩ | ⟨channel, body, s, hprep, hmv | hseal⟩
  · rw [hsm]
    exact .refl t
  · rw [hmv]
    exact .setState hprep.found (receivingPart_stepTx C s)
  · rw [hseal]
    exact sealedRecord_sameReceiving fra body hprep.found

theorem close_alike (t : MessageSecurity) : Alike t t.close := by
  unfold close
  split
  · exact .refl t
  · exact ⟨view_mapValues _ fun _ => rfl, rfl, rfl, rfl⟩

theorem close_closed (t : MessageSecurity) : t.close.closed = true := by
  unfold close
  split
  · assumption
  · rfl

/-! ### `create` -/

/-- The key of a channel before any ratchet step. -/
def channelKey (C : Crypto) (key : Bytes) (id : Int) : Bytes :=
  C.derive key (utf8 (hex4 id.toNat)) (utf8 "S6EPE/3 message channel".toList)

/-- What `create` returns. -/
structure Created (C : Crypto) (receiveKey sendKey : Bytes) (channels : List Channel) (maxFrame keyEpoch wirePpid : Int)
    (t : MessageSecurity) : Prop where
  skeleton : t.skeleton = channels.map fun c => (c.id, c.reliability)
  states : ∀ id s, t.channels.find? id = some s →
    ∃ c, c.id = id ∧ s = newChannel C receiveKey sendKey c ∧ 0 ≤ id ∧ id < 65536
  bounded : t.Bounded
  maximum : t.maximum = maxFrame
  keyEpoch : t.keyEpoch = keyEpoch
  wirePpid : t.wirePpid = wirePpid
  txFinal : t.txFinal = false
  rxTargets : t.rxTargets = none
  closed : t.closed = false

theorem validateChannel_eq_ok {c : Channel} {u : Unit} (h : validateChannel c = .ok u) : 0 ≤ c.id ∧ c.id < 65536 := by
  obtain ⟨_, hid, -⟩ := bind_eq_ok.mp h
  have hid := raiseIf_eq_ok.mp hid
  omega

variable {cs : List Channel}

theorem admitChannels_eq_ok {k sk : Bytes} {tb tb' : Dict Int ChannelState}
    (h : admitChannels C k sk cs tb = .ok tb') :
    tb'.view ChannelState.policy = tb.view ChannelState.policy ++ cs.map (fun c => (c.id, c.reliability)) ∧
      ∀ id s, tb'.find? id = some s → tb.find? id = some s ∨
        ∃ c, c.id = id ∧ s = newChannel C k sk c ∧ 0 ≤ id ∧ id < 65536 := by
  induction cs generalizing tb with
  | nil =>
    cases h
    exact ⟨(append_nil _).symm, fun _ _ hfd => .inl hfd⟩
  | cons c cs ih =>
    obtain ⟨_, hval, h⟩ := bind_eq_ok.mp h
    obtain ⟨_, hnew, h⟩ := bind_eq_ok.mp h
    obtain ⟨hview, hstat⟩ := ih h
    constructor
    · rw [hview, view_set_absent _ _ (raiseIf_eq_ok.mp hnew), append_assoc]
      rfl
    · intro id s hfd
      rcases hstat id s hfd with hold | hlat
      · rcases find?_set_cases hold with ⟨rfl, rfl⟩ | ⟨-, hold⟩
        · exact .inr ⟨c, rfl, rfl, validateChannel_eq_ok hval⟩
        · exact .inl hold
      · exact .inr hlat

theorem create_eq_ok {receiveKey sendKey : Bytes} {maxFrame keyEpoch wirePpid paddingBlock shapingBudget : Int}
    (h : create C receiveKey sendKey cs maxFrame keyEpoch wirePpid paddingBlock shapingBudget = .ok t) :
    Created C receiveKey sendKey cs maxFrame keyEpoch wirePpid t := by
  obtain ⟨_, hadms, h⟩ := bind_eq_ok.mp h
  obtain ⟨table, htable, h⟩ := bind_eq_ok.mp h
  obtain ⟨_, hctl, h⟩ := bind_eq_ok.mp h
  cases h
  have hadms := raiseIf_eq_ok.mp hadms
  have hctl := not_not.mp (raiseIf_eq_ok.mp hctl)
  obtain ⟨hview, hstat⟩ := admitChannels_eq_ok htable
  have hstat' : ∀ id s, table.find? id = some s →
      ∃ c, c.id = id ∧ s = newChannel C receiveKey sendKey c ∧ 0 ≤ id ∧ id < 65536 := by
    intro id s hfd
    rcases hstat id s hfd with hold | hnew
    · cases hold
    · exact hnew
  have hsz : table.size = cs.length := by
    have hlen := congrArg List.length hview
    simpa [Dict.view, Dict.size, Dict.empty] using hlen
  refine ⟨hview, hstat', ⟨?_, ?_, ?_, ?_, ?_⟩, rfl, rfl, rfl, rfl, rfl, rfl⟩
  · intro id hid
    obtain ⟨s, hs⟩ := mem_iff_find?.mp hid
    obtain ⟨c, -, -, hrg⟩ := hstat' id s hs
    exact hrg
  · intro id s hs
    obtain ⟨c, -, rfl, -⟩ := hstat' id s hs
    show (0 : Int) ≤ 0 ∧ (0 : Int) ≤ 1000000
    decide
  · exact Option.map_eq_some_iff.mp hctl
  · show table.size ≤ 64
    omega
  · show maxFrame ≤ 65507
    omega

theorem Created.alike {k sk k' sk' : Bytes} {m ke wp : Int}
    (h : Created C k sk cs m ke wp t)
    (h' : Created C k' sk' cs m ke wp t') : Alike t t' :=
  ⟨h'.skeleton.trans h.skeleton.symm, h'.maximum.trans h.maximum.symm, h'.keyEpoch.trans h.keyEpoch.symm,
    h'.wirePpid.trans h.wirePpid.symm⟩

/-- Settings and channels of a context are bounded as those of another like it, if its counts are. -/
theorem Bounded.alike (h : t.Bounded) (hal : Alike t t')
    (hsn : ∀ id s, t'.channels.find? id = some s → 0 ≤ s.sent ∧ s.sent ≤ 1000000) : t'.Bounded where
  ids := by
    intro id hid
    exact h.ids id (mem_of_skeleton hal.skeleton.symm hid)
  sent := hsn
  control := by
    obtain ⟨s, hs, hpol⟩ := h.control
    obtain ⟨s', hs', hpol'⟩ := policy_of_skeleton hal.skeleton hs
    exact ⟨s', hs', hpol'.trans hpol⟩
  size := by
    rw [size_of_skeleton hal.skeleton]
    exact h.size
  maximum := by
    rw [hal.maximum]
    exact h.maximum

end MessageSecurity

/-! ## The pair -/

/-- The settings of a session, and its two contexts as they were created. -/
structure Pairing where
  crypto : Crypto
  lawful : crypto.Lawful
  /-- The key of this direction: the sender sends with it. -/
  forwardKey : Bytes
  /-- The key of the other direction. -/
  backwardKey : Bytes
  channels : List Channel
  maxFrame : Int
  keyEpoch : Int
  wirePpid : Int
  senderPadding : Int
  senderBudget : Int
  receiverPadding : Int
  receiverBudget : Int
  sender : MessageSecurity
  receiver : MessageSecurity
  create_sender : MessageSecurity.create crypto backwardKey forwardKey channels maxFrame keyEpoch wirePpid senderPadding
    senderBudget = .ok sender
  create_receiver : MessageSecurity.create crypto forwardKey backwardKey channels maxFrame keyEpoch wirePpid receiverPadding
    receiverBudget = .ok receiver

/-- A call on one of the contexts. -/
inductive Call where
  | sealRecord (frame : Frame) (random : RandomNonce)
  | openRecord (message : Message)
  | confirmNativeClose (id : Int)
  | close

inductive Act where
  | sender (call : Call)
  | receiver (call : Call)

/-- The two contexts, with what has happened: the records that the sender has sealed, the messages that the receiver
    was given, those it has accepted with the frames it returned, and the numbers that it has confirmed lost. -/
structure World where
  sender : MessageSecurity
  receiver : MessageSecurity
  log : List Entry
  opened : List Message
  accepted : List (Message × Frame)
  lost : List (Int × Int)

/-- What a call was answered with, if it was not refused. -/
def answered {α : Type} : Except Exn α → List α
  | .ok a => [a]
  | .error _ => []

namespace Pairing

open MessageSecurity

variable (P : Pairing)

def start : World := ⟨P.sender, P.receiver, [], [], [], []⟩

/-- A call of the sender. -/
def callSender (W : World) : Call → World
  | .sealRecord frame random =>
    let answer := W.sender.sealRecord P.crypto frame random.val
    { W with
      sender := answer.2
      log := W.log ++ (answered answer.1).map fun message => ⟨W.sender, frame, random, message⟩ }
  | .openRecord message => { W with sender := (W.sender.openRecord P.crypto message).2 }
  | .confirmNativeClose id => { W with sender := (W.sender.confirmNativeClose id).2 }
  | .close => { W with sender := W.sender.close }

/-- A call of the receiver. -/
def callReceiver (W : World) : Call → World
  | .sealRecord frame random => { W with receiver := (W.receiver.sealRecord P.crypto frame random.val).2 }
  | .openRecord message =>
    let answer := W.receiver.openRecord P.crypto message
    { W with
      receiver := answer.2
      opened := W.opened ++ [message]
      accepted := W.accepted ++ (answered answer.1).map fun frame => (message, frame) }
  | .confirmNativeClose id =>
    let answer := W.receiver.confirmNativeClose id
    { W with
      receiver := answer.2
      lost := W.lost ++ (answered answer.1).flatMap fun _ => (W.receiver.lostBy id).map fun n => (id, n) }
  | .close => { W with receiver := W.receiver.close }

def step (W : World) : Act → World
  | .sender call => P.callSender W call
  | .receiver call => P.callReceiver W call

def run (acts : List Act) : World := acts.foldl P.step P.start

theorem created_sender : Created P.crypto P.backwardKey P.forwardKey P.channels P.maxFrame P.keyEpoch P.wirePpid P.sender :=
  create_eq_ok P.create_sender

theorem created_receiver :
    Created P.crypto P.forwardKey P.backwardKey P.channels P.maxFrame P.keyEpoch P.wirePpid P.receiver :=
  create_eq_ok P.create_receiver

theorem alike : P.sender.Alike P.receiver := P.created_sender.alike P.created_receiver

end Pairing

/-! ## What the sender has sealed -/

namespace MessageSecurity

variable {C : Crypto} {t t' : MessageSecurity} {ch : Channel} {frm : Frame} {body : Bytes} {s : ChannelState}
  {id : Int}

/-- The number of records sealed for a channel. -/
def sentOf (t : MessageSecurity) (id : Int) : Int := (t.channels.find? id).elim 0 fun s => s.sent

/-- The data of a channel has been closed by its sender. -/
def closedOf (t : MessageSecurity) (id : Int) : Bool := (t.channels.find? id).elim false fun s => s.txClosed

theorem sentOf_eq (hs : t.channels.find? id = some s) : t.sentOf id = s.sent := by
  unfold sentOf
  rw [hs]
  rfl

theorem closedOf_eq (hs : t.channels.find? id = some s) : t.closedOf id = s.txClosed := by
  unfold closedOf
  rw [hs]
  rfl

/-- The sending ratchet of a channel is at the epoch of its next record, or has one step left to it. -/
structure Ratcheted (C : Crypto) (base : Bytes) (s : ChannelState) : Prop where
  nonneg : 0 ≤ s.tx.epoch
  behind : s.tx.epoch ≤ s.sent / 4096
  next : s.sent / 4096 ≤ s.tx.epoch + 1
  key : s.tx.key = C.nextKey^[s.tx.epoch.toNat] base

/-- After the step it is at that epoch, with its key. -/
theorem Ratcheted.stepTx {base : Bytes} (h : Ratcheted C base s) :
    (s.stepTx C).tx.epoch = s.sent / 4096 ∧ (s.stepTx C).tx.key = C.nextKey^[(s.sent / 4096).toNat] base := by
  have hnn := h.nonneg
  have hbeh := h.behind
  have hnx := h.next
  unfold ChannelState.stepTx
  split_ifs with hmove
  · have hep : (s.sent / 4096).toNat = s.tx.epoch.toNat + 1 := by omega
    refine ⟨rfl, ?_⟩
    rw [hep, Function.iterate_succ_apply', h.key]
  · have hep : s.tx.epoch = s.sent / 4096 := by omega
    exact ⟨hep, by rw [h.key, hep]⟩

theorem stepTx_txClosed (C : Crypto) (s : ChannelState) : (s.stepTx C).txClosed = s.txClosed := by
  unfold ChannelState.stepTx
  split <;> rfl

/-- What a call may do to the sending half of a channel: the count grows within its bound, the mark of a close stays, and
    in an open context the ratchet follows the count. -/
structure Grown (C : Crypto) (base : Bytes) (opened : Prop) (x x' : ChannelState) : Prop where
  sent : x.sent ≤ x'.sent
  bound : x'.sent ≤ 1000000
  closed : x.txClosed = true → x'.txClosed = true
  ratchet : opened → Ratcheted C base x'

/-- A close is noted in the channel that it names. -/
def notedState (frame : Frame) (id : Int) (x : ChannelState) : ChannelState :=
  if frame = .channelClose id then { x with txClosed := true } else x

theorem find?_sealedFrame (t : MessageSecurity) (fra : Frame) (id : Int) :
    (t.sealedFrame fra).channels.find? id = (t.channels.find? id).map (notedState fra id) := by
  have hoth : fra ≠ .channelClose id → t.channels.find? id = (t.channels.find? id).map (notedState fra id) := by
    intro hne
    cases t.channels.find? id with
    | none => rfl
    | some x =>
      rw [Option.map_some, notedState, if_neg hne]
  cases fra with
  | channelClose id' =>
    simp only [sealedFrame]
    by_cases hid : id = id'
    · subst hid
      cases hfd : t.channels.find? id with
      | none =>
        rw [hfd]
        rfl
      | some x =>
        dsimp only [setState]
        rw [find?_set_self, Option.map_some, notedState, if_pos rfl]
    have hne : Frame.channelClose id' ≠ .channelClose id := by
      rintro ⟨⟩
      exact hid rfl
    cases hfd : t.channels.find? id' with
    | none => exact hoth hne
    | some x =>
      dsimp only [setState]
      rw [find?_set_of_ne _ _ hid]
      exact hoth hne
  | _ => exact hoth (by rintro ⟨⟩)

/-- The state of a channel after a record was sealed. -/
def sealedState (C : Crypto) (frame : Frame) (channel : Channel) (id : Int) (x : ChannelState) : ChannelState :=
  notedState frame id (if id = channel.id then { x.stepTx C with sent := x.sent + 1 } else x)

theorem find?_sealedRecord (hs : t.channels.find? ch.id = some s) (fra : Frame) (body : Bytes) (id : Int) :
    (sealedRecord C t fra ch body s).channels.find? id =
      (t.channels.find? id).map (sealedState C fra ch id) := by
  unfold sealedRecord
  rw [find?_sealedFrame]
  dsimp only [setState]
  rw [find?_set]
  by_cases hid : id = ch.id
  · rw [if_pos hid, hid, hs, Option.map_some, Option.map_some, sealedState, if_pos rfl]
  rw [if_neg hid]
  cases t.channels.find? id with
  | none => rfl
  | some x => rw [Option.map_some, Option.map_some, sealedState, if_neg hid]

variable (x : ChannelState)

theorem sealedState_sent : (sealedState C frm ch id x).sent = x.sent + if id = ch.id then 1 else 0 := by
  unfold sealedState notedState
  split_ifs
  · rfl
  · exact (Int.add_zero _).symm
  · rfl
  · exact (Int.add_zero _).symm

theorem sealedState_tx : (sealedState C frm ch id x).tx = if id = ch.id then (x.stepTx C).tx else x.tx := by
  unfold sealedState notedState
  split_ifs <;> rfl

theorem sealedState_closed (h : x.txClosed = true ∨ frm = .channelClose id) :
    (sealedState C frm ch id x).txClosed = true := by
  unfold sealedState notedState
  split_ifs with hcls hid
  · rfl
  · rfl
  · exact (stepTx_txClosed C x).trans (h.resolve_right hcls)
  · exact h.resolve_right hcls

theorem sealedRecord_txFinal (h : t.txFinal = true ∨ frm = .final) :
    (sealedRecord C t frm ch body s).txFinal = true := by
  have hnoted : ∀ t' : MessageSecurity, t'.txFinal = t.txFinal → (t'.sealedFrame frm).txFinal = true := by
    intro t' hsm
    cases frm with
    | final => rfl
    | channelClose id =>
      simp only [sealedFrame]
      split
      · exact hsm.trans (h.resolve_right (by rintro ⟨⟩))
      · exact hsm.trans (h.resolve_right (by rintro ⟨⟩))
    | _ => exact hsm.trans (h.resolve_right (by rintro ⟨⟩))
  exact hnoted _ rfl

end MessageSecurity

namespace Entry

open MessageSecurity

/-- `e` was sealed before `e'`: the counts have grown, nothing follows a final, and what follows the close of a channel
    is no data of it. -/
structure Before (e e' : Entry) : Prop where
  number : e.number < e'.before.sentOf e.id
  sent : ∀ id, e.before.sentOf id ≤ e'.before.sentOf id
  unfinished : e.frame ≠ .final
  closes : ∀ id, e.frame = .channelClose id →
    e'.frame ≠ .channelClose id ∧ ∀ message, e'.frame = .data message → message.channel.id ≠ id

end Entry

namespace Pairing

open MessageSecurity

/-- The key of an epoch of a channel, in this direction. -/
def epochKey (P : Pairing) (id epoch : Int) : Bytes :=
  P.crypto.nextKey^[epoch.toNat] (channelKey P.crypto P.forwardKey id)

/-- The sender, towards the records it has sealed. -/
structure Sending (P : Pairing) (t : MessageSecurity) (log : List Entry) : Prop where
  alike : P.sender.Alike t
  range : ∀ id s, t.channels.find? id = some s → 0 ≤ s.sent ∧ s.sent ≤ 1000000
  ratchet : t.closed = false → ∀ id s, t.channels.find? id = some s →
    Ratcheted P.crypto (channelKey P.crypto P.forwardKey id) s
  below : ∀ e ∈ log, e.number < t.sentOf e.id
  sent : ∀ e ∈ log, ∀ id, e.before.sentOf id ≤ t.sentOf id
  closes : ∀ e ∈ log, ∀ id, e.frame = .channelClose id → t.closedOf id = true
  finals : ∀ e ∈ log, e.frame = .final → t.txFinal = true

/-- A record that the sender has sealed, with the key of its epoch. -/
structure Authentic (P : Pairing) (e : Entry) : Prop where
  alike : P.sender.Alike e.before
  made : ∃ body s, e.Made P.crypto body s
  key : e.key P.crypto = some (P.epochKey e.id (e.number / 4096))

/-- The records of a run are authentic and in the order in which they were sealed. -/
structure Ledger (P : Pairing) (W : World) : Prop where
  sending : P.Sending W.sender W.log
  authentic : ∀ e ∈ W.log, P.Authentic e
  ordered : W.log.Pairwise Entry.Before

variable {P : Pairing} {W : World} {t t' : MessageSecurity} {log : List Entry}

section

variable (h : P.Sending t log)
include h

theorem Sending.bounded : t.Bounded := P.created_sender.bounded.alike h.alike h.range

theorem Sending.kept {id : Int} {x : ChannelState} (hx : t.channels.find? id = some x) :
    Grown P.crypto (channelKey P.crypto P.forwardKey id) (t.closed = false) x x :=
  ⟨le_refl _, (h.range id x hx).2, fun hcl => hcl, fun ho => h.ratchet ho id x hx⟩

omit h in
/-- The counts of all channels grow and the marks stay. -/
theorem Grown.counts (hal : t.Alike t') (hstat : ∀ id x', t'.channels.find? id = some x' → ∃ x,
      t.channels.find? id = some x ∧ Grown P.crypto (channelKey P.crypto P.forwardKey id) (t'.closed = false) x x')
    (id : Int) : t.sentOf id ≤ t'.sentOf id ∧ (t.closedOf id = true → t'.closedOf id = true) := by
  cases hx' : t'.channels.find? id with
  | some x' =>
    obtain ⟨x, hx, hgrown⟩ := hstat id x' hx'
    rw [sentOf_eq hx, sentOf_eq hx', closedOf_eq hx, closedOf_eq hx']
    exact ⟨hgrown.sent, hgrown.closed⟩
  | none =>
    have hx : t.channels.find? id = none := not_mem_iff_find?.mp fun hmem =>
      not_mem_iff_find?.mpr hx' (mem_of_skeleton hal.skeleton hmem)
    simp [sentOf, closedOf, hx, hx']

theorem Sending.grows (hal : t.Alike t') (hfin : t.txFinal = true → t'.txFinal = true)
    (hstat : ∀ id x', t'.channels.find? id = some x' → ∃ x, t.channels.find? id = some x ∧
      Grown P.crypto (channelKey P.crypto P.forwardKey id) (t'.closed = false) x x') : P.Sending t' log where
  alike := h.alike.trans hal
  range id x' hx' := by
    obtain ⟨x, hx, hgrown⟩ := hstat id x' hx'
    exact ⟨(h.range id x hx).1.trans hgrown.sent, hgrown.bound⟩
  ratchet ho id x' hx' := by
    obtain ⟨x, -, hgrown⟩ := hstat id x' hx'
    exact hgrown.ratchet ho
  below e he := (h.below e he).trans_le (Grown.counts hal hstat e.id).1
  sent e he id := (h.sent e he id).trans (Grown.counts hal hstat id).1
  closes e he id hcls := (Grown.counts hal hstat id).2 (h.closes e he id hcls)
  finals e he heq := hfin (h.finals e he heq)

theorem Sending.same (hsm : SameSending t t') : P.Sending t' log := by
  refine h.grows hsm.alike (fun hfin => hsm.txFinal.trans hfin) fun id x' hx' => ?_
  have hpart := find?_of_view hsm.channels id
  rw [hx'] at hpart
  obtain ⟨x, hx, heq⟩ := Option.map_eq_some_iff.mp hpart.symm
  obtain ⟨-, htx, hsn, hcl⟩ : x.policy = x'.policy ∧ x.tx = x'.tx ∧ x.sent = x'.sent ∧ x.txClosed = x'.txClosed := by
    simpa [sendingPart] using heq
  refine ⟨x, hx, hsn.le, hsn ▸ (h.range id x hx).2, hcl.symm.trans, fun ho => ?_⟩
  obtain ⟨hnn, hbeh, hnx, hkey⟩ := h.ratchet (hsm.closed ▸ ho) id x hx
  rw [hsn, htx] at hbeh hnx
  rw [htx] at hnn hkey
  exact ⟨hnn, hbeh, hnx, hkey⟩

/-- The ratchet has moved, and the record was refused for its overhead. -/
theorem Sending.moved {id : Int} {s : ChannelState} (hs : t.channels.find? id = some s) :
    P.Sending (t.setState id (s.stepTx P.crypto)) log := by
  refine h.grows (SameReceiving.setState hs (receivingPart_stepTx _ s)).alike (fun hfin => hfin) fun id' x' hx' => ?_
  rcases find?_set_cases hx' with ⟨rfl, rfl⟩ | ⟨-, hx⟩
  · have hrg := h.range id' s hs
    have hsn := stepTx_sent P.crypto s
    refine ⟨s, hs, hsn.ge, hsn ▸ hrg.2, (stepTx_txClosed _ s).trans, fun ho => ?_⟩
    obtain ⟨hep, hkey⟩ := (h.ratchet ho id' s hs).stepTx
    exact ⟨by omega, by rw [hep, hsn], by rw [hep, hsn]; omega, by rw [hep]; exact hkey⟩
  · exact ⟨x', hx, h.kept hx⟩

theorem Sending.sealed {fra : Frame} {chn : Channel} {body : Bytes} {s : ChannelState} {r : RandomNonce}
    (hprep : Prepared t fra chn body s)
    (hnum : sequenceOf (record P.crypto t r.val chn body s) = s.sent) :
    P.Sending (sealedRecord P.crypto t fra chn body s)
      (log ++ [⟨t, fra, r, record P.crypto t r.val chn body s⟩]) := by
  have hfd := find?_sealedRecord (C := P.crypto) hprep.found fra body
  have hrcv := sealedRecord_sameReceiving (C := P.crypto) fra body hprep.found
  have hstat : ∀ id x', (sealedRecord P.crypto t fra chn body s).channels.find? id = some x' →
      ∃ x, t.channels.find? id = some x ∧ Grown P.crypto (channelKey P.crypto P.forwardKey id)
        ((sealedRecord P.crypto t fra chn body s).closed = false) x x' := by
    intro id x' hx'
    rw [hfd] at hx'
    obtain ⟨x, hx, rfl⟩ := Option.map_eq_some_iff.mp hx'
    have hrg := h.range id x hx
    refine ⟨x, hx, ?_, ?_, fun hcl => sealedState_closed x (.inl hcl), fun ho => ?_⟩
    · rw [sealedState_sent]
      split_ifs <;> omega
    · rw [sealedState_sent]
      split_ifs with hid
      · rw [hid, hprep.found] at hx
        cases hx
        have hroom := hprep.room
        omega
      · omega
    have hrat := h.ratchet (hrcv.closed ▸ ho) id x hx
    obtain ⟨hep, hkey⟩ := hrat.stepTx
    obtain ⟨hnn, hbeh, hnx, hkey'⟩ := hrat
    refine ⟨?_, ?_, ?_, ?_⟩
    all_goals
      rw [sealedState_tx]
      try rw [sealedState_sent]
      split_ifs
    · omega
    · omega
    · omega
    · omega
    · omega
    · omega
    · rw [hkey, hep]
    · exact hkey'
  have hold := h.grows hrcv.alike (fun hfin => sealedRecord_txFinal (.inl hfin)) hstat
  refine ⟨hold.alike, hold.range, hold.ratchet, forall_mem_append.mpr ⟨hold.below, ?_⟩,
    forall_mem_append.mpr ⟨hold.sent, ?_⟩, forall_mem_append.mpr ⟨hold.closes, ?_⟩,
    forall_mem_append.mpr ⟨hold.finals, ?_⟩⟩ <;> rw [forall_mem_singleton]
  · have hnew := hfd chn.id
    rw [hprep.found] at hnew
    show sequenceOf (record P.crypto t r.val chn body s) < sentOf _ chn.id
    rw [hnum, sentOf_eq hnew, sealedState_sent, if_pos rfl]
    omega
  · exact fun id => (Grown.counts hrcv.alike hstat id).1
  · intro id hcls
    obtain rfl : fra = .channelClose id := hcls
    obtain ⟨-, x, hx, -⟩ := hprep.admits.1
    have hnew := hfd id
    rw [hx] at hnew
    rw [closedOf_eq hnew]
    exact sealedState_closed x (.inr rfl)
  · exact fun hfin => sealedRecord_txFinal (.inr hfin)

theorem Sending.close : P.Sending t.close log := by
  by_cases hcl : t.closed = true
  · have hsm : t.close = t := if_pos hcl
    rw [hsm]
    exact h
  refine h.grows t.close_alike ?_ fun id x' hx' => ?_
  · rw [MessageSecurity.close, if_neg hcl]
    exact fun hfin => hfin
  rw [MessageSecurity.close, if_neg hcl, find?_mapValues] at hx'
  obtain ⟨x, hx, rfl⟩ := Option.map_eq_some_iff.mp hx'
  refine ⟨x, hx, le_refl _, (h.range id x hx).2, fun hmark => hmark, fun ho => ?_⟩
  rw [t.close_closed] at ho
  cases ho

/-- The record that is sealed next is authentic and comes after the others. -/
theorem Sending.next {fra : Frame} {chn : Channel} {body : Bytes} {s : ChannelState} (r : RandomNonce)
    (hprep : Prepared t fra chn body s) :
    P.Authentic ⟨t, fra, r, record P.crypto t r.val chn body s⟩ ∧
      sequenceOf (record P.crypto t r.val chn body s) = s.sent ∧
      ∀ e ∈ log, e.Before ⟨t, fra, r, record P.crypto t r.val chn body s⟩ := by
  have hmade : Entry.Made P.crypto ⟨t, fra, r, record P.crypto t r.val chn body s⟩ body s :=
    ⟨hprep, rfl, h.bounded⟩
  have hrat := h.ratchet hprep.opened chn.id s hprep.found
  refine ⟨⟨h.alike, ⟨body, s, hmade⟩, ?_⟩, hmade.number, ?_⟩
  · rw [hmade.key, hmade.number, hrat.stepTx.2]
    rfl
  intro e he
  refine ⟨h.below e he, h.sent e he, ?_, ?_⟩
  · intro hfin
    have hmark := h.finals e he hfin
    rw [hprep.unfinished] at hmark
    cases hmark
  intro id hcls
  have hmark := h.closes e he id hcls
  have hadm := hprep.admits.1
  constructor
  · intro hag
    obtain rfl : fra = .channelClose id := hag
    obtain ⟨-, x, hx, ho⟩ := hadm
    rw [closedOf_eq hx, ho] at hmark
    cases hmark
  · rintro message hdt rfl
    obtain rfl : fra = .data message := hdt
    obtain ⟨-, x, hx, ho, -⟩ := hadm
    rw [closedOf_eq hx, ho] at hmark
    cases hmark

end

theorem Ledger.callSender (h : P.Ledger W) (cl : Call) : P.Ledger (P.callSender W cl) := by
  cases cl with
  | openRecord message =>
    exact ⟨h.sending.same (openRecord_sameSending _ _ _), h.authentic, h.ordered⟩
  | confirmNativeClose id =>
    exact ⟨h.sending.same (confirmNativeClose_sameSending _ _), h.authentic, h.ordered⟩
  | close => exact ⟨h.sending.close, h.authentic, h.ordered⟩
  | sealRecord frame r =>
    unfold Pairing.callSender
    dsimp only
    rcases sealRecord_cases P.crypto W.sender frame r.val with
      ⟨e, hsm⟩ | ⟨channel, body, s, hprep, hmv | hseal⟩
    · rw [hsm]
      show P.Ledger { W with sender := W.sender, log := W.log ++ [] }
      rw [append_nil]
      exact h
    · rw [hmv]
      show P.Ledger { W with sender := W.sender.setState channel.id (s.stepTx P.crypto), log := W.log ++ [] }
      rw [append_nil]
      exact ⟨h.sending.moved hprep.found, h.authentic, h.ordered⟩
    rw [hseal]
    obtain ⟨hauth, hnum, hbef⟩ := h.sending.next r hprep
    refine ⟨h.sending.sealed hprep hnum, ?_, ?_⟩
    · exact forall_mem_append.mpr ⟨h.authentic, forall_mem_singleton.mpr hauth⟩
    · refine pairwise_append.mpr ⟨h.ordered, pairwise_singleton _ _, ?_⟩
      intro e he e' he'
      rw [mem_singleton.mp he']
      exact hbef e he

theorem Ledger.step (h : P.Ledger W) (a : Act) : P.Ledger (P.step W a) := by
  cases a with
  | sender call => exact h.callSender call
  | receiver call =>
    -- the receiver touches neither the sender nor its log
    cases call with
    | sealRecord frame r | openRecord message | confirmNativeClose id | close => exact { h with }

theorem ledger_start (P : Pairing) : P.Ledger P.start := by
  have hcre := P.created_sender
  refine ⟨⟨.refl _, hcre.bounded.sent, ?_, ?_, ?_, ?_, ?_⟩, ?_, .nil⟩
  · intro _ id s hs
    obtain ⟨c, rfl, rfl, -⟩ := hcre.states id s hs
    exact ⟨le_refl 0, le_refl 0, (by decide : (0 : Int) / 4096 ≤ 0 + 1), rfl⟩
  all_goals
    intro e he
    cases he

/-- **The records of every run are authentic and ordered.** -/
theorem ledger_run (P : Pairing) (ac : List Act) : P.Ledger (P.run ac) :=
  foldl_invariant (fun _ a h => h.step a) P.ledger_start ac

/-! ## The order of the records -/

variable {e e' : Entry} {id : Int}

theorem sentOf_le_countOf (t : MessageSecurity) (id : Int) : t.sentOf id ≤ t.countOf id := by
  unfold sentOf countOf
  cases t.channels.find? id with
  | none => exact le_refl _
  | some s =>
    show s.sent ≤ s.sent + if id = 0 then 1 else 0
    split_ifs <;> omega

/-- A count covers the control record itself, which goes to channel 0. -/
theorem countOf_of_ne (t : MessageSecurity) (hid : id ≠ 0) : t.countOf id = t.sentOf id := by
  unfold sentOf countOf
  cases t.channels.find? id with
  | none => rfl
  | some s =>
    show s.sent + (if id = 0 then 1 else 0) = s.sent
    rw [if_neg hid, Int.add_zero]

theorem Authentic.number_eq (h : P.Authentic e) : e.number = e.before.sentOf e.id := by
  obtain ⟨body, s, hmade⟩ := h.made
  rw [hmade.number, sentOf_eq hmade.found]

theorem Authentic.number_nonneg (h : P.Authentic e) : 0 ≤ e.number := by
  obtain ⟨body, s, hmade⟩ := h.made
  rw [hmade.number]
  exact hmade.sent_range.1

theorem Authentic.data_of_ne (h : P.Authentic e) (hid : e.id ≠ 0) :
    ∃ message, e.frame = .data message ∧ message.channel.id = e.id := by
  obtain ⟨body, s, hmade⟩ := h.made
  have hadm := hmade.prepared.admits.1
  have hctl : e.message.channel ≠ control := by
    intro heq
    exact hid (congrArg Channel.id heq)
  cases hfr : e.frame with
  | data message =>
    rw [hfr] at hadm
    exact ⟨message, rfl, (congrArg Channel.id hadm.1).symm⟩
  | reset | channelClose | discard =>
    rw [hfr] at hadm
    exact absurd hadm.1 hctl
  | final | cover =>
    rw [hfr] at hadm
    exact absurd hadm hctl
  | resetConfirmed | channelCloseConfirmed =>
    rw [hfr] at hadm
    exact hadm.elim

theorem Ledger.compare (h : P.Ledger W) (he : e ∈ W.log) (he' : e' ∈ W.log) : e = e' ∨ e.Before e' ∨ e'.Before e := by
  by_cases heq : e = e'
  · exact .inl heq
  have hsymm : Std.Symm fun x y : Entry => x.Before y ∨ y.Before x := ⟨fun _ _ hxy => hxy.symm⟩
  have hpairs : W.log.Pairwise fun x y => x.Before y ∨ y.Before x := h.ordered.imp fun hbef => Or.inl hbef
  exact .inr (hpairs.forall he he' heq)

theorem Ledger.eq_of_number (h : P.Ledger W) (he : e ∈ W.log) (he' : e' ∈ W.log) (hid : e.id = e'.id)
    (hnum : e.number = e'.number) : e = e' := by
  have hown := (h.authentic e he).number_eq
  have hown' := (h.authentic e' he').number_eq
  rcases h.compare he he' with heq | hbef | haft
  · exact heq
  · have hlt := hbef.number
    rw [hid, ← hown'] at hlt
    omega
  have hlt := haft.number
  rw [← hid, ← hown] at hlt
  omega

/-- **The count of a close or a final bounds the numbers of the channel**, whenever they are sealed. -/
theorem Ledger.ended (h : P.Ledger W) (he : e ∈ W.log) (hfr : e.frame = .channelClose id ∨ e.frame = .final)
    (hid : id ≠ 0) (he' : e' ∈ W.log) (hid' : e'.id = id) : e'.number < e.before.countOf id := by
  rw [countOf_of_ne _ hid]
  obtain ⟨message, hdt, hch⟩ := (h.authentic e' he').data_of_ne (hid'.trans_ne hid)
  rcases h.compare he' he with heq | hbef | haft
  · rw [← heq, hdt] at hfr
    rcases hfr with hfr | hfr <;> cases hfr
  · rw [← hid']
    exact hbef.number
  -- no data of the channel is sealed any more
  rcases hfr with hcls | hfin
  · exact absurd (hch.trans hid') ((haft.closes id hcls).2 message hdt)
  · exact absurd hfin haft.unfinished

/-- **What a sender seals.** The numbers of a channel grow, a record has the key of its epoch, nothing follows a final,
    and no data of a channel follows its close. -/
theorem sealed_in_order (P : Pairing) (acts : List Act) :
    ((P.run acts).log.Pairwise fun e e' => (e.id = e'.id → e.number < e'.number) ∧ e.frame ≠ .final ∧
      ∀ id, e.frame = .channelClose id → ∀ message, e'.frame = .data message → message.channel.id ≠ id) ∧
    ∀ e ∈ (P.run acts).log, e.key P.crypto = some (P.epochKey e.id (e.number / 4096)) := by
  have h := P.ledger_run acts
  refine ⟨h.ordered.imp_of_mem ?_, fun e he => (h.authentic e he).key⟩
  intro e e' _ he' hbef
  refine ⟨fun hid => ?_, hbef.unfinished, fun id hcls => (hbef.closes id hcls).2⟩
  have hlt := hbef.number
  rwa [hid, ← (h.authentic e' he').number_eq] at hlt

end Pairing

end Shadow6.PrivacyEnvelope
