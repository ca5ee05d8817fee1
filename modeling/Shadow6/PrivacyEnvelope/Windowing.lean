import Shadow6.PrivacyEnvelope.Evidence

/-!
# `PrivacyEnvelope.Windowing` — which authentic records the receiver refuses

The receiver checks a record three times for its number: against the frontier and the highest number, against the
numbers seen, and against the epoch of its ratchet. The three go together as long as the ratchet is not left behind
(`Lag`) and every number that is used has been accepted, discarded or confirmed lost (`Tally`).

Discards move the window without the ratchet, and a discard beyond the window is refused after it was marked. So both
invariants are those of runs in which the discards keep near: to the ratchet (`Moderate`) and to the frontier (`Near`).
-/

namespace Shadow6.PrivacyEnvelope

open Library Library.Json List

namespace MessageSecurity

def frontierOf (t : MessageSecurity) (id : Int) : Int := (t.channels.find? id).elim 0 fun s => s.frontier

/-- The epoch of the receiving ratchet. -/
def rxEpochOf (t : MessageSecurity) (id : Int) : Int := (t.channels.find? id).elim 0 fun s => s.rx.epoch

variable {t : MessageSecurity} {id : Int} {s : ChannelState}

theorem frontierOf_eq (hs : t.channels.find? id = some s) : t.frontierOf id = s.frontier := by
  unfold frontierOf
  rw [hs]
  rfl

theorem rxEpochOf_eq (hs : t.channels.find? id = some s) : t.rxEpochOf id = s.rx.epoch := by
  unfold rxEpochOf
  rw [hs]
  rfl

end MessageSecurity

/-- If the frame is a discard, its channel and number meet `p`. -/
def Frame.Discarding (p : Int → Int → Prop) : Frame → Prop
  | .discard id n => p id n
  | _ => True

instance (p : Int → Int → Prop) [∀ id n, Decidable (p id n)] : ∀ frame : Frame, Decidable (frame.Discarding p)
  | .discard id n => inferInstanceAs (Decidable (p id n))
  | .data _ | .reset _ | .channelClose _ | .final | .cover | .resetConfirmed _ _ | .channelCloseConfirmed _ _ =>
    inferInstanceAs (Decidable True)

namespace Pairing

open MessageSecurity

variable {P : Pairing} {W W' : World} {e : Entry} {m : Message} {s : ChannelState} {a : Act} {id : Int}

/-! ## Conditions on the discards -/

/-- The discards that the receiver opens meet `p` in its state before the call. -/
def Discards (p : MessageSecurity → Int → Int → Prop) (W : World) : Act → Prop
  | .receiver (.openRecord m) => ∀ e ∈ W.log, e.message.Carries m → e.frame.Discarding (p W.receiver)
  | _ => True

instance (p : MessageSecurity → Int → Int → Prop) [∀ t id n, Decidable (p t id n)] (W : World) :
    ∀ a, Decidable (Discards p W a)
  | .receiver (.openRecord _) => inferInstanceAs (Decidable (∀ e ∈ _, _ → Frame.Discarding _ _))
  | .receiver (.sealRecord _ _) | .receiver (.confirmNativeClose _) | .receiver .close | .sender _ =>
    inferInstanceAs (Decidable True)

/-- Discards run at most fifteen epochs ahead of the ratchet of their channel. -/
def Moderate : World → Act → Prop := Discards fun t id n => (n + 1) / 4096 ≤ t.rxEpochOf id + 15

/-- Discards stay within the window of their channel. -/
def Near : World → Act → Prop := Discards fun t id n => n ≤ t.frontierOf id + window

instance (W : World) (a : Act) : Decidable (Near W a) :=
  inferInstanceAs (Decidable (Discards (fun t id n => n ≤ t.frontierOf id + window) W a))

theorem Discards.apply {p : MessageSecurity → Int → Int → Prop} {n : Int} (h : Discards p W (.receiver (.openRecord m)))
    (he : e ∈ W.log) (hm : e.message.Carries m) (hfr : e.frame = .discard id n) : p W.receiver id n := by
  have hmeets := h e he hm
  rw [hfr] at hmeets
  exact hmeets

/-! ## The ratchet is not left behind -/

/-- A close or a final has ended the channel, and the receiver is past its count. -/
def Finished (log : List Entry) (id frontier : Int) : Prop :=
  id ≠ 0 ∧ ∃ e ∈ log, (e.frame = .channelClose id ∨ e.frame = .final) ∧ e.before.countOf id ≤ frontier

theorem Finished.mono {log log' : List Entry} {frontier frontier' : Int} (h : Finished log id frontier)
    (hlog : log ⊆ log') (hfron : frontier ≤ frontier') : Finished log' id frontier' := by
  obtain ⟨hid, e, he, hfr, hcnt⟩ := h
  exact ⟨hid, e, hlog he, hfr, hcnt.trans hfron⟩

/-- The next number is at most fifteen epochs ahead of the ratchet, unless the channel is finished. -/
def Lag (W : World) : Prop :=
  W.receiver.closed = false → ∀ id s, W.receiver.channels.find? id = some s →
    (s.highest + 1) / 4096 ≤ s.rx.epoch + 15 ∨ Finished W.log id s.frontier

/-- A channel that a native close cuts off is not the control channel, and its sender has ended it at the count. -/
theorem Settled.cut_finished {count : Int} (h : P.Settled W) (hev : W.receiver.closeEvidence id = .ok (s, count))
    (hpol : s.policy ≠ .reliable) : Finished W.log id count := by
  have hs := closeEvidence_ok hev
  constructor
  · rintro rfl
    obtain ⟨x, hx, hrel⟩ := P.created_sender.bounded.control
    exact hpol ((policy_eq_of_skeleton h.receiving.alike.skeleton hx hs).trans hrel)
  · obtain ⟨e, he, -, hfr, rfl⟩ := h.count_heard hev
    exact ⟨e, he, hfr, le_refl _⟩

theorem Lag.moved (h : Lag W) (hset : P.Settled W) (hmod : Moderate W a) (hmv : Moved W a W') : Lag W' := by
  intro ho id s' hs'
  cases hmv with
  | closed hcl =>
    rw [hcl] at ho
    cases ho
  | quiet hlog _ hsm _ _ =>
    obtain ⟨s, hs, hwin, hrx, -⟩ := hsm.origin hs'
    rw [← hwin, ← hrx]
    exact (h (hsm.closed ▸ ho) id s hs).imp_right fun hfin => hfin.mono hlog (le_refl _)
  | opened e m answer ha he hm hmark hlog _ _ _ =>
    subst ha
    obtain ⟨s, hs, heff⟩ := hmark.states id s' hs'
    have hgr := heff.epoch
    have hbef := h (hmark.closed ▸ ho) id s hs
    rw [hlog, heff.numbers]
    rcases hbef with hlag | hfin
    · -- the number of the record itself moves the ratchet
      have harr : ((e.arrived id s.toWindow).highest + 1) / 4096 ≤ s'.rx.epoch + 15 := by
        rcases e.arrived_highest id s.toWindow with heq | ⟨hid, heq⟩
        · omega
        · have hown := heff.own hid
          omega
      left
      rcases e.concluded_cases id s.toWindow with hwin | ⟨n, hfr, hwin⟩
      · rw [hwin]
        exact harr
      -- a discard moves the highest number alone
      have hnear := Discards.apply hmod he hm hfr
      rw [rxEpochOf_eq hs] at hnear
      rw [hwin, Window.declare_highest]
      omega
    · exact .inr (hfin.mono (.refl _) (e.le_concluded_frontier id s.toWindow))
  | cut id' s count hev hpol hcnt hrcvr hlog _ _ _ =>
    have hfin := hset.cut_finished hev hpol
    rw [hrcvr] at ho hs'
    rw [hlog]
    rcases Dict.find?_set_cases hs' with ⟨rfl, rfl⟩ | ⟨-, hs'⟩
    · exact .inr hfin
    · exact h ho id s' hs'

theorem lag_start (P : Pairing) : Lag P.start := by
  intro _ id s hs
  obtain ⟨c, -, rfl, -⟩ := P.created_receiver.states id s hs
  left
  show ((-1 : Int) + 1) / 4096 ≤ 0 + 15
  decide

/-- An authentic record within the window is near the ratchet. -/
theorem Settled.epoch_near (h : P.Settled W) (hlag : Lag W) (ho : W.receiver.closed = false) (he : e ∈ W.log)
    (hs : W.receiver.channels.find? e.id = some s) (hlow : s.frontier ≤ e.number)
    (hhigh : e.number ≤ s.frontier + window) :
    ∃ key derived, receiveKey P.crypto s.rx (e.number / 4096) = .ok (key, derived) := by
  have hsd := h.receiving.sound ho e.id s hs
  have htrac := h.receiving.tracks ho e.id s hs
  have hnn := (h.ledger.authentic e he).number_nonneg
  have hfron := hsd.frontier_le
  have hhig := hsd.highest_le
  have hrch := htrac.reached
  unfold window at hhigh hhig
  refine htrac.receiveKey_near (by omega) (by omega) ?_
  rcases hlag ho e.id s hs with hbeh | ⟨hid, e', he', hfr, hcnt⟩
  · omega
  · have hend := h.ledger.ended he' hfr hid he rfl
    omega

/-- **Ratchet agreement.** Whatever the receiver was given, the key that it decrypts an authentic record with is the
    one that the record was sealed with. If the discards run at most fifteen epochs ahead of the ratchet, it arrives at
    a key for every authentic record within the window. -/
theorem ratchet_agreement (P : Pairing) (acts : List Act) {e : Entry} (he : e ∈ (P.run acts).log) {m : Message}
    (hm : e.message.Carries m) : (∀ s key derived, (P.run acts).receiver.openChecks m = .ok s →
      receiveKey P.crypto s.rx (sequenceOf m / 4096) = .ok (key, derived) → e.key P.crypto = some key) ∧
    (Along P.step (fun W a => P.Genuine W a ∧ Moderate W a) P.start acts →
      ∀ s, (P.run acts).receiver.closed = false → (P.run acts).receiver.channels.find? m.channel.id = some s →
        s.frontier ≤ sequenceOf m → sequenceOf m ≤ s.frontier + window →
          ∃ key derived, receiveKey P.crypto s.rx (sequenceOf m / 4096) = .ok (key, derived)) := by
  have hid : m.channel.id = e.id := congrArg Channel.id hm.channel
  rw [Entry.Made.sequenceOf_carried hm, hid]
  constructor
  · intro s key derived hchecks hkey
    have hpassed := openChecks_eq_ok hchecks
    have hfound := hpassed.found
    rw [hid] at hfound
    have htracks := (P.receiving_run acts).tracks hpassed.opened e.id s hfound
    exact ((P.ledger_run acts).authentic e he).key_agrees htracks hkey
  · intro halong s hopen hs hlow hhigh
    have hinvariant : P.Settled (P.run acts) ∧ Lag (P.run acts) := by
      refine halong.invariant (I := fun W => P.Settled W ∧ Lag W) ?_ ⟨P.settled_start, P.lag_start⟩
      rintro W a ⟨hsettled, hlag⟩ ⟨hgenuine, hmoderate⟩
      obtain ⟨hnext, hmoved⟩ := hsettled.step hgenuine
      exact ⟨hnext, hlag.moved hsettled hmoderate hmoved⟩
    exact hinvariant.1.epoch_near hinvariant.2 hopen he hs hlow hhigh

end Pairing

/-! ### Discards that outrun the ratchet -/

theorem Crypto.transparent_lawful : Crypto.transparent.Lawful where
  opens := by
    intro key nonce ad plain
    simp [Crypto.transparent]
  length_sealed := by
    intro key nonce ad plain
    simp [Crypto.transparent]

section Sample

open MessageSecurity Pairing

/-- A partially reliable channel. -/
def lossy : Channel := ⟨1, false, .retransmits 0⟩

def sampleKey : Bytes := replicate 32 7

def zeroNonce : RandomNonce := ⟨replicate 32 0, rfl⟩

def sampleContext : MessageSecurity where
  channels := (Dict.empty.set 0 (newChannel .transparent sampleKey sampleKey control)).set 1
    (newChannel .transparent sampleKey sampleKey lossy)
  maximum := 256
  keyEpoch := 1
  wirePpid := 53
  padding := 0
  budget := 64
  txFinal := false
  rxTargets := none
  closed := false
  overhead := 0

/-- Two contexts with the control channel and the lossy one. -/
def samplePairing : Pairing where
  crypto := .transparent
  lawful := Crypto.transparent_lawful
  forwardKey := sampleKey
  backwardKey := sampleKey
  channels := [control, lossy]
  maxFrame := 256
  keyEpoch := 1
  wirePpid := 53
  senderPadding := 0
  senderBudget := 64
  receiverPadding := 0
  receiverBudget := 64
  sender := sampleContext
  receiver := sampleContext
  create_sender := by rfl
  create_receiver := by rfl

/-- A channel of the sender after `n` records. -/
def sentState (channel : Channel) (n : Nat) : ChannelState := { newChannel .transparent sampleKey sampleKey channel with
  sent := n, tx := ⟨((n - 1 : Nat) : Int) / 4096, sampleKey, none⟩ }

/-- The sender after so many records on either channel. -/
def senderAt (controls sent : Nat) : MessageSecurity := { sampleContext with
  channels := (sampleContext.channels.set 0 (sentState control controls)).set 1 (sentState lossy sent) }

/-- A message without payload. -/
def sampleData : Frame := .data ⟨lossy, 51, 0, []⟩

def dataBody : Bytes := 0 :: (putInt 4 51 ++ putInt 4 0)

/-- The data record with the number `n`. -/
def dataRecord (n : Nat) : Message := record .transparent sampleContext zeroNonce.val lossy dataBody (sentState lossy n)

def dataEntry (n : Nat) : Entry := ⟨senderAt 0 n, sampleData, zeroNonce, dataRecord n⟩

def discardBody (n : Nat) : Bytes := 5 :: (putInt 2 1 ++ putInt 4 n)

/-- The control record with the number `n`, which discards the data record with this number. -/
def discardRecord (n : Nat) : Message :=
  record .transparent sampleContext zeroNonce.val control (discardBody n) (sentState control n)

/-- Seal data records. -/
def seals (n : Nat) : List Act := replicate n (.sender (.sealRecord sampleData zeroNonce))

/-- Seal and open the discards of the first data records. -/
def losses (n : Nat) : List Act :=
  (range n).flatMap fun (k : Nat) =>
    [.sender (.sealRecord (.discard 1 k) zeroNonce), .receiver (.openRecord (discardRecord k))]

theorem stepTx_sentState (ch : Channel) (n : Nat) :
    { (sentState ch n).stepTx .transparent with sent := (n : Int) + 1 } = sentState ch (n + 1) := by
  unfold ChannelState.stepTx
  split_ifs with hmove
  · unfold sentState
    simp [Crypto.nextKey, Crypto.transparent]
  have hsm : ((n - 1 : Nat) : Int) / 4096 = (n : Int) / 4096 := by
    have hstay : ¬ ((n : Int) / 4096 > ((n - 1 : Nat) : Int) / 4096) := hmove
    omega
  unfold sentState
  simp [hsm]

/-- A call of `seal` that finds its body and the state of its channel. -/
theorem sealRecord_sample {t : MessageSecurity} {frm : Frame} {ch : Channel} {bd : Bytes} {n : Nat}
    (ho : t.check = .ok () ∧ t.txFinal = false) (hbody : t.body frm = .ok (ch, bd))
    (hst : t.state ch.id = .ok (sentState ch n)) (hn : n < 1000000)
    (hcost : ¬ t.overheadOf frm bd.length > t.budget) : t.sealRecord .transparent frm zeroNonce.val =
      (.ok (record .transparent t zeroNonce.val ch bd (sentState ch n)),
        sealedRecord .transparent t frm ch bd (sentState ch n)) := by
  have hfinal : ¬ t.txFinal = true := by simp [ho.2]
  have hroom : ¬ (sentState ch n).sent ≥ 1000000 := by
    show ¬ (n : Int) ≥ 1000000
    omega
  have hprep : t.prepare frm = .ok (ch, bd, sentState ch n) := by
    refine bind_eq_ok.mpr ⟨(), ho.1, bind_eq_ok.mpr ⟨(), raiseIf_neg hfinal, bind_eq_ok.mpr ⟨_, hbody, ?_⟩⟩⟩
    exact bind_eq_ok.mpr ⟨_, hst, bind_eq_ok.mpr ⟨(), raiseIf_neg hroom, rfl⟩⟩
  rw [sealRecord_prepared hprep, if_neg hcost]

theorem sealRecord_data (cs : Nat) {sn : Nat} (h : sn < 1000000) :
    (senderAt cs sn).sealRecord .transparent sampleData zeroNonce.val =
      (.ok (dataRecord sn), senderAt cs (sn + 1)) := by
  have hseal : sealedRecord .transparent (senderAt cs sn) sampleData lossy dataBody (sentState lossy sn) =
      { sampleContext with
        channels := (sampleContext.channels.set 0 (sentState control cs)).set 1
          { (sentState lossy sn).stepTx .transparent with sent := (sn : Int) + 1 } } := rfl
  have hcost : ¬ (senderAt cs sn).overheadOf sampleData dataBody.length > (senderAt cs sn).budget := by
    show ¬ (0 : Int) > 64
    decide
  rw [sealRecord_sample ⟨rfl, rfl⟩ rfl rfl h hcost, hseal, stepTx_sentState]
  rfl

theorem sealRecord_discard {cs sent : Nat} (h : cs < sent) (hsn : sent ≤ 1000000) :
    (senderAt cs sent).sealRecord .transparent (.discard 1 cs) zeroNonce.val =
      (.ok (discardRecord cs), senderAt (cs + 1) sent) := by
  have hbody : (senderAt cs sent).body (.discard 1 cs) = .ok (control, discardBody cs) := by
    have hev : ¬ ((sentState lossy sent).policy = .reliable ∨ (cs : Int) < 0 ∨
        (cs : Int) ≥ (sentState lossy sent).sent) := by
      rintro (hpol | hneg | hlate)
      · cases hpol
      · omega
      · have hlate : (cs : Int) ≥ sent := hlate
        omega
    exact bind_eq_ok.mpr ⟨_, rfl, bind_eq_ok.mpr ⟨(), raiseIf_neg hev, rfl⟩⟩
  have hseal : sealedRecord .transparent (senderAt cs sent) (.discard 1 cs) control (discardBody cs)
      (sentState control cs) = { sampleContext with
          channels := (sampleContext.channels.set 0
            { (sentState control cs).stepTx .transparent with sent := (cs : Int) + 1 }).set 1
              (sentState lossy sent) } := rfl
  have hcost : ¬ (senderAt cs sent).overheadOf (.discard 1 cs) (discardBody cs).length >
      (senderAt cs sent).budget := by
    show ¬ (0 : Int) > 64
    decide
  rw [sealRecord_sample ⟨rfl, rfl⟩ hbody rfl (by omega) hcost, hseal, stepTx_sentState]
  rfl

/-- The run that seals `n` data records. -/
theorem run_seals {n : Nat} (h : n ≤ 1000000) :
    samplePairing.run (seals n) = ⟨senderAt 0 n, sampleContext, (range n).map dataEntry, [], [], []⟩ := by
  induction n with
  | zero => rfl
  | succ n ih =>
    have hrun : samplePairing.run (seals (n + 1)) =
        samplePairing.step (samplePairing.run (seals n)) (.sender (.sealRecord sampleData zeroNonce)) := by
      unfold Pairing.run seals
      rw [replicate_succ', foldl_append]
      rfl
    have hseal : (senderAt 0 n).sealRecord samplePairing.crypto sampleData zeroNonce.val = _ :=
      sealRecord_data 0 (Nat.lt_of_succ_le h)
    rw [hrun, ih (by omega), range_succ, map_append]
    unfold Pairing.step Pairing.callSender
    dsimp only
    rw [hseal]
    rfl

theorem run_append (P : Pairing) (ac ac' : List Act) : P.run (ac ++ ac') = ac'.foldl P.step (P.run ac) :=
  foldl_append

/-- The records of the sample are short enough for the carrier. -/
theorem valid_record {channel : Channel} {body : Bytes} {n : Nat} (hch : validateChannel channel = .ok ())
    (hbody : body.length ≤ 100) (hn : n ≤ 1000000) :
    validateMessage 73728 (record .transparent sampleContext zeroNonce.val channel body (sentState channel n)) =
      .ok () := by
  generalize hm : record .transparent sampleContext zeroNonce.val channel body (sentState channel n) = m
  have hlen : m.payload.length = 44 + (body.length + 16) := by
    have hhdr := length_header sampleContext (sentState channel n).sent zeroNonce
    have hpl : (sampleContext.paddedLength body.length - body.length).toNat = 0 := by
      show ((body.length : Int) - body.length).toNat = 0
      omega
    rw [← hm]
    unfold record
    rw [hpl, length_append, hhdr, Crypto.transparent_lawful.length_sealed, replicate_zero, append_nil]
  have hcon : m.context = n := by
    rw [← hm]
    rfl
  have hppid : m.ppid = 53 := by
    rw [← hm]
    rfl
  have hsm : m.channel = channel := by
    rw [← hm]
    rfl
  unfold validateMessage
  rw [hlen, hcon, hppid, hsm, hch, raiseIf_neg (by omega), raiseIf_neg (by omega), raiseIf_neg (by omega)]
  rfl

/-- The receiver has opened the discards of the first `k` data records: both windows are at `k`, and the ratchet of the
    lossy channel is where it started. -/
structure Abandoned (k sent : Nat) (W : World) : Prop where
  sender : W.sender = senderAt k sent
  log : ∀ n, n < sent → dataEntry n ∈ W.log
  opened : W.receiver.closed = false
  targets : W.receiver.rxTargets = none
  control : ∃ s, W.receiver.channels.find? 0 = some s ∧ s.toWindow = ⟨k - 1, k, ∅⟩ ∧ ((k : Int) - 1) / 4096 ≤ s.rx.epoch
  lossy : ∃ s, W.receiver.channels.find? 1 = some s ∧ s.toWindow = ⟨k - 1, k, ∅⟩ ∧ s.rx.epoch = 0

/-- The entry of the discard that reports the data record `k`. -/
def discardEntry (k sent : Nat) : Entry := ⟨senderAt k sent, .discard 1 k, zeroNonce, discardRecord k⟩

section

variable {k sent : Nat} {W : World} {x x' : ChannelState}

theorem Abandoned.seals (h : Abandoned k sent W) (hk : k < sent) (hsent : sent ≤ 1000000) :
    samplePairing.step W (.sender (.sealRecord (.discard 1 k) zeroNonce)) =
      ⟨senderAt (k + 1) sent, W.receiver, W.log ++ [discardEntry k sent], W.opened, W.accepted, W.lost⟩ := by
  have hseal : (senderAt k sent).sealRecord samplePairing.crypto (.discard 1 k) zeroNonce.val = _ :=
    sealRecord_discard hk hsent
  unfold Pairing.step Pairing.callSender
  dsimp only
  rw [h.sender, hseal]
  rfl

/-- The discard is the next record of the control channel, so it is opened. -/
theorem Abandoned.opens (h : Abandoned k sent W) (hauth : samplePairing.Authentic (discardEntry k sent))
    (hnumber : (discardEntry k sent).number = k) (hreceiving : samplePairing.Receiving W.receiver) (hk : k < 1000000) :
    (discardEntry k sent).Opened W.receiver (W.receiver.openRecord samplePairing.crypto (discardRecord k)).1
      (W.receiver.openRecord samplePairing.crypto (discardRecord k)).2 := by
  have hm : (discardEntry k sent).message.Carries (discardRecord k) := ⟨rfl, rfl, rfl⟩
  obtain ⟨x, hx, hwindow, hepoch⟩ := h.control
  have htracks := hreceiving.tracks h.opened 0 x hx
  have hreached := htracks.reached
  have hfields : x.highest = k - 1 ∧ x.frontier = k ∧ x.seen = ∅ := by
    rw [hwindow]
    exact ⟨rfl, rfl, rfl⟩
  have hcheck : W.receiver.openChecks (discardRecord k) = .ok x := by
    refine hauth.openChecks_new hreceiving hm h.opened h.targets (valid_record rfl ?_ hk.le) hx ?_ ?_
    · simp [discardBody]
    · rw [hnumber, hfields.1, hfields.2.1, hfields.2.2]
      unfold window
      rintro (hold | hseen | hlow)
      · omega
      · exact Finset.notMem_empty _ hseen
      · omega
    · unfold window
      omega
  obtain ⟨key, derived, hkey⟩ : ∃ key derived,
      receiveKey samplePairing.crypto x.rx ((discardEntry k sent).number / 4096) = .ok (key, derived) :=
    htracks.receiveKey_near (by omega) (by omega) (by omega)
  exact hauth.marks hreceiving hm hcheck hkey (p := (.discard 1 k, W.receiver)) rfl (by rintro message ⟨⟩)

/-- Its number is taken on the control channel. -/
theorem discardEntry_control (hnumber : (discardEntry k sent).number = k) (h : (discardEntry k sent).Effect 0 x x')
    (hwindow : x.toWindow = ⟨k - 1, k, ∅⟩) :
    x'.toWindow = ⟨(k + 1 : Nat) - 1, (k + 1 : Nat), ∅⟩ ∧ (((k + 1 : Nat) : Int) - 1) / 4096 ≤ x'.rx.epoch := by
  have hown : 0 = (discardEntry k sent).id := rfl
  constructor
  · rw [h.numbers, Entry.concluded_of_not (by rintro n ⟨⟩), Entry.arrived, if_pos hown, hnumber, hwindow,
      Window.accept_next]
    congr 1
    omega
  · have hepoch := h.own hown
    omega

/-- The number that it names is declared on the lossy channel. -/
theorem discardEntry_lossy (h : (discardEntry k sent).Effect 1 x x') (hwindow : x.toWindow = ⟨k - 1, k, ∅⟩) :
    x'.toWindow = ⟨(k + 1 : Nat) - 1, (k + 1 : Nat), ∅⟩ ∧ x'.rx = x.rx := by
  have hother : (1 : Int) ≠ (discardEntry k sent).id := by
    show (1 : Int) ≠ 0
    decide
  have harrived : (discardEntry k sent).arrived 1 x.toWindow = ⟨k - 1, k, ∅⟩ := by
    rw [Entry.arrived, if_neg hother, hwindow]
  refine ⟨?_, h.other hother⟩
  rw [h.numbers, Entry.concluded_of_discard rfl, harrived, Window.declare_next]
  · congr 1
    omega
  · rw [harrived]
  · rw [harrived]
    show (k : Int) ≤ k + 4096
    omega

/-- One more data record is reported lost. -/
theorem Abandoned.next (h : Abandoned k sent W) (hledger : samplePairing.Ledger W)
    (hreceiving : samplePairing.Receiving W.receiver) (hk : k < sent) (hsent : sent ≤ 1000000) :
    Abandoned (k + 1) sent (samplePairing.step
      (samplePairing.step W (.sender (.sealRecord (.discard 1 k) zeroNonce)))
      (.receiver (.openRecord (discardRecord k)))) := by
  have hledger' := hledger.step (.sender (.sealRecord (.discard 1 k) zeroNonce))
  rw [h.seals hk hsent] at hledger' ⊢
  have hauth := hledger'.authentic _ (mem_append_right _ (mem_singleton_self _))
  have hnumber : (discardEntry k sent).number = k := hauth.number_eq
  have hopened := h.opens hauth hnumber hreceiving (by omega)
  have hknown : ∀ id, id ∈ sampleContext.channels →
      ∃ s', (W.receiver.openRecord samplePairing.crypto (discardRecord k)).2.channels.find? id = some s' := by
    intro id hmem
    exact Dict.mem_iff_find?.mp (mem_of_skeleton (hreceiving.openRecord _).alike.skeleton hmem)
  obtain ⟨x, hx, hxwindow, -⟩ := h.control
  obtain ⟨y, hy, hywindow, hyepoch⟩ := h.lossy
  refine ⟨rfl, fun n hn => mem_append_left _ (h.log n hn), hopened.closed.trans h.opened,
    hopened.targets.trans h.targets, ?_, ?_⟩
  · obtain ⟨x', hx'⟩ := hknown 0 (by decide)
    obtain ⟨x₀, hx₀, heffect⟩ := hopened.states 0 x' hx'
    rw [hx] at hx₀
    cases hx₀
    exact ⟨x', hx', discardEntry_control hnumber heffect hxwindow⟩
  · obtain ⟨y', hy'⟩ := hknown 1 (by decide)
    obtain ⟨y₀, hy₀, heffect⟩ := hopened.states 1 y' hy'
    rw [hy] at hy₀
    cases hy₀
    obtain ⟨hwindow, hratchet⟩ := discardEntry_lossy heffect hywindow
    exact ⟨y', hy', hwindow, by rw [hratchet, hyepoch]⟩

end

theorem run_losses {k sn : Nat} (hk : k ≤ sn) (hsn : sn ≤ 1000000) :
    Abandoned k sn (samplePairing.run (seals sn ++ losses k)) := by
  induction k with
  | zero =>
    have hrun : samplePairing.run (seals sn ++ losses 0) = samplePairing.run (seals sn) := by
      show samplePairing.run (seals sn ++ []) = _
      rw [append_nil]
    rw [hrun, run_seals hsn]
    refine ⟨rfl, ?_, rfl, rfl, ⟨_, rfl, rfl, ?_⟩, ⟨_, rfl, rfl, rfl⟩⟩
    · intro n hn
      exact mem_map_of_mem (mem_range.mpr hn)
    · decide
  | succ k ih =>
    have hacts : seals sn ++ losses (k + 1) = (seals sn ++ losses k) ++
        [.sender (.sealRecord (.discard 1 k) zeroNonce), .receiver (.openRecord (discardRecord k))] := by
      unfold losses
      rw [range_succ, flatMap_append, append_assoc]
      rfl
    rw [hacts, run_append]
    exact (ih (by omega)).next (samplePairing.ledger_run _) (samplePairing.receiving_run _) (by omega) hsn

/-- With the ratchet at its start and the frontier at 65536, the last number of the window is too far ahead. -/
theorem Abandoned.refused {W : World} (h : Abandoned 65536 69633 W) (hled : samplePairing.Ledger W)
    (hrcv : samplePairing.Receiving W.receiver) : ∃ s, W.receiver.openChecks (dataRecord 69632) = .ok s ∧
      s.frontier ≤ sequenceOf (dataRecord 69632) ∧ sequenceOf (dataRecord 69632) ≤ s.frontier + window ∧
      receiveKey .transparent s.rx (sequenceOf (dataRecord 69632) / 4096) = .error .replay ∧
      (W.receiver.openRecord .transparent (dataRecord 69632)).1 = .error .replay := by
  have hauth := hled.authentic _ (h.log 69632 (by omega))
  have hm : (dataEntry 69632).message.Carries (dataRecord 69632) := ⟨rfl, rfl, rfl⟩
  have hnum : (dataEntry 69632).number = 69632 := hauth.number_eq
  obtain ⟨s, hs, hwin, hep⟩ := h.lossy
  have hfs : s.highest = 65535 ∧ s.frontier = 65536 ∧ s.seen = ∅ := by
    rw [hwin]
    exact ⟨rfl, rfl, rfl⟩
  have hchk : W.receiver.openChecks (dataRecord 69632) = .ok s := by
    refine hauth.openChecks_new hrcv hm h.opened h.targets (valid_record rfl ?_ (by omega)) hs ?_ ?_
    · decide
    · rw [hnum, hfs.1, hfs.2.1, hfs.2.2]
      decide
    · rw [hnum, hfs.2.1]
      decide
  have hkey : receiveKey .transparent s.rx ((dataEntry 69632).number / 4096) = .error .replay := by
    have hprev := (hrcv.tracks h.opened 1 s hs).previous
    rw [hep, if_pos rfl] at hprev
    unfold receiveKey
    rw [hnum, hep, hprev]
    rfl
  rw [Entry.Made.sequenceOf_carried hm]
  refine ⟨s, hchk, ?_, ?_, hkey, ?_⟩
  · rw [hnum, hfs.2.1]
    decide
  · rw [hnum, hfs.2.1]
    decide
  · unfold openRecord decode
    rw [hchk]
    dsimp only
    rw [Entry.Made.sequenceOf_carried hm, hkey]
    rfl

/-- **Discards can outrun the ratchet.** Of 69633 data records the first 65536 are reported lost one by one; the last one
    is within the window, and is refused because its epoch is the seventeenth after that of the ratchet. -/
theorem discards_outrun_ratchet : dataEntry 69632 ∈ (samplePairing.run (seals 69633 ++ losses 65536)).log ∧
    (dataEntry 69632).message.Carries (dataRecord 69632) ∧
    ∃ s, (samplePairing.run (seals 69633 ++ losses 65536)).receiver.openChecks (dataRecord 69632) = .ok s ∧
      s.frontier ≤ sequenceOf (dataRecord 69632) ∧ sequenceOf (dataRecord 69632) ≤ s.frontier + window ∧
      receiveKey .transparent s.rx (sequenceOf (dataRecord 69632) / 4096) = .error .replay ∧
      ((samplePairing.run (seals 69633 ++ losses 65536)).receiver.openRecord .transparent (dataRecord 69632)).1 =
        .error .replay := by
  have hrun : Abandoned 65536 69633 (samplePairing.run (seals 69633 ++ losses 65536)) :=
    run_losses (by omega) (by omega)
  exact ⟨hrun.log 69632 (by omega), ⟨rfl, rfl, rfl⟩,
    hrun.refused (samplePairing.ledger_run _) (samplePairing.receiving_run _)⟩

/-- Data records are sealed, and one of them is opened. -/
def overtaking (sent n : Nat) : List Act := seals sent ++ [.receiver (.openRecord (dataRecord n))]

theorem run_overtaking {sn : Nat} (n : Nat) (hsn : sn ≤ 1000000) : samplePairing.run (overtaking sn n) =
      ⟨senderAt 0 sn, (sampleContext.openRecord .transparent (dataRecord n)).2, (range sn).map dataEntry,
        [dataRecord n], (answered (sampleContext.openRecord .transparent (dataRecord n)).1).map fun frame =>
          (dataRecord n, frame), []⟩ := by
  rw [overtaking, run_append, run_seals hsn]
  rfl

/-- Data records are authentic, and none of them is a discard. -/
theorem genuine_data {W : World} {sn n : Nat} (hn : n < sn) (hlog : W.log = (range sn).map dataEntry) :
    samplePairing.Genuine W (.receiver (.openRecord (dataRecord n))) ∧
      ∀ p, Discards p W (.receiver (.openRecord (dataRecord n))) := by
  constructor
  · refine .inl ⟨dataEntry n, ?_, ⟨rfl, rfl, rfl⟩⟩
    rw [hlog]
    exact mem_map_of_mem (mem_range.mpr hn)
  · intro p e he _
    rw [hlog] at he
    obtain ⟨k, -, rfl⟩ := mem_map.mp he
    exact trivial

theorem along_overtaking {sn n : Nat} (hn : n < sn) (hsn : sn ≤ 1000000) :
    Along samplePairing.step (fun W a => samplePairing.Genuine W a ∧ Moderate W a ∧ Near W a) samplePairing.start
      (overtaking sn n) := by
  refine Along.append (Along.of_forall ?_ _) ⟨?_, trivial⟩
  · intro a ha W
    rw [eq_of_mem_replicate ha]
    exact ⟨trivial, trivial, trivial⟩
  · have hlog : (samplePairing.run (seals sn)).log = (range sn).map dataEntry := by
      rw [run_seals hsn]
    obtain ⟨hgen, hdisc⟩ := genuine_data hn hlog
    exact ⟨hgen, hdisc _, hdisc _⟩

/-- The second of two records arrives first; the key of the first one is still at hand. -/
theorem ratchet_agreement_overtaken : dataEntry 0 ∈ (samplePairing.run (overtaking 2 1)).log ∧ ∃ s key derived,
      (samplePairing.run (overtaking 2 1)).receiver.channels.find? 1 = some s ∧
      receiveKey .transparent s.rx (sequenceOf (dataRecord 0) / 4096) = .ok (key, derived) := by
  have hmem : dataEntry 0 ∈ (samplePairing.run (overtaking 2 1)).log := by
    rw [run_overtaking 1 (by omega)]
    exact mem_map_of_mem (mem_range.mpr (by omega))
  have halong : Along samplePairing.step (fun W a => samplePairing.Genuine W a ∧ Moderate W a) samplePairing.start
      (overtaking 2 1) :=
    (along_overtaking (by omega) (by omega)).mono fun _ _ h => ⟨h.1, h.2.1⟩
  obtain ⟨s, hs, hfrontier⟩ : ∃ s,
      (sampleContext.openRecord .transparent (dataRecord 1)).2.channels.find? 1 = some s ∧ s.frontier = 0 :=
    Option.map_eq_some_iff.mp (by decide +kernel)
  have hreceiver : (samplePairing.run (overtaking 2 1)).receiver =
      (sampleContext.openRecord .transparent (dataRecord 1)).2 := by rw [run_overtaking 1 (by omega)]
  have hnumber : sequenceOf (dataRecord 0) = 0 := by decide +kernel
  have hm : (dataEntry 0).message.Carries (dataRecord 0) := ⟨rfl, rfl, rfl⟩
  have hkey := (ratchet_agreement samplePairing _ hmem hm).2 halong s (by rw [hreceiver]; decide +kernel)
    (by rw [hreceiver]; exact hs) (by rw [hnumber, hfrontier]) (by rw [hnumber, hfrontier]; decide)
  obtain ⟨key, derived, hkey⟩ := hkey
  exact ⟨hmem, s, key, derived, by rw [hreceiver]; exact hs, hkey⟩

end Sample

namespace Pairing

open MessageSecurity

variable {P : Pairing} {W W' : World} {e : Entry} {m : Message} {s : ChannelState} {a : Act} {id : Int}

/-! ## Every used number is accounted for -/

/-- The receiver has accepted the record with this number, or a discard of it. -/
def Told (W : World) (id n : Int) : Prop :=
  (∃ p ∈ W.accepted, p.1.channel.id = id ∧ sequenceOf p.1 = n) ∨ ∃ p ∈ W.accepted, p.2 = .discard id n

theorem Told.mono {n : Int} (h : Told W id n) (hacc : W.accepted ⊆ W'.accepted) : Told W' id n := by
  rcases h with ⟨p, hp, hrec⟩ | ⟨p, hp, hdis⟩
  · exact .inl ⟨p, hacc hp, hrec⟩
  · exact .inr ⟨p, hacc hp, hdis⟩

/-- What the windows hold was accepted or discarded; below the frontier it may also have been confirmed lost. -/
def Tally (W : World) : Prop :=
  W.receiver.closed = false → ∀ id s, W.receiver.channels.find? id = some s →
    s.toWindow.Justified (Told W id) fun n => Told W id n ∨ (id, n) ∈ W.lost

/-- A discard within the window is not refused. -/
theorem answer_near {ans : Except Exn Frame} {t' : MessageSecurity}
    (hmark : e.Opened W.receiver ans t') (hnear : Near W (.receiver (.openRecord m))) (he : e ∈ W.log)
    (hm : e.message.Carries m) : ans = .ok (readAs e.before e.frame) := by
  rcases hmark.answer with hok | ⟨-, id, n, x, hfr, hx, hfar⟩
  · exact hok
  have hbnd := Discards.apply hnear he hm hfr
  rw [frontierOf_eq hx] at hbnd
  have hgr := e.le_arrived_frontier id x.toWindow
  omega

theorem Tally.moved (h : Tally W) (hnear : Near W a) (hmv : Moved W a W') : Tally W' := by
  intro ho id s' hs'
  cases hmv with
  | closed hcl =>
    rw [hcl] at ho
    cases ho
  | quiet _ _ hsm hacc hlost =>
    obtain ⟨s, hs, hwin, -⟩ := hsm.origin hs'
    have hjus := h (hsm.closed ▸ ho) id s hs
    unfold Told at hjus ⊢
    rw [hacc, hlost, ← hwin]
    exact hjus
  | opened e m answer ha he hm hmark _ _ hacc hlost =>
    subst ha
    rw [answer_near hmark hnear he hm] at hacc
    have hsub : W.accepted ⊆ W'.accepted := by
      rw [hacc]
      exact subset_append_left _ _
    have hnew : (m, readAs e.before e.frame) ∈ W'.accepted := by
      rw [hacc]
      exact mem_append_right _ (mem_singleton_self _)
    obtain ⟨s, hs, heff⟩ := hmark.states id s' hs'
    have hbef : s.toWindow.Justified (Told W' id) fun n => Told W' id n ∨ (id, n) ∈ W'.lost := by
      refine (h (hmark.closed ▸ ho) id s hs).mono (fun n htold => htold.mono hsub) ?_
      rw [hlost]
      exact fun n htold => htold.imp_left fun htold => htold.mono hsub
    -- the record is told for its own number, and for the number that it discards
    have harr : (e.arrived id s.toWindow).Justified (Told W' id) fun n => Told W' id n ∨ (id, n) ∈ W'.lost := by
      unfold Entry.arrived
      by_cases hid : id = e.id
      · rw [if_pos hid]
        have htold : Told W' id e.number :=
          .inl ⟨_, hnew, (congrArg Channel.id hm.channel).trans hid.symm, Entry.Made.sequenceOf_carried hm⟩
        exact hbef.accept (fun n htold => .inl htold) htold
      · rw [if_neg hid]
        exact hbef
    rw [heff.numbers]
    rcases e.concluded_cases id s.toWindow with hwin | ⟨n, hfr, hwin⟩
    · rw [hwin]
      exact harr
    rw [hwin]
    have htold : Told W' id n := by
      refine .inr ⟨_, hnew, ?_⟩
      rw [hfr]
      rfl
    exact harr.declare (fun n htold => .inl htold) htold
  | cut id' s count hev _ _ hrcvr _ _ hacc hlost =>
    have hs := closeEvidence_ok hev
    have hsm : ∀ n, Told W id n → Told W' id n := by
      intro n htold
      refine htold.mono ?_
      rw [hacc]
      exact List.Subset.refl _
    have hold : ∀ x, W.receiver.channels.find? id = some x →
        x.toWindow.Justified (Told W' id) fun n => Told W' id n ∨ (id, n) ∈ W'.lost := by
      intro x hx
      rw [hrcvr] at ho
      refine (h ho id x hx).mono hsm ?_
      intro n hn
      rw [hlost]
      exact hn.imp (hsm n) fun hmem => mem_append_left _ hmem
    rw [hrcvr] at hs'
    rcases Dict.find?_set_cases hs' with ⟨rfl, rfl⟩ | ⟨-, hs'⟩
    · refine (hold s hs).cutTo (fun n htold => .inl htold) fun n hn => .inr ?_
      rw [hlost]
      exact mem_append_right _ (mem_map.mpr ⟨n, hn, rfl⟩)
    · exact hold s' hs'

theorem tally_start (P : Pairing) : Tally P.start := by
  intro _ id s hs
  obtain ⟨c, -, rfl, -⟩ := P.created_receiver.states id s hs
  exact Window.justified_fresh

/-- A number that was accepted is that of the record. -/
theorem Settled.told_record (h : P.Settled W) (he : e ∈ W.log) (htold : Told W e.id e.number) :
    (∃ p ∈ W.accepted, e.message.Carries p.1) ∨ ∃ p ∈ W.accepted, p.2 = .discard e.id e.number := by
  rcases htold with ⟨p, hp, hid, hnum⟩ | hdis
  · obtain ⟨e', he', hm', -⟩ := h.evidence.accepted p hp
    have hsm : e' = e := by
      refine h.ledger.eq_of_number he' he ?_ ?_
      · exact (congrArg Channel.id hm'.channel).symm.trans hid
      · exact (Entry.Made.sequenceOf_carried hm').symm.trans hnum
    exact .inl ⟨p, hp, hsm ▸ hm'⟩
  · exact .inr hdis

end Pairing

/-! ## No false replay -/

/-- The call is not refused for one of these reasons. -/
def Avoids {α : Type} (reasons : Exn → Prop) (answer : Except Exn α) : Prop := ∀ x, answer = .error x → ¬ reasons x

section Avoids

variable {α β : Type} {rs : Exn → Prop}

theorem avoids_ok (a : α) : Avoids rs (.ok a) := by
  rintro x ⟨⟩

theorem avoids_error {x : Exn} (h : ¬ rs x) : Avoids rs (.error x : Except Exn α) := by
  rintro x ⟨⟩
  exact h

theorem Avoids.of_error {x : Exn} (h : Avoids rs (.error x : Except Exn α)) :
    Avoids rs (.error x : Except Exn β) := avoids_error (h x rfl)

theorem Avoids.bind {r : Except Exn α} {f : α → Except Exn β} (h : Avoids rs r) (hf : ∀ a, Avoids rs (f a)) :
    Avoids rs (r >>= f) := by
  cases r with
  | ok a => exact hf a
  | error x => exact h.of_error

theorem avoids_raiseIf (c : Prop) [Decidable c] {x : Exn} (h : ¬ rs x) : Avoids rs (raiseIf c x) := by
  unfold raiseIf
  split
  · exact avoids_error h
  · exact avoids_ok _

/-- The texts of `validate_message`. -/
def carrierTexts : List String :=
  ["carrier message budget", "carrier PPID", "carrier send context", "carrier channel ID", "carrier reliability budget"]

theorem avoids_validateMessage (h : ∀ text ∈ carrierTexts, ¬ rs (.invalidArg text)) (mx : Int) (m : Message) :
    Avoids rs (validateMessage mx m) := by
  refine (avoids_raiseIf _ (h _ (by decide))).bind fun _ => (avoids_raiseIf _ (h _ (by decide))).bind fun _ =>
    (avoids_raiseIf _ (h _ (by decide))).bind fun _ => (avoids_raiseIf _ (h _ (by decide))).bind fun _ => ?_
  cases m.channel.reliability with
  | reliable => exact avoids_ok _
  | retransmits n | lifetimeMs n => exact avoids_raiseIf _ (h _ (by decide))

end Avoids

namespace MessageSecurity

variable {bf t : MessageSecurity} {id : Int} {r : Exn → Prop}

theorem avoids_withinFinal (h : ¬ r (.invalidArg "message exceeds authenticated final")) (hfd : ¬ r .notFound)
    (id n : Int) : Avoids r (t.withinFinal id n) := by
  unfold withinFinal
  cases t.rxTargets with
  | none => exact avoids_ok _
  | some ts =>
    refine Avoids.bind ?_ fun _ => avoids_raiseIf _ h
    unfold assoc
    cases ts.lookup id with
    | none => exact avoids_error hfd
    | some count => exact avoids_ok _

/-- The texts of the frames that are refused for a count. -/
def watermarkTexts : List String :=
  ["message close watermark", "message reset watermark", "message final watermark", "message final control watermark"]

/-- A record that is decrypted is refused for a count, or as a second final. -/
theorem readBack_eq_error {frm : Frame} {x : Exn} (h : readBack bf t frm = .error x) :
    (∃ text ∈ watermarkTexts, x = .invalidArg text) ∨ x = .invalidArg "duplicate message final" := by
  cases frm with
  | channelClose id | reset r =>
    simp only [readBack] at h
    split at h
    · cases h
      exact .inl ⟨_, by decide, rfl⟩
    · cases h
  | final =>
    simp only [readBack] at h
    split at h
    · cases h
      exact .inl ⟨_, by decide, rfl⟩
    split at h
    · cases h
      exact .inr rfl
    · cases h
  | _ => cases h

theorem openRecord_closed (C : Crypto) (m : Message) (h : t.closed = true) :
    t.openRecord C m = (.error (.invalidArg "closed message security context"), t) := by
  have hchk : t.openChecks m = .error (.invalidArg "closed message security context") := by
    unfold openChecks check
    rw [raiseIf_pos h]
    rfl
  unfold openRecord
  rw [hchk]

end MessageSecurity

namespace Pairing

open MessageSecurity

variable {P : Pairing} {W : World} {e : Entry} {m : Message} {s : ChannelState} {t : MessageSecurity}

/-- The reasons of a record whose number is used or out of reach. -/
def NumberRefused (x : Exn) : Prop := x = .replay ∨ x = .resourceLimit

theorem not_numberRefused (tx : String) : ¬ NumberRefused (.invalidArg tx) := by
  rintro (hx | hx) <;> cases hx

/-- The window lets an authentic record pass that was not seen, but for the last number behind a full window. -/
theorem Authentic.avoids_openChecks (h : P.Authentic e) (hal : e.before.Alike t) (hm : e.message.Carries m)
    (hs : t.channels.find? e.id = some s) (hsd : s.toWindow.Sound window) (hlow : s.frontier ≤ e.number)
    (hhigh : e.number ≤ s.frontier + window) (huns : e.number ∉ s.seen)
    (hedge : ¬ (e.number = s.frontier ∧ s.highest = s.frontier + window)) : Avoids NumberRefused (t.openChecks m) := by
  obtain ⟨body, s', hmade⟩ := h.made
  have hhig := hsd.highest_le
  have hrep : ¬ (e.number ≤ s.highest - window ∨ e.number ∈ s.seen ∨ e.number < s.frontier) := by
    rintro (hold | hseen | hbl)
    · exact hedge ⟨by omega, by omega⟩
    · exact huns hseen
    · omega
  rw [hmade.openChecks_carried P.lawful hal hm hs, raiseIf_neg hrep, raiseIf_neg (by omega)]
  refine (avoids_raiseIf _ (not_numberRefused _)).bind fun _ =>
    (avoids_validateMessage (fun text _ => not_numberRefused text) _ _).bind fun _ =>
      (avoids_withinFinal (not_numberRefused _) ?_ _ _).bind fun _ => avoids_ok _
  rintro (hx | hx) <;> cases hx

/-- **No false replay.** An authentic record from the frontier up to the end of the window that was neither accepted nor
    discarded is not refused as a replay or for its number, in every run whose discards keep near to the frontier and
    to the ratchet. The one number that the checks leave out is the frontier itself when the window behind the highest
    number is full. -/
theorem no_false_replay (P : Pairing) (acts : List Act)
    (halong : Along P.step (fun W a => P.Genuine W a ∧ Moderate W a ∧ Near W a) P.start acts) {e : Entry}
    (he : e ∈ (P.run acts).log) {m : Message} (hm : e.message.Carries m) {s : ChannelState}
    (hs : (P.run acts).receiver.channels.find? m.channel.id = some s) (hlow : s.frontier ≤ sequenceOf m)
    (hhigh : sequenceOf m ≤ s.frontier + window)
    (hnew : ∀ p ∈ (P.run acts).accepted, ¬ e.message.Carries p.1 ∧ p.2 ≠ .discard m.channel.id (sequenceOf m))
    (hedge : ¬ (sequenceOf m = s.frontier ∧ s.highest = s.frontier + window))
    (hnear : Near (P.run acts) (.receiver (.openRecord m))) :
    ((P.run acts).receiver.openRecord P.crypto m).1 ≠ .error .replay ∧
      ((P.run acts).receiver.openRecord P.crypto m).1 ≠ .error .resourceLimit := by
  have hid : m.channel.id = e.id := congrArg Channel.id hm.channel
  rw [Entry.Made.sequenceOf_carried hm] at hlow hhigh hnew hedge
  rw [hid] at hs hnew
  have hinvariant : P.Settled (P.run acts) ∧ Lag (P.run acts) ∧ Tally (P.run acts) := by
    refine halong.invariant (I := fun W => P.Settled W ∧ Lag W ∧ Tally W) ?_
      ⟨P.settled_start, P.lag_start, P.tally_start⟩
    rintro W a ⟨hsettled, hlag, htally⟩ ⟨hgenuine, hmoderate, hnear⟩
    obtain ⟨hnext, hmoved⟩ := hsettled.step hgenuine
    exact ⟨hnext, hlag.moved hsettled hmoderate hmoved, htally.moved hnear hmoved⟩
  obtain ⟨hsettled, hlag, htally⟩ := hinvariant
  suffices havoids : Avoids NumberRefused ((P.run acts).receiver.openRecord P.crypto m).1 from
    ⟨fun hx => havoids _ hx (.inl rfl), fun hx => havoids _ hx (.inr rfl)⟩
  by_cases hclosed : (P.run acts).receiver.closed = true
  · rw [openRecord_closed _ _ hclosed]
    exact avoids_error (not_numberRefused _)
  have hopen : (P.run acts).receiver.closed = false := Bool.eq_false_iff.mpr hclosed
  have hauthentic := hsettled.ledger.authentic e he
  have halike := hauthentic.alike.symm.trans hsettled.receiving.alike
  have hunseen : e.number ∉ s.seen := by
    intro hseen
    rcases hsettled.told_record he ((htally hopen e.id s hs).seen _ hseen) with ⟨p, hp, hcarries⟩ | ⟨p, hp, hdiscard⟩
    · exact (hnew p hp).1 hcarries
    · exact (hnew p hp).2 hdiscard
  cases hauthentic.carried hsettled.receiving hm with
  | checked x hchecks heq =>
    have havoids := hauthentic.avoids_openChecks halike hm hs (hsettled.receiving.sound hopen e.id s hs) hlow hhigh
      hunseen hedge
    rw [hchecks] at havoids
    rw [heq]
    exact havoids.of_error
  | distant s' x hpassed hkey heq =>
    -- the window has let it pass, so it is near the ratchet
    have hfound := hpassed.found
    rw [hid, hs] at hfound
    cases hfound
    obtain ⟨key, derived, hok⟩ := hsettled.epoch_near hlag hopen he hs hlow hhigh
    rw [hok] at hkey
    cases hkey
  | unread s' x hpassed hread heq =>
    rw [heq]
    rcases readBack_eq_error hread with ⟨text, -, rfl⟩ | rfl
    · exact avoids_error (not_numberRefused _)
    · exact avoids_error (not_numberRefused _)
  | late s' hpassed _ heq =>
    rw [heq]
    exact avoids_error (not_numberRefused _)
  | marked s' rx t₁ hpassed hread hepoch heq =>
    have hmarked := hauthentic.opened halike hm hpassed hread hepoch heq
    rw [answer_near hmarked hnear he hm]
    exact avoids_ok _

end Pairing

section Sample

open MessageSecurity Pairing

/-- **A full window refuses its frontier.** Of 4097 records the last arrives first; it is within the window, and after it
    the first one is refused as a replay although it was never received. -/
theorem full_window_refuses_frontier :
    dataEntry 0 ∈ (samplePairing.run (overtaking 4097 4096)).log ∧
    (dataEntry 0).message.Carries (dataRecord 0) ∧
    (∃ s, (samplePairing.run (overtaking 4097 4096)).receiver.channels.find? 1 = some s ∧
      s.frontier ≤ sequenceOf (dataRecord 0) ∧ sequenceOf (dataRecord 0) ≤ s.frontier + window) ∧
    (∀ p ∈ (samplePairing.run (overtaking 4097 4096)).accepted,
      ¬ (dataEntry 0).message.Carries p.1 ∧ p.2 ≠ .discard 1 (sequenceOf (dataRecord 0))) ∧
    ((samplePairing.run (overtaking 4097 4096)).receiver.openRecord .transparent (dataRecord 0)).1 = .error .replay := by
  rw [run_overtaking 4096 (by omega)]
  dsimp only
  have hnumber : sequenceOf (dataRecord 0) = 0 := by decide +kernel
  refine ⟨mem_map_of_mem (mem_range.mpr (by omega)), ⟨rfl, rfl, rfl⟩, ?_, ?_, by decide +kernel⟩
  · obtain ⟨s, hs, hfrontier⟩ : ∃ s,
        (sampleContext.openRecord .transparent (dataRecord 4096)).2.channels.find? 1 = some s ∧ s.frontier = 0 :=
      Option.map_eq_some_iff.mp (by decide +kernel)
    refine ⟨s, hs, ?_, ?_⟩
    · rw [hnumber, hfrontier]
    · rw [hnumber, hfrontier]
      decide
  · decide +kernel

/-- The second of two records arrives first; the first one is not refused. -/
theorem no_false_replay_overtaken :
    ((samplePairing.run (overtaking 2 1)).receiver.openRecord .transparent (dataRecord 0)).1 ≠ .error .replay := by
  have hrun := run_overtaking 1 (show 2 ≤ 1000000 by omega)
  have hmem : dataEntry 0 ∈ (samplePairing.run (overtaking 2 1)).log := by
    rw [hrun]
    exact mem_map_of_mem (mem_range.mpr (by omega))
  obtain ⟨s, hs, hfields⟩ : ∃ s, (sampleContext.openRecord .transparent (dataRecord 1)).2.channels.find? 1 = some s ∧
      (s.frontier, s.highest) = ((0 : Int), (1 : Int)) := Option.map_eq_some_iff.mp (by decide +kernel)
  obtain ⟨hfrontier, hhighest⟩ := Prod.ext_iff.mp hfields
  dsimp only at hfrontier hhighest
  have hnumber : sequenceOf (dataRecord 0) = 0 := by decide +kernel
  refine (no_false_replay samplePairing _ (along_overtaking (n := 1) (by omega) (by omega)) hmem
    (m := dataRecord 0) ⟨rfl, rfl, rfl⟩ (s := s) ?_ ?_ ?_ ?_ ?_ ?_).1
  · rw [hrun]
    exact hs
  · rw [hnumber, hfrontier]
  · rw [hnumber, hfrontier]
    decide
  · rw [hrun]
    decide +kernel
  · rw [hnumber, hfrontier, hhighest]
    decide
  · have hlog : (samplePairing.run (overtaking 2 1)).log = (range 2).map dataEntry := by rw [hrun]
    exact (genuine_data (by omega) hlog).2 _

end Sample

end Shadow6.PrivacyEnvelope
