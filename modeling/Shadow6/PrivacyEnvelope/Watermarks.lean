import Shadow6.PrivacyEnvelope.Windowing

/-!
# `PrivacyEnvelope.Watermarks` — the counts of closes, resets and finals

A control record carries the number of records that its sender has sealed on other channels. The receiver refuses it when
it has already gone past such a count, and it takes a count that it has reached as proof that nothing is missing.

For records that arrive in order on each channel, what the receiver has gone up to is bounded by what it was given
(`Known`). A close or a final is then never behind it, since its channels end there; a reset is, if data sealed after it
arrives first. The other direction rests on the tally of the used numbers: what is below a count was accepted, discarded
or confirmed lost.

A discard from beyond the window is refused after its record was marked; exactly the other calls of `open_record` that
raise leave no trace (`raised_unchanged`).
-/

namespace Shadow6.PrivacyEnvelope

open Library Library.Json List Dict

/-! ## Ready watermarks -/

namespace MessageSecurity

variable {t : MessageSecurity}

theorem watermarksReady_eq_true {ts : List (Int × Int)} (h : t.watermarksReady ts = .ok true) :
    t.closed = false ∧ ∀ p ∈ ts, ∃ s, t.channels.find? p.1 = some s ∧ p.2 ≤ s.frontier := by
  obtain ⟨_, hchk, hall⟩ := bind_eq_ok.mp h
  refine ⟨Bool.eq_false_iff.mpr (raiseIf_eq_ok.mp hchk), ?_⟩
  clear h
  induction ts with
  | nil =>
    intro p hp
    cases hp
  | cons tg ts ih =>
    obtain ⟨ready, hrdy, hall⟩ := bind_eq_ok.mp hall
    obtain ⟨s, hs, hrdy⟩ := bind_eq_ok.mp hrdy
    cases hrdy
    cases hrch : decide (s.frontier ≥ tg.2) with
    | false =>
      rw [hrch] at hall
      cases hall
    | true =>
      rw [hrch] at hall
      exact forall_mem_cons.mpr ⟨⟨s, state_eq_ok.mp hs, of_decide_eq_true hrch⟩, ih hall⟩

theorem finalComplete_eq_true (h : t.finalComplete = .ok true) :
    ∃ targets, t.rxTargets = some targets ∧ t.watermarksReady targets = .ok true := by
  obtain ⟨_, -, h⟩ := bind_eq_ok.mp h
  cases htgt : t.rxTargets with
  | none =>
    rw [htgt] at h
    cases h
  | some targets =>
    rw [htgt] at h
    exact ⟨targets, rfl, h⟩

end MessageSecurity

namespace Pairing

open MessageSecurity

variable {P : Pairing} {W W' : World} {e e' : Entry} {m : Message} {s : ChannelState} {a : Act} {id : Int}

/-- The record was accepted; or its channel is partially reliable, and it was discarded or confirmed lost. -/
def Accounted (W : World) (e : Entry) : Prop :=
  (∃ p ∈ W.accepted, e.message.Carries p.1) ∨
    e.message.channel.reliability ≠ .reliable ∧
      ((∃ p ∈ W.accepted, p.2 = .discard e.id e.number) ∨ (e.id, e.number) ∈ W.lost)

/-- The channel of a record has the reliability that it was created with. -/
theorem Authentic.reliability (h : P.Authentic e) (hs : P.sender.channels.find? e.id = some s) :
    e.message.channel.reliability = s.policy := by
  obtain ⟨body, x, hmade⟩ := h.made
  rw [hmade.prepared.policy hmade.bounded, policy_eq_of_skeleton h.alike.skeleton hs hmade.found]

theorem Authentic.discard_policy {n : Int} (h : P.Authentic e) (hfr : e.frame = .discard id n)
    (hs : P.sender.channels.find? id = some s) : s.policy ≠ .reliable := by
  obtain ⟨body, x, hmade⟩ := h.made
  have hadm := hmade.prepared.admits.1
  rw [hfr] at hadm
  obtain ⟨-, x, hx, hpol, -⟩ := hadm
  rw [← policy_eq_of_skeleton h.alike.skeleton hs hx]
  exact hpol

/-- What is below the frontier is accounted for. -/
theorem Settled.accounted (h : P.Settled W) (htally : Tally W) (ho : W.receiver.closed = false) (he : e ∈ W.log)
    (hs : W.receiver.channels.find? e.id = some s) (hbl : e.number < s.frontier) : Accounted W e := by
  have hauth := h.ledger.authentic e he
  obtain ⟨x, hx, -⟩ := policy_of_skeleton h.receiving.alike.symm.skeleton hs
  rcases (htally ho e.id s hs).below e.number hauth.number_nonneg hbl with htold | hlost
  · rcases h.told_record he htold with hacc | ⟨p, hp, hdis⟩
    · exact .inl hacc
    obtain ⟨e', he', -, hrd⟩ := h.evidence.accepted p hp
    have hfr : e'.frame = .discard e.id e.number := readAs_eq_discard (hrd.symm.trans hdis)
    refine .inr ⟨?_, .inl ⟨p, hp, hdis⟩⟩
    rw [hauth.reliability hx]
    exact (h.ledger.authentic e' he').discard_policy hfr hx
  refine .inr ⟨?_, .inr hlost⟩
  rw [hauth.reliability hx]
  exact h.evidence.lost _ hlost x hx

/-- A record that was sealed before the count of a target was taken is accounted for, once the target is reached. -/
theorem Settled.accounted_target (h : P.Settled W) (htally : Tally W) {ls : List Int} {l l' : List Entry}
    (hlog : W.log = l ++ e :: l') (hrdy : W.receiver.watermarksReady (e.before.targetsOf ls) = .ok true)
    (he' : e' ∈ l) (hid : e'.id ∈ ls) : Accounted W e' := by
  obtain ⟨ho, hrch⟩ := watermarksReady_eq_true hrdy
  obtain ⟨s, hs, hcnt⟩ := hrch (e'.id, e.before.countOf e'.id) (mem_map_of_mem hid)
  have hbef : e'.Before e := by
    have hord := h.ledger.ordered
    rw [hlog] at hord
    exact (pairwise_append.mp hord).2.2 e' he' e mem_cons_self
  have hmem : e' ∈ W.log := by
    rw [hlog]
    exact mem_append_left _ he'
  refine h.accounted htally ho hmem hs ?_
  calc e'.number < e.before.sentOf e'.id := hbef.number
    _ ≤ e.before.countOf e'.id := sentOf_le_countOf _ _
    _ ≤ s.frontier := hcnt

/-- A record that is read as a reset is one, with the counts of its sender. -/
theorem Authentic.readAs_reset {r : StreamReset} {ts : List (Int × Int)} (h : P.Authentic e)
    (hrd : readAs e.before e.frame = .resetConfirmed r ts) :
    ∃ r', e.frame = .reset r' ∧ ts = e.before.targetsOf (e.before.resetIds r') := by
  obtain ⟨body, s', hmade⟩ := h.made
  have hadm := hmade.prepared.admits.1
  cases hfr : e.frame with
  | reset r' =>
    rw [hfr] at hrd
    cases hrd
    exact ⟨r', rfl, rfl⟩
  | resetConfirmed r' ts' =>
    rw [hfr] at hadm
    exact hadm.elim
  | _ =>
    rw [hfr] at hrd
    cases hrd

/-- **Final completeness.** In every run whose discards stay within the window, a complete final is the last record that
    was sealed, and every record before it was accepted or, on a partially reliable channel, discarded or confirmed
    lost. The same holds for the channels of an accepted reset once its targets are reached. -/
theorem final_completeness (P : Pairing) (acts : List Act)
    (halong : Along P.step (fun W a => P.Genuine W a ∧ Near W a) P.start acts) :
    ((P.run acts).receiver.finalComplete = .ok true →
      ∃ l e, (P.run acts).log = l ++ [e] ∧ e.frame = .final ∧ ∀ e' ∈ l, Accounted (P.run acts) e') ∧
    ∀ m r targets, (m, .resetConfirmed r targets) ∈ (P.run acts).accepted →
      (P.run acts).receiver.watermarksReady targets = .ok true →
        ∃ l e l', (P.run acts).log = l ++ e :: l' ∧ e.message.Carries m ∧
          ∀ e' ∈ l, e'.id ∈ targets.map Prod.fst → Accounted (P.run acts) e' := by
  have hinvariant : P.Settled (P.run acts) ∧ Tally (P.run acts) := by
    refine halong.invariant (I := fun W => P.Settled W ∧ Tally W) ?_ ⟨P.settled_start, P.tally_start⟩
    rintro W a ⟨hsettled, htally⟩ ⟨hgenuine, hnear⟩
    obtain ⟨hnext, hmoved⟩ := hsettled.step hgenuine
    exact ⟨hnext, htally.moved hnear hmoved⟩
  obtain ⟨hsettled, htally⟩ := hinvariant
  constructor
  · intro hcomplete
    obtain ⟨targets, htargets, hready⟩ := finalComplete_eq_true hcomplete
    have hopen := (watermarksReady_eq_true hready).1
    obtain ⟨e, he, -, hfinal, rfl⟩ := hsettled.evidence.targets hopen targets htargets
    obtain ⟨l, l', hlog⟩ := append_of_mem he
    -- nothing was sealed after the final
    have hlast : l' = [] := by
      rw [eq_nil_iff_forall_not_mem]
      intro x hx
      have hordered := hsettled.ledger.ordered
      rw [hlog] at hordered
      have hafter := (pairwise_cons.mp (pairwise_append.mp hordered).2.1).1 x hx
      exact hafter.unfinished hfinal
    subst hlast
    refine ⟨l, e, hlog, hfinal, ?_⟩
    intro e' he'
    have hmem : e' ∈ (P.run acts).log := by
      rw [hlog]
      exact mem_append_left _ he'
    refine hsettled.accounted_target htally hlog hready he' ?_
    rw [mem_ids]
    obtain ⟨body, x, hmade⟩ := (hsettled.ledger.authentic e' hmem).made
    have halike := (hsettled.ledger.authentic e' hmem).alike.symm.trans (hsettled.ledger.authentic e he).alike
    exact mem_of_skeleton halike.skeleton (mem_of_find? hmade.found)
  intro m r targets hm hready
  obtain ⟨e, he, hcarries, hread⟩ := hsettled.evidence.accepted _ hm
  obtain ⟨r', hframe, rfl⟩ := (hsettled.ledger.authentic e he).readAs_reset hread.symm
  obtain ⟨l, l', hlog⟩ := append_of_mem he
  refine ⟨l, e, l', hlog, hcarries, ?_⟩
  intro e' he' hid
  rw [targetsOf_fst] at hid
  exact hsettled.accounted_target htally hlog hready he' hid

end Pairing

/-! ### A refused discard that counts as received -/

/-- The world with records that were sealed before. -/
def World.after (l : List Entry) (W : World) : World := { W with log := l ++ W.log }

theorem Pairing.step_after (P : Pairing) (l : List Entry) (W : World) (a : Act) :
    P.step (W.after l) a = (P.step W a).after l := by
  cases a with
  | receiver call => cases call <;> rfl
  | sender call =>
    cases call with
    | sealRecord frame r =>
      unfold Pairing.step Pairing.callSender World.after
      dsimp only
      rw [append_assoc]
    | _ => rfl

theorem Pairing.foldl_after (P : Pairing) (l : List Entry) (W : World) (ac : List Act) :
    ac.foldl P.step (W.after l) = (ac.foldl P.step W).after l := by
  induction ac generalizing W with
  | nil => rfl
  | cons a ac ih => rw [foldl_cons, foldl_cons, P.step_after, ih]

section Sample

open MessageSecurity Pairing

/-- The record that a context seals. -/
def sealedBy (t : MessageSecurity) (frame : Frame) : Message :=
  ((answered (t.sealRecord .transparent frame zeroNonce.val).1).head?).getD ⟨control, 0, 0, []⟩

/-- The context after that. -/
def afterSeal (t : MessageSecurity) (frame : Frame) : MessageSecurity :=
  (t.sealRecord .transparent frame zeroNonce.val).2

/-- Seal a frame and hand it over. -/
def exchange (t : MessageSecurity) (frame : Frame) : List Act :=
  [.sender (.sealRecord frame zeroNonce), .receiver (.openRecord (sealedBy t frame))]

/-- One record, and the final after it. -/
def finishedActs : List Act := exchange sampleContext sampleData ++ exchange (senderAt 0 1) .final

theorem final_completeness_exchange : ∃ l e, (samplePairing.run finishedActs).log = l ++ [e] ∧ e.frame = .final ∧
      ∀ e' ∈ l, Accounted (samplePairing.run finishedActs) e' :=
  (final_completeness samplePairing finishedActs (by decide +kernel)).1 (by decide +kernel)

/-- The discard of the last of 4098 records. -/
def farDiscard : Message := sealedBy (senderAt 0 4098) (.discard 1 4097)

/-- This discard, the close of the channel and the final are handed over; in between the channel is closed natively. -/
def farActs : List Act :=
  exchange (senderAt 0 4098) (.discard 1 4097) ++ exchange (senderAt 1 4098) (.channelClose 1) ++
    [.receiver (.confirmNativeClose 1)] ++ exchange (afterSeal (senderAt 1 4098) (.channelClose 1)) .final

/-- **A refused discard counts as received.** It is beyond the window of its channel and refused, but it was marked on
    the control channel; the final is then complete although the discard was never accepted. -/
theorem refused_discard_counts : (samplePairing.run (seals 4098 ++ farActs)).receiver.finalComplete = .ok true ∧
    ∃ l e e', (samplePairing.run (seals 4098 ++ farActs)).log = l ++ [e] ∧ e.frame = .final ∧ e' ∈ l ∧
      e'.frame = .discard 1 4097 ∧ e'.message.channel.reliability = .reliable ∧
      ∀ p ∈ (samplePairing.run (seals 4098 ++ farActs)).accepted, ¬ e'.message.Carries p.1 := by
  have hrun : samplePairing.run (seals 4098 ++ farActs) =
      (farActs.foldl samplePairing.step ⟨senderAt 0 4098, sampleContext, [], [], [], []⟩).after
        ((range 4098).map dataEntry) := by
    rw [run_append, run_seals (by omega), ← Pairing.foldl_after]
    unfold World.after
    rw [append_nil]
  rw [hrun]
  generalize (range 4098).map dataEntry = sealed
  generalize hW : farActs.foldl samplePairing.step ⟨senderAt 0 4098, sampleContext, [], [], [], []⟩ = W
  have hcomplete : W.receiver.finalComplete = .ok true := by
    rw [← hW]
    decide +kernel
  have hframes : W.log.map Entry.frame = [.discard 1 4097, .channelClose 1, .final] := by
    rw [← hW]
    decide +kernel
  have hmessages : W.log.map Entry.message = [farDiscard,
      sealedBy (senderAt 1 4098) (.channelClose 1),
      sealedBy (afterSeal (senderAt 1 4098) (.channelClose 1)) .final] := by
    rw [← hW]
    decide +kernel
  have haccepted : ∀ p ∈ W.accepted, ¬ farDiscard.Carries p.1 := by
    rw [← hW]
    decide +kernel
  obtain ⟨e₁, l₁, hlog, hframe₁, hframes⟩ := map_eq_cons_iff.mp hframes
  obtain ⟨e₂, l₂, rfl, -, hframes⟩ := map_eq_cons_iff.mp hframes
  obtain ⟨e₃, l₃, rfl, hframe₃, hframes⟩ := map_eq_cons_iff.mp hframes
  obtain rfl := map_eq_nil_iff.mp hframes
  rw [hlog] at hmessages
  have hmessage : e₁.message = farDiscard := (cons.inj hmessages).1
  refine ⟨hcomplete, sealed ++ [e₁, e₂], e₃, e₁, ?_, hframe₃, ?_, hframe₁, ?_, ?_⟩
  · show sealed ++ W.log = _
    rw [hlog, append_assoc]
    rfl
  · exact mem_append_right _ mem_cons_self
  · rw [hmessage]
    decide +kernel
  · rw [hmessage]
    exact haccepted

end Sample

/-! ## Controls and data that race -/

namespace Pairing

open MessageSecurity

variable {P : Pairing} {W W' : World} {e e' : Entry} {m : Message} {s : ChannelState} {a : Act} {id n : Int}

/-- What the receiver is given are authentic records, in order on each channel. -/
def InOrder (W : World) : Act → Prop
  | .receiver (.openRecord m) => (∃ e ∈ W.log, e.message.Carries m) ∧
      ∀ m' ∈ W.opened, m'.channel.id = m.channel.id → sequenceOf m' < sequenceOf m
  | _ => True

instance (W : World) : ∀ a, Decidable (InOrder W a)
  | .receiver (.openRecord _) => inferInstanceAs (Decidable ((∃ e ∈ _, _) ∧ ∀ m' ∈ _, _ → _ < _))
  | .receiver (.sealRecord _ _) | .receiver (.confirmNativeClose _) | .receiver .close | .sender _ =>
    inferInstanceAs (Decidable True)

theorem InOrder.genuine (h : InOrder W a) : P.Genuine W a := by
  cases a with
  | sender call => trivial
  | receiver call =>
    cases call with
    | openRecord m => exact .inl h.1
    | _ => trivial

/-- The record brings the receiver up to a number of the channel. -/
def Reaches (e : Entry) (id n : Int) : Prop :=
  (e.id = id ∧ n ≤ e.number) ∨ (∃ k, e.frame = .discard id k ∧ n ≤ k) ∨
    ((e.frame = .channelClose id ∨ e.frame = .final) ∧ n < e.before.countOf id)

/-- The highest number of a channel is one that a record has brought the receiver up to. -/
def Known (W : World) : Prop :=
  W.receiver.closed = false → ∀ id s, W.receiver.channels.find? id = some s →
    s.highest = -1 ∨ ∃ e ∈ W.log, Heard W e ∧ Reaches e id s.highest

def Reached (W : World) (id n : Int) : Prop := n = -1 ∨ ∃ e ∈ W.log, Heard W e ∧ Reaches e id n

theorem Reached.mono (h : Reached W id n) (hlog : W.log ⊆ W'.log) (hopn : W.opened ⊆ W'.opened) : Reached W' id n :=
  h.imp_right fun ⟨e, he, hhd, hreac⟩ => ⟨e, hlog he, hhd.mono hopn, hreac⟩

theorem Reached.max {k : Int} (h : Reached W id n) (h' : Reached W id k) : Reached W id (max n k) := by
  rcases max_choice n k with hmax | hmax <;> rw [hmax] <;> assumption

theorem Known.moved (h : Known W) (hset : P.Settled W) (hmv : Moved W a W') : Known W' := by
  intro ho id s' hs'
  cases hmv with
  | closed hcl =>
    rw [hcl] at ho
    cases ho
  | quiet hlog hopn hsm _ _ =>
    obtain ⟨s, hs, hwin, -⟩ := hsm.origin hs'
    rw [← hwin]
    exact Reached.mono (h (hsm.closed ▸ ho) id s hs) hlog hopn
  | opened e m answer _ he hm hmark hlog hopn _ _ =>
    obtain ⟨s, hs, heff⟩ := hmark.states id s' hs'
    have hold : Reached W' id s.highest :=
      Reached.mono (h (hmark.closed ▸ ho) id s hs) (by simp [hlog]) (opened_subset hopn)
    have hnew : ∀ n, Reaches e id n → Reached W' id n := fun n hn => .inr ⟨e, hlog ▸ he, heard_last hm hopn, hn⟩
    have harr : Reached W' id (e.arrived id s.toWindow).highest := by
      rcases e.arrived_highest id s.toWindow with heq | ⟨hid, heq⟩ <;> rw [heq]
      · exact hold
      · exact hnew _ (.inl ⟨hid.symm, le_refl _⟩)
    rw [heff.numbers]
    rcases e.concluded_cases id s.toWindow with hwin | ⟨n, hfr, hwin⟩ <;> rw [hwin]
    · exact harr
    · rw [Window.declare_highest]
      exact harr.max (hnew n (.inr (.inl ⟨n, hfr, le_refl _⟩)))
  | cut id' s count hev hpol hcnt hrcvr hlog hopn _ _ =>
    have hs := closeEvidence_ok hev
    rw [hrcvr] at ho hs'
    have hold : ∀ n, Reached W id n → Reached W' id n := fun n hn => hn.mono (by simp [hlog]) (by simp [hopn])
    rcases find?_set_cases hs' with ⟨rfl, rfl⟩ | ⟨-, hs'⟩
    · -- the count is that of the close or the final
      obtain ⟨e, he, hhd, hfr, rfl⟩ := hset.count_heard hev
      refine (hold _ (h ho id s hs)).max (hold _ (.inr ⟨e, he, hhd, .inr (.inr ⟨hfr, ?_⟩)⟩))
      omega
    · exact hold _ (h ho id s' hs')

theorem known_start (P : Pairing) : Known P.start := by
  intro _ id s hs
  obtain ⟨c, -, rfl, -⟩ := P.created_receiver.states id s hs
  exact .inl rfl

theorem countOf_eq_sentOf_add {t : MessageSecurity} (hid : id ∈ t.channels) :
    t.countOf id = t.sentOf id + if id = 0 then 1 else 0 := by
  obtain ⟨x, hx⟩ := mem_iff_find?.mp hid
  rw [countOf_eq hx, sentOf_eq hx]
  rfl

theorem countOf_le (hauth : P.Authentic e) (hauth' : P.Authentic e') (hbef : e'.Before e) (id : Int) :
    e'.before.countOf id ≤ e.before.countOf id := by
  have hsn := hbef.sent id
  have hal := hauth'.alike.symm.trans hauth.alike
  by_cases hid : id ∈ e'.before.channels
  · rw [countOf_eq_sentOf_add hid, countOf_eq_sentOf_add (mem_of_skeleton hal.skeleton hid)]
    omega
  have hnone : id ∉ e.before.channels := fun hmem => hid (mem_of_skeleton hal.symm.skeleton hmem)
  unfold countOf
  rw [not_mem_iff_find?.mp hid, not_mem_iff_find?.mp hnone]

theorem Authentic.countOf_nonneg (h : P.Authentic e) (id : Int) : 0 ≤ e.before.countOf id := by
  obtain ⟨body, s, hmade⟩ := h.made
  refine le_trans ?_ (sentOf_le_countOf _ id)
  cases hx : e.before.channels.find? id with
  | none =>
    unfold sentOf
    rw [hx]
    exact le_refl 0
  | some x =>
    rw [sentOf_eq hx]
    exact (hmade.bounded.sent id x hx).1

/-- A record of the control channel that is new there comes after those that the receiver was given there. -/
theorem Settled.before_of_control (h : P.Settled W) (he : e ∈ W.log) (he' : e' ∈ W.log) (hid : e.id = 0) (hid' : e'.id = 0)
    (hnum : e'.number < e.number) : e'.Before e := by
  rcases h.ledger.compare he' he with heq | hbef | haft
  · rw [heq] at hnum
    omega
  · exact hbef
  have hlt := haft.number
  rw [hid, ← hid', ← (h.ledger.authentic e' he').number_eq] at hlt
  omega

theorem Authentic.control_id (h : P.Authentic e) (hdt : ∀ message, e.frame ≠ .data message) : e.id = 0 := by
  by_contra hid
  obtain ⟨message, hfr, -⟩ := h.data_of_ne hid
  exact hdt message hfr

/-- **The receiver is not past the count of a control record**, if it was given no data from beyond it. -/
theorem Settled.count_ahead (h : P.Settled W) (hkn : Known W) (ho : W.receiver.closed = false) (he : e ∈ W.log)
    (hctl : e.id = 0) (hnew : ∀ e' ∈ W.log, Heard W e' → e'.id = 0 → e'.number < e.number)
    (hdt : id ≠ 0 → ∀ e' ∈ W.log, Heard W e' → e'.id = id → e'.number < e.before.countOf id) :
    W.receiver.highestOf id < e.before.countOf id := by
  have hauth := h.ledger.authentic e he
  have hnn := hauth.countOf_nonneg id
  cases hx : W.receiver.channels.find? id with
  | none =>
    unfold highestOf
    rw [hx]
    show (-1 : Int) < _
    omega
  | some x =>
    rw [highestOf_eq hx]
    rcases hkn ho id x hx with hnone | ⟨e', he', hhd, hreac⟩
    · omega
    have hauth' := h.ledger.authentic e' he'
    have hbef : (∀ message, e'.frame ≠ .data message) → e'.Before e := by
      intro hfr
      have hid' := hauth'.control_id hfr
      exact h.before_of_control he he' hctl hid' (hnew e' he' hhd hid')
    rcases hreac with ⟨hid', hle⟩ | ⟨k, hfr, hle⟩ | ⟨hfr, hlt⟩
    · by_cases hid : id = 0
      · have hlt := hnew e' he' hhd (hid'.trans hid)
        have hown := hauth.number_eq
        have hcnt := sentOf_le_countOf e.before id
        rw [hctl, ← hid] at hown
        omega
      · have hlt := hdt hid e' he' hhd hid'
        omega
    · -- a discard names a number that was sealed
      have hbef := hbef (by rw [hfr]; rintro message ⟨⟩)
      obtain ⟨body, s', hmade⟩ := hauth'.made
      have hadm := hmade.prepared.admits.1
      rw [hfr] at hadm
      obtain ⟨-, y, hy, -, -, hsn⟩ := hadm
      have hgr := hbef.sent id
      have hcnt := sentOf_le_countOf e.before id
      rw [sentOf_eq hy] at hgr
      omega
    have hbef : e'.Before e := by
      refine hbef ?_
      rintro message hdt
      rw [hdt] at hfr
      rcases hfr with hfr | hfr <;> cases hfr
    exact hlt.trans_le (countOf_le hauth hauth' hbef id)

/-- The reasons of a record that is refused for a count. -/
def WatermarkRefused (x : Exn) : Prop := ∃ text ∈ watermarkTexts, x = .invalidArg text

instance (x : Exn) : Decidable (WatermarkRefused x) := inferInstanceAs (Decidable (∃ text ∈ _, _ = _))

theorem Authentic.openChecks_watermark {t : MessageSecurity} (h : P.Authentic e) (hrcv : P.Receiving t)
    (hm : e.message.Carries m) : Avoids WatermarkRefused (t.openChecks m) := by
  obtain ⟨body, s', hmade⟩ := h.made
  have hal := h.alike.symm.trans hrcv.alike
  obtain ⟨r, hr, -⟩ := hmade.receiver hal
  rw [hmade.openChecks_carried P.lawful hal hm hr]
  refine (avoids_raiseIf _ (by decide)).bind fun _ => (avoids_validateMessage (by decide) _ _).bind fun _ =>
    (avoids_raiseIf _ (by decide)).bind fun _ => (avoids_raiseIf _ (by decide)).bind fun _ =>
      (avoids_withinFinal (by decide) (by decide) _ _).bind fun _ => avoids_ok _

/-- The counts of an authentic record are not behind the receiver. -/
theorem Settled.read_ahead {x : Exn} (h : P.Settled W) (hkn : Known W) (ho : W.receiver.closed = false)
    (he : e ∈ W.log) (hnew : ∀ e' ∈ W.log, Heard W e' → e'.id = e.id → e'.number < e.number)
    (hreset : ∀ r, e.frame = .reset r → ∀ id ∈ e.before.resetIds r, id ≠ 0 →
      ∀ e' ∈ W.log, Heard W e' → e'.id = id → e'.number < e.before.sentOf id)
    (hrd : readBack e.before W.receiver e.frame = .error x) : ¬ WatermarkRefused x := by
  have hauth := h.ledger.authentic e he
  have hend : ∀ id, (e.frame = .channelClose id ∨ e.frame = .final) → id ≠ 0 →
      ∀ e' ∈ W.log, Heard W e' → e'.id = id → e'.number < e.before.countOf id :=
    fun id hfr hid e' he' _ hid' => h.ledger.ended he hfr hid he' hid'
  have hah : ∀ ids, e.id = 0 → (∀ id ∈ ids, id ≠ 0 → ∀ e' ∈ W.log, Heard W e' → e'.id = id →
      e'.number < e.before.countOf id) → ¬ W.receiver.Overtaken (e.before.targetsOf ids) := by
    rintro ids hctl hdt ⟨p, hp, hpast⟩
    obtain ⟨id, hid, rfl⟩ := mem_map.mp hp
    exact absurd hpast (not_le.mpr (h.count_ahead hkn ho he hctl (hctl ▸ hnew) (hdt id hid)))
  cases hfr : e.frame with
  | channelClose id =>
    have hctl := hauth.control_id (by rw [hfr]; rintro message ⟨⟩)
    rw [hctl] at hnew
    have hah := h.count_ahead hkn ho he hctl hnew (hend id (.inl hfr))
    have hunc : W.receiver.limitOf id = none := by
      cases hlim : W.receiver.limitOf id with
      | none => rfl
      | some count =>
        obtain ⟨s, hs, hcnt⟩ := Option.bind_eq_some_iff.mp hlim
        obtain ⟨e', he', hhd, hcls, -⟩ := h.evidence.limits ho id s count hs hcnt
        have hid' := (h.ledger.authentic e' he').control_id (by rw [hcls]; rintro message ⟨⟩)
        have hbef := h.before_of_control he he' hctl hid' (hnew e' he' hhd hid')
        exact absurd hfr (hbef.closes id hcls).1
    have hfree : ¬ (W.receiver.limitOf id ≠ none ∨ e.before.countOf id ≤ W.receiver.highestOf id) := by
      rintro (hcl | hpast)
      · exact hcl hunc
      · omega
    rw [hfr] at hrd
    simp only [readBack] at hrd
    rw [if_neg hfree] at hrd
    cases hrd
  | reset r =>
    have hctl := hauth.control_id (by rw [hfr]; rintro message ⟨⟩)
    rw [hfr] at hrd
    simp only [readBack] at hrd
    rw [if_neg (hah _ hctl fun id hid hne e' he' hhd hid' =>
      (hreset r hfr id hid hne e' he' hhd hid').trans_le (sentOf_le_countOf _ _))] at hrd
    cases hrd
  | final =>
    have hctl := hauth.control_id (by rw [hfr]; rintro message ⟨⟩)
    rw [hfr] at hrd
    simp only [readBack] at hrd
    rw [if_neg (hah _ hctl fun id _ => hend id (.inr hfr))] at hrd
    split at hrd
    · cases hrd
      decide
    · cases hrd
  | _ =>
    rw [hfr] at hrd
    cases hrd

/-- **Controls and data may race**, as far as closes and finals go: with delivery in order on each channel and in any
    order across them, none is refused for its counts. A reset is not refused if the records that have arrived on its
    channels were sealed before it. -/
theorem controls_race (P : Pairing) (acts : List Act) (halong : Along P.step InOrder P.start acts) {e : Entry}
    (he : e ∈ (P.run acts).log) {m : Message} (hm : e.message.Carries m)
    (horder : InOrder (P.run acts) (.receiver (.openRecord m)))
    (hreset : ∀ r, e.frame = .reset r → ∀ id ∈ e.before.resetIds r, id ≠ 0 →
      ∀ m' ∈ (P.run acts).opened, m'.channel.id = id → sequenceOf m' < e.before.sentOf id) :
    ∀ text ∈ watermarkTexts, ((P.run acts).receiver.openRecord P.crypto m).1 ≠ .error (.invalidArg text) := by
  have hinvariant : P.Settled (P.run acts) ∧ Known (P.run acts) := by
    refine halong.invariant (I := fun W => P.Settled W ∧ Known W) ?_ ⟨P.settled_start, P.known_start⟩
    rintro W a ⟨hsettled, hknown⟩ hinorder
    obtain ⟨hnext, hmoved⟩ := hsettled.step hinorder.genuine
    exact ⟨hnext, hknown.moved hsettled hmoved⟩
  obtain ⟨hsettled, hknown⟩ := hinvariant
  have hauthentic := hsettled.ledger.authentic e he
  have hnew : ∀ e' ∈ (P.run acts).log, Heard (P.run acts) e' → e'.id = e.id → e'.number < e.number := by
    rintro e' - ⟨m', hm', hcarries⟩ hid
    have hlt := horder.2 m' hm' (by rw [hcarries.channel, hm.channel]; exact hid)
    rwa [Entry.Made.sequenceOf_carried hcarries, Entry.Made.sequenceOf_carried hm] at hlt
  have hreset' : ∀ r, e.frame = .reset r → ∀ id ∈ e.before.resetIds r, id ≠ 0 → ∀ e' ∈ (P.run acts).log,
      Heard (P.run acts) e' → e'.id = id → e'.number < e.before.sentOf id := by
    rintro r hframe id hid hne e' - ⟨m', hm', hcarries⟩ hid'
    have hlt := hreset r hframe id hid hne m' hm' (by rw [hcarries.channel]; exact hid')
    rwa [Entry.Made.sequenceOf_carried hcarries] at hlt
  suffices havoids : Avoids WatermarkRefused ((P.run acts).receiver.openRecord P.crypto m).1 by
    intro text htext hx
    exact havoids _ hx ⟨text, htext, rfl⟩
  cases hauthentic.carried hsettled.receiving hm with
  | checked x hchecks heq =>
    have havoids := hauthentic.openChecks_watermark hsettled.receiving hm
    rw [hchecks] at havoids
    rw [heq]
    exact havoids.of_error
  | distant s x hpassed hkey heq =>
    rw [heq]
    refine avoids_error ?_
    rw [receiveKey_eq_error hkey]
    decide
  | unread s x hpassed hread heq =>
    rw [heq]
    exact avoids_error (hsettled.read_ahead hknown hpassed.opened he hnew hreset' hread)
  | late s hpassed _ heq =>
    rw [heq]
    exact avoids_error (by decide)
  | marked s rx t₁ hpassed hread hepoch heq =>
    have halike := hauthentic.alike.symm.trans hsettled.receiving.alike
    rcases (hauthentic.opened halike hm hpassed hread hepoch heq).answer with hok | ⟨herror, -⟩
    · rw [hok]
      exact avoids_ok _
    · rw [herror]
      exact avoids_error (by decide)

end Pairing

section Sample

open MessageSecurity Pairing

/-- A reset of the lossy channel. -/
def sampleReset : Frame := .reset ⟨[1], false, true, false, false⟩

/-- The reset is sealed, then a data record, which arrives first. -/
def racingActs : List Act :=
  [.sender (.sealRecord sampleReset zeroNonce), .sender (.sealRecord sampleData zeroNonce),
    .receiver (.openRecord (sealedBy (senderAt 1 0) sampleData))]

/-- **A reset loses the race** against data that was sealed after it: it is refused for its count. -/
theorem reset_loses_race : Along samplePairing.step InOrder samplePairing.start racingActs ∧
    InOrder (samplePairing.run racingActs) (.receiver (.openRecord (sealedBy sampleContext sampleReset))) ∧
    (∃ e ∈ (samplePairing.run racingActs).log, e.frame = sampleReset ∧
      e.message.Carries (sealedBy sampleContext sampleReset)) ∧
    ((samplePairing.run racingActs).receiver.openRecord .transparent (sealedBy sampleContext sampleReset)).1 =
      .error (.invalidArg "message reset watermark") := by
  refine ⟨by decide +kernel, by decide +kernel, by decide +kernel, by decide +kernel⟩

/-- A data record and the final after it are sealed. -/
def endingActs : List Act := [.sender (.sealRecord sampleData zeroNonce), .sender (.sealRecord .final zeroNonce)]

/-- The final arrives before the data; it is not refused. -/
theorem controls_race_final :
    ((samplePairing.run endingActs).receiver.openRecord .transparent (sealedBy (senderAt 0 1) .final)).1 ≠
      .error (.invalidArg "message final watermark") := by
  obtain ⟨e, he, hframe, hm⟩ : ∃ e ∈ (samplePairing.run endingActs).log, e.frame = .final ∧
      e.message.Carries (sealedBy (senderAt 0 1) .final) := by decide +kernel
  refine controls_race samplePairing endingActs ⟨trivial, trivial, trivial⟩ he hm (by decide +kernel) ?_ _ (by decide)
  intro r hreset
  rw [hframe] at hreset
  cases hreset

end Sample

/-! ## Calls that raise -/

namespace MessageSecurity

variable {t : MessageSecurity}

/-- A close or a discard that was read names a channel of the context. -/
theorem parse_known {ch : Channel} {sq : Int} {p : Bytes} {frm : Frame} {t' : MessageSecurity} {id : Int}
    (h : t.parse ch sq p = .ok (frm, t'))
    (hfr : (∃ count, frm = .channelCloseConfirmed id count) ∨ ∃ n, frm = .discard id n) : id ∈ t.channels := by
  simp only [parse, bind_eq_ok] at h
  obtain ⟨-, -, h⟩ := h
  split at h
  case h_7 => cases h
  all_goals
    obtain ⟨f, hf, h⟩ := bind_eq_ok.mp h
    cases h
  case h_4 => simp at hfr
  all_goals
    simp only [parseData, parseChannelClose, parseReset, parseCover, parseDiscard, bind_eq_ok, state_eq_ok] at hf
  case h_2 | h_6 =>
    obtain ⟨-, -, -, -, n, -, s, hs, -, -, -, -, hf⟩ := hf
    cases hf
    obtain ⟨_, ⟨⟩⟩ | ⟨_, ⟨⟩⟩ := hfr
    exact mem_of_find? hs
  all_goals obtain ⟨_, rfl⟩ | ⟨_, rfl⟩ := hfr <;> simp [pure, Except.pure] at hf

/-- The record passes the checks before decryption and carries the discard of a number that is beyond the window of its
    channel. -/
def FarDiscard (C : Crypto) (t : MessageSecurity) (m : Message) : Prop :=
  ∃ s id n x rest, t.openChecks m = .ok s ∧ t.decode C s m = .ok (.discard id n, rest) ∧
    t.channels.find? id = some x ∧ x.frontier + window < n

/-- A record that was marked is not the one that passed the checks. -/
theorem Passed.marked_ne {m : Message} {s : ChannelState} (h : Passed t m s) (rx : Ratchet) :
    t.setState m.channel.id { s with rx := rx, toWindow := s.accept window (sequenceOf m) } ≠ t := by
  intro heq
  refine (openChecks_ok h.checked).2 ?_
  rw [← heq]
  exact used_setState (Window.covers_accept_self _ _ _)

end MessageSecurity

open MessageSecurity

/-- **A call of `open_record` that raises leaves the context as it was**, whatever was called before, exactly if the
    record does not get as far as the discard of a number from beyond the window. -/
theorem raised_unchanged (P : Pairing) (acts : List Act) (m : Message) (e : Exn)
    (h : ((P.run acts).receiver.openRecord P.crypto m).1 = .error e) :
    ((P.run acts).receiver.openRecord P.crypto m).2 = (P.run acts).receiver ↔
      ¬ FarDiscard P.crypto (P.run acts).receiver m := by
  have hreceiving := P.receiving_run acts
  generalize (P.run acts).receiver = t at hreceiving h ⊢
  rcases openRecord_cases P.crypto t m fun s hopen hs => hreceiving.tracks hopen _ s hs with
    ⟨e', hraised, heq⟩ | ⟨s, rx, frame, t₁, key, derived, hpassed, hdecode, hparsed, -, -, heq⟩
  · rw [heq]
    refine iff_of_true rfl ?_
    rintro ⟨s, id, n, x, rest, hchecked, hdecode, -⟩
    obtain ⟨_, ⟨⟩⟩ := hraised s _ rest hchecked hdecode
  obtain ⟨⟨_, _⟩, -, hplain⟩ := bind_eq_ok.mp hdecode
  obtain ⟨plain, -, hplain⟩ := bind_eq_ok.mp hplain
  obtain ⟨⟨frame', t'⟩, hparse, hplain⟩ := bind_eq_ok.mp hplain
  cases hplain
  rw [heq] at h ⊢
  -- only a discard from beyond the window raises once the record was marked
  rcases conclude_cases _ frame with
    ⟨hok, -⟩ | ⟨_, _, _, -, -, hok⟩ | ⟨_, _, _, -, -, -, -, hok⟩ | ⟨e', hraised, hwhy⟩
  · rw [hok] at h
    cases h
  · rw [hok] at h
    cases h
  · rw [hok] at h
    cases h
  rcases hparsed with rfl | ⟨_, rfl, -⟩
  · rw [hraised]
    refine iff_of_false (hpassed.marked_ne rx) (not_not.mpr ?_)
    rcases hwhy with ⟨id, n, x, rfl, hx, hfar, -⟩ | ⟨id, n, rfl, hid⟩ | ⟨id, count, rfl, hid⟩
    · rcases find?_set_cases hx with ⟨rfl, rfl⟩ | ⟨-, hx⟩
      · have hgrows := Window.le_accept_frontier window s.toWindow (sequenceOf m)
        have hfar : (s.accept window (sequenceOf m)).frontier + window < n := hfar
        exact ⟨s, _, n, s, _, hpassed.checked, hdecode, hpassed.found, by omega⟩
      · exact ⟨s, id, n, x, _, hpassed.checked, hdecode, hx, hfar⟩
    · exact absurd (mem_set.mpr (.inr (parse_known hparse (.inr ⟨n, rfl⟩)))) hid
    · exact absurd (mem_set.mpr (.inr (parse_known hparse (.inl ⟨count, rfl⟩)))) hid
  · simp at hwhy

/-- The frame that a record gets as far as. -/
def reached (t : MessageSecurity) (m : Message) : Option Frame :=
  (t.openChecks m).toOption.bind fun s => (t.decode .transparent s m).toOption.map Prod.fst

theorem not_farDiscard_of_reached {t : MessageSecurity} {m : Message} (h : reached t m = none) :
    ¬ FarDiscard .transparent t m := by
  rintro ⟨s, id, n, x, rest, hchecked, hdecode, -⟩
  simp [reached, hchecked, Except.toOption, hdecode] at h

/-- What the receiver makes of a record after a run. -/
def openedAfter (acts : List Act) (m : Message) : Except Exn Frame × MessageSecurity :=
  (samplePairing.run acts).receiver.openRecord .transparent m

/-- An authentic reset that is refused for its count, and a far discard that is refused as a replay. -/
theorem raised_unchanged_authentic :
    (openedAfter racingActs (sealedBy sampleContext sampleReset)).1 = .error (.invalidArg "message reset watermark") ∧
    (openedAfter racingActs (sealedBy sampleContext sampleReset)).2 = (samplePairing.run racingActs).receiver ∧
    (openedAfter [.receiver (.openRecord farDiscard)] farDiscard).1 = .error .replay ∧
    (openedAfter [.receiver (.openRecord farDiscard)] farDiscard).2 =
      (samplePairing.run [.receiver (.openRecord farDiscard)]).receiver := by
  have hreset : (openedAfter racingActs (sealedBy sampleContext sampleReset)).1 =
      .error (.invalidArg "message reset watermark") := by decide +kernel
  have hreplay : (openedAfter [.receiver (.openRecord farDiscard)] farDiscard).1 = .error .replay := by decide +kernel
  exact ⟨hreset, (raised_unchanged samplePairing racingActs _ _ hreset).mpr (not_farDiscard_of_reached (by decide +kernel)),
    hreplay, (raised_unchanged samplePairing _ _ _ hreplay).mpr (not_farDiscard_of_reached (by decide +kernel))⟩

/-- **A refused discard is marked.** The call raises, and the number of the record is used up on the control channel. -/
theorem refused_discard_marked :
    (sampleContext.openRecord .transparent farDiscard).1 = .error .resourceLimit ∧
    (sampleContext.channels.find? 0).map (·.frontier) = some 0 ∧
    ((sampleContext.openRecord .transparent farDiscard).2.channels.find? 0).map
      (·.frontier) = some 1 := by
  decide +kernel

end Shadow6.PrivacyEnvelope
