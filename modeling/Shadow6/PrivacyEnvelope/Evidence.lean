import Shadow6.PrivacyEnvelope.Reception

/-!
# `PrivacyEnvelope.Evidence` — what the receiver has learnt from authentic records

In the runs of this module the receiver may be given any message, but the cipher opens authentic records only
(`Genuine`). `Opened` says what an authentic record does to each channel of the receiver when it is marked. The counts
that the receiver goes by are then those of a close or a final that the sender has sealed, and what it has accepted are
records of the sender (`Evidence`).
-/

namespace Shadow6.PrivacyEnvelope

open Library Library.Json List Dict

namespace MessageSecurity

variable {C : Crypto} {t : MessageSecurity} {id : Int}

/-- The count that a native close goes by is that of the close or the final. -/
theorem closeEvidence_count {s : ChannelState} {count : Int} (h : t.closeEvidence id = .ok (s, count)) :
    s.rxLimit = some count ∨ ∃ targets, t.rxTargets = some targets ∧ targets.lookup id = some count := by
  simp only [closeEvidence, bind_eq_ok, state_eq_ok] at h
  obtain ⟨-, -, s', hfind, count', hwm, h⟩ := h
  cases h
  unfold watermark at hwm
  cases hlim : s.rxLimit with
  | some limit =>
    rw [hlim] at hwm
    cases hwm
    exact .inl rfl
  | none =>
    rw [hlim] at hwm
    cases htgt : t.rxTargets with
    | none =>
      rw [htgt] at hwm
      cases hwm
    | some targets =>
      rw [htgt] at hwm
      refine .inr ⟨targets, rfl, ?_⟩
      dsimp only at hwm
      unfold assoc at hwm
      cases hlk : targets.lookup id with
      | none =>
        rw [hlk] at hwm
        cases hwm
      | some found =>
        rw [hlk] at hwm
        cases hwm
        rfl

end MessageSecurity

/-! ## The effect of an authentic record -/

namespace Entry

open MessageSecurity

/-- The window of a channel when the record has arrived. -/
def arrived (e : Entry) (id : Int) (w : Window) : Window := if id = e.id then w.accept window e.number else w

/-- The window of a channel when the record has taken effect: a discard within the window is declared. -/
def concluded (e : Entry) (id : Int) (w : Window) : Window :=
  match e.frame with
  | .discard id' n =>
    if id' = id ∧ (e.arrived id w).frontier ≤ n ∧ n ≤ (e.arrived id w).frontier + window then (e.arrived id w).declare n
    else e.arrived id w
  | _ => e.arrived id w

/-- What the number of the record does to a channel. -/
structure Arrival (e : Entry) (id : Int) (x x' : ChannelState) : Prop where
  policy : x'.policy = x.policy
  limit : x'.rxLimit = x.rxLimit
  epoch : x.rx.epoch ≤ x'.rx.epoch
  own : id = e.id → e.number / 4096 ≤ x'.rx.epoch
  other : id ≠ e.id → x'.rx = x.rx
  numbers : x'.toWindow = e.arrived id x.toWindow

/-- What the record does to a channel. -/
structure Effect (e : Entry) (id : Int) (x x' : ChannelState) : Prop where
  policy : x'.policy = x.policy
  limit : x'.rxLimit = if e.frame = .channelClose id then some (e.before.countOf id) else x.rxLimit
  epoch : x.rx.epoch ≤ x'.rx.epoch
  own : id = e.id → e.number / 4096 ≤ x'.rx.epoch
  other : id ≠ e.id → x'.rx = x.rx
  numbers : x'.toWindow = e.concluded id x.toWindow

/-- The record was marked: what it did to the channels, and what the call has answered. Only a discard from beyond the
    window is marked and then refused. -/
structure Opened (e : Entry) (t : MessageSecurity) (answer : Except Exn Frame) (t' : MessageSecurity) : Prop where
  opened : t.closed = false
  closed : t'.closed = t.closed
  unused : ∃ s, t.channels.find? e.id = some s ∧ s.frontier ≤ e.number ∧ e.number ≤ s.frontier + window
  states : ∀ id x', t'.channels.find? id = some x' → ∃ x, t.channels.find? id = some x ∧ e.Effect id x x'
  targets : t'.rxTargets = if e.frame = .final then some (e.before.targetsOf e.before.ids) else t.rxTargets
  answer : answer = .ok (readAs e.before e.frame) ∨ answer = .error .resourceLimit ∧
    ∃ id n x, e.frame = .discard id n ∧ t.channels.find? id = some x ∧ (e.arrived id x.toWindow).frontier + window < n

/-- The number of the record is taken; its frame has not acted yet. -/
structure Taken (e : Entry) (t t' : MessageSecurity) : Prop where
  opened : t.closed = false
  closed : t'.closed = t.closed
  unused : ∃ s, t.channels.find? e.id = some s ∧ s.frontier ≤ e.number ∧ e.number ≤ s.frontier + window
  known : ∀ id, id ∈ t.channels → id ∈ t'.channels
  states : ∀ id x', t'.channels.find? id = some x' → ∃ x, t.channels.find? id = some x ∧ e.Arrival id x x'
  targets : t'.rxTargets = if e.frame = .final then some (e.before.targetsOf e.before.ids) else t.rxTargets

variable {e : Entry} {id n : Int} {w : Window} {x x' : ChannelState}

theorem concluded_of_discard (hfr : e.frame = .discard id n) (hlow : (e.arrived id w).frontier ≤ n)
    (hhigh : n ≤ (e.arrived id w).frontier + window) : e.concluded id w = (e.arrived id w).declare n := by
  unfold concluded
  rw [hfr]
  exact if_pos ⟨rfl, hlow, hhigh⟩

theorem concluded_of_not (h : ∀ n, e.frame = .discard id n →
    ¬ ((e.arrived id w).frontier ≤ n ∧ n ≤ (e.arrived id w).frontier + window)) : e.concluded id w = e.arrived id w := by
  unfold concluded
  cases hfr : e.frame with
  | discard id' n =>
    refine if_neg ?_
    rintro ⟨rfl, hrg⟩
    exact h n hfr hrg
  | _ => rfl

theorem concluded_cases (e : Entry) (id : Int) (w : Window) :
    e.concluded id w = e.arrived id w ∨ ∃ n, e.frame = .discard id n ∧ e.concluded id w = (e.arrived id w).declare n := by
  by_cases hdis : ∃ n, e.frame = .discard id n ∧ (e.arrived id w).frontier ≤ n ∧ n ≤ (e.arrived id w).frontier + window
  · obtain ⟨n, hfr, hlow, hhigh⟩ := hdis
    exact .inr ⟨n, hfr, concluded_of_discard hfr hlow hhigh⟩
  · exact .inl (concluded_of_not fun n hfr hrg => hdis ⟨n, hfr, hrg⟩)

theorem arrived_highest (e : Entry) (id : Int) (w : Window) :
    (e.arrived id w).highest = w.highest ∨ id = e.id ∧ (e.arrived id w).highest = e.number := by
  unfold arrived
  split_ifs with hid
  · rw [Window.accept_highest]
    exact (max_choice e.number w.highest).symm.imp_right fun hmax => ⟨hid, hmax⟩
  · exact .inl rfl

theorem le_arrived_frontier (e : Entry) (id : Int) (w : Window) : w.frontier ≤ (e.arrived id w).frontier := by
  unfold arrived
  split_ifs
  · exact Window.le_accept_frontier _ _ _
  · exact le_refl _

theorem le_concluded_frontier (e : Entry) (id : Int) (w : Window) : w.frontier ≤ (e.concluded id w).frontier := by
  have harrv := e.le_arrived_frontier id w
  rcases e.concluded_cases id w with heq | ⟨n, -, heq⟩
  · rw [heq]
    exact harrv
  · rw [heq]
    exact harrv.trans (Window.le_declare_frontier _ _)

/-- The frame does not act on the channel. -/
theorem Arrival.untouched (h : e.Arrival id x x') (hcls : e.frame ≠ .channelClose id)
    (hdis : ∀ n, e.frame = .discard id n → ¬ (x'.frontier ≤ n ∧ n ≤ x'.frontier + window)) : e.Effect id x x' :=
  { h with
    limit := by rw [if_neg hcls, h.limit]
    numbers := by
      rw [h.numbers] at hdis ⊢
      exact (concluded_of_not hdis).symm }

theorem Arrival.close (h : e.Arrival id x x') (hcls : e.frame = .channelClose id) :
    e.Effect id x { x' with rxLimit := some (e.before.countOf id) } :=
  { h with
    limit := by rw [if_pos hcls]
    numbers := by
      refine h.numbers.trans (concluded_of_not ?_).symm
      rw [hcls]
      rintro n ⟨⟩ }

theorem Arrival.discard (h : e.Arrival id x x') (hfr : e.frame = .discard id n) (hlow : x'.frontier ≤ n)
    (hhigh : n ≤ x'.frontier + window) : e.Effect id x { x' with toWindow := x'.declare n } :=
  { h with
    limit := by
      rw [hfr, if_neg (by rintro ⟨⟩)]
      exact h.limit
    numbers := by
      rw [h.numbers] at hlow hhigh ⊢
      exact (concluded_of_discard hfr hlow hhigh).symm }

variable {t t' : MessageSecurity}

/-- The frame acts on the one channel that it names. -/
theorem Taken.acts (h : e.Taken t t') (hx : t'.channels.find? id = some x)
    (hown : ∀ y, e.Arrival id y x → e.Effect id y x') (hclose : ∀ id' ≠ id, e.frame ≠ .channelClose id')
    (hdiscard : ∀ id' ≠ id, ∀ n, e.frame ≠ .discard id' n) :
    e.Opened t (.ok (readAs e.before e.frame)) (t'.setState id x') where
  opened := h.opened
  closed := h.closed
  unused := h.unused
  states := by
    intro id' y' hy'
    rcases find?_set_cases hy' with ⟨rfl, rfl⟩ | ⟨hid, hy'⟩
    · obtain ⟨y, hy, harr⟩ := h.states id' x hx
      exact ⟨y, hy, hown y harr⟩
    · obtain ⟨y, hy, harr⟩ := h.states id' y' hy'
      exact ⟨y, hy, harr.untouched (hclose id' hid) fun n hfr => absurd hfr (hdiscard id' hid n)⟩
  targets := h.targets
  answer := .inl rfl

/-- The frame acts on no channel: it is no close, and no discard within a window. -/
theorem Taken.rests {answer : Except Exn Frame} (h : e.Taken t t') (hclose : ∀ id, e.frame ≠ .channelClose id)
    (hdiscard : ∀ id n x, e.frame = .discard id n → t'.channels.find? id = some x →
      ¬ (x.frontier ≤ n ∧ n ≤ x.frontier + window))
    (hanswer : answer = .ok (readAs e.before e.frame) ∨ answer = .error .resourceLimit ∧
      ∃ id n x, e.frame = .discard id n ∧ t.channels.find? id = some x ∧
        (e.arrived id x.toWindow).frontier + window < n) : e.Opened t answer t' where
  opened := h.opened
  closed := h.closed
  unused := h.unused
  states := by
    intro id x' hx'
    obtain ⟨x, hx, harr⟩ := h.states id x' hx'
    exact ⟨x, hx, harr.untouched (hclose id) fun n hfr => hdiscard id n x' hfr hx'⟩
  targets := h.targets
  answer := hanswer

end Entry

namespace Pairing

open MessageSecurity

variable {P : Pairing} {W : World} {e : Entry} {m : Message} {t : MessageSecurity} {s : ChannelState}

/-- The channels that a frame names are known to both sides. -/
theorem Authentic.names (h : P.Authentic e) (hal : e.before.Alike t) :
    (∀ id, e.frame = .channelClose id → id ∈ t.channels) ∧ ∀ id n, e.frame = .discard id n → id ∈ t.channels := by
  obtain ⟨body, s', hmade⟩ := h.made
  have hadm := hmade.prepared.admits.1
  constructor
  · intro id hfr
    rw [hfr] at hadm
    obtain ⟨-, x, hx, -⟩ := hadm
    exact mem_of_skeleton hal.skeleton (mem_of_find? hx)
  · intro id n hfr
    rw [hfr] at hadm
    obtain ⟨-, x, hx, -⟩ := hadm
    exact mem_of_skeleton hal.skeleton (mem_of_find? hx)

/-- The channel of the record, written and not yet concluded. -/
theorem arrival_set {rx : Ratchet} {id : Int} {x x' : ChannelState} (hs : t.channels.find? e.id = some s)
    (hep : rx.epoch = max s.rx.epoch (e.number / 4096)) (hx : t.channels.find? id = some x)
    (hx' : (t.channels.set e.id { s with rx := rx, toWindow := s.accept window e.number }).find? id = some x') :
    e.Arrival id x x' := by
  rcases find?_set_cases hx' with ⟨hid, rfl⟩ | ⟨hid, hx'⟩
  · rw [hid, hs] at hx
    cases hx
    refine ⟨rfl, rfl, ?_, ?_, fun hne => absurd hid hne, ?_⟩
    · show s.rx.epoch ≤ rx.epoch
      omega
    · intro _
      show e.number / 4096 ≤ rx.epoch
      omega
    · unfold Entry.arrived
      rw [if_pos hid]
  rw [hx] at hx'
  cases hx'
  refine ⟨rfl, rfl, le_refl _, fun heq => absurd heq hid, fun _ => rfl, ?_⟩
  unfold Entry.arrived
  rw [if_neg hid]

theorem readAs_eq_discard {bf : MessageSecurity} {frm : Frame} {id n : Int} (h : readAs bf frm = .discard id n) :
    frm = .discard id n := by
  cases frm with
  | discard id' n' => exact h
  | _ => cases h

/-- A record that is read as a close is one, with the count of its sender. -/
theorem Authentic.readAs_close {id cnt : Int} (h : P.Authentic e)
    (hrd : readAs e.before e.frame = .channelCloseConfirmed id cnt) :
    e.frame = .channelClose id ∧ cnt = e.before.countOf id := by
  obtain ⟨body, s', hmade⟩ := h.made
  have hadm := hmade.prepared.admits.1
  cases hfr : e.frame with
  | channelClose id' =>
    rw [hfr] at hrd
    cases hrd
    exact ⟨rfl, rfl⟩
  | channelCloseConfirmed id' cnt' =>
    rw [hfr] at hadm
    exact hadm.elim
  | _ =>
    rw [hfr] at hrd
    cases hrd

/-- The channel of a marked record takes its number. -/
theorem taken_setState {rx : Ratchet} {t₁ : MessageSecurity} (hm : e.message.Carries m) (hpass : Passed t m s)
    (hrd : readBack e.before t e.frame = .ok (readAs e.before e.frame, t₁))
    (hep : rx.epoch = max s.rx.epoch (e.number / 4096)) :
    e.Taken t (t₁.setState e.id { s with rx := rx, toWindow := s.accept window e.number }) := by
  have hs : t.channels.find? e.id = some s := by
    rw [← show m.channel.id = e.id from congrArg Channel.id hm.channel]
    exact hpass.found
  have hrange := And.intro hpass.low hpass.high
  rw [Entry.Made.sequenceOf_carried hm] at hrange
  obtain ⟨hchannels, hclosed, htargets⟩ : t₁.channels = t.channels ∧ t₁.closed = t.closed ∧
      t₁.rxTargets = if e.frame = .final then some (e.before.targetsOf e.before.ids) else t.rxTargets := by
    rcases (readBack_eq_ok hrd).2 with ⟨hfr, rfl⟩ | ⟨hfr, rfl⟩
    · rw [if_neg hfr]
      exact ⟨rfl, rfl, rfl⟩
    · rw [if_pos hfr]
      exact ⟨rfl, rfl, rfl⟩
  refine ⟨hpass.opened, hclosed, ⟨s, hs, hrange⟩, fun id hid => ?_, fun id x' hx' => ?_, htargets⟩
  · rw [setState, Dict.mem_set, hchannels]
    exact .inr hid
  · rw [setState, hchannels] at hx'
    rcases find?_set_cases hx' with ⟨rfl, -⟩ | ⟨-, hx⟩
    · exact ⟨s, hs, arrival_set hs hep hs hx'⟩
    · exact ⟨x', hx, arrival_set hs hep hx hx'⟩

/-- **What a marked record does.** Its channel takes the number; then the frame may act on the channel that it names. -/
theorem Authentic.opened {rx : Ratchet} {t₁ : MessageSecurity} (h : P.Authentic e) (hal : e.before.Alike t)
    (hm : e.message.Carries m) (hpass : Passed t m s)
    (hrd : readBack e.before t e.frame = .ok (readAs e.before e.frame, t₁))
    (hep : rx.epoch = max s.rx.epoch (e.number / 4096)) {r : Except Exn Frame × MessageSecurity}
    (heq : r = (t₁.setState e.id { s with rx := rx, toWindow := s.accept window e.number }).conclude
      (readAs e.before e.frame)) : e.Opened t r.1 r.2 := by
  have htaken := taken_setState hm hpass hrd hep
  obtain ⟨hclosing, hdiscarding⟩ := h.names hal
  generalize t₁.setState e.id { s with rx := rx, toWindow := s.accept window e.number } = t₂ at heq htaken
  rw [heq]
  rcases conclude_cases t₂ (readAs e.before e.frame) with
    ⟨hok, hnot, hpast⟩ | ⟨id, count, x, hfr, hx, hok⟩ | ⟨id, n, x, hfr, hx, hmin, hmax, hok⟩ | ⟨exn, herror, hwhy⟩
  · -- returned as it is; a discard of a number behind the frontier is among these
    rw [hok]
    refine htaken.rests ?_ ?_ (.inl rfl)
    · intro id hfr
      rw [hfr] at hnot
      exact hnot id _ rfl
    · rintro id n x hfr hx ⟨hmin, -⟩
      rw [hfr] at hpast
      obtain ⟨y, hy, hbehind⟩ := hpast id n rfl
      rw [hx] at hy
      cases hy
      omega
  · -- a close notes its count
    obtain ⟨hclose, rfl⟩ := h.readAs_close hfr
    rw [hok]
    refine htaken.acts hx (fun _ harr => harr.close hclose) ?_ ?_
    · rw [hclose]
      rintro id' hid ⟨⟩
      exact hid rfl
    · rw [hclose]
      rintro id' - n ⟨⟩
  · -- a discard declares its number
    have hdiscard := readAs_eq_discard hfr
    rw [hok]
    refine htaken.acts hx (fun _ harr => harr.discard hdiscard hmin hmax) ?_ ?_
    · rw [hdiscard]
      rintro id' - ⟨⟩
    · rw [hdiscard]
      rintro id' hid n' ⟨⟩
      exact hid rfl
  -- a discard from beyond the window; the channels that the frame names are known
  rw [herror]
  rcases hwhy with ⟨id, n, x, hfr, hx, hfar, rfl⟩ | ⟨id, n, hfr, hunknown⟩ | ⟨id, count, hfr, hunknown⟩
  · have hdiscard := readAs_eq_discard hfr
    obtain ⟨y, hy, harr⟩ := htaken.states id x hx
    refine htaken.rests ?_ ?_ (.inr ⟨rfl, id, n, y, hdiscard, hy, by rwa [← harr.numbers]⟩)
    · rw [hdiscard]
      rintro id' ⟨⟩
    · rw [hdiscard]
      rintro id' n' x' ⟨⟩ hx' ⟨-, hmax⟩
      rw [hx] at hx'
      cases hx'
      omega
  · exact absurd (htaken.known id (hdiscarding id n (readAs_eq_discard hfr))) hunknown
  · exact absurd (htaken.known id (hclosing id (h.readAs_close hfr).1)) hunknown

/-- A control record that passes the checks and is read back is marked. -/
theorem Authentic.marks {key : Bytes} {dr : List (Int × Bytes)} {p : Frame × MessageSecurity} (h : P.Authentic e)
    (hrcv : P.Receiving t) (hm : e.message.Carries m) (hchk : t.openChecks m = .ok s)
    (hkey : receiveKey P.crypto s.rx (e.number / 4096) = .ok (key, dr))
    (hrd : readBack e.before t e.frame = .ok p) (hctl : ∀ message, e.frame ≠ .data message) :
    e.Opened t (t.openRecord P.crypto m).1 (t.openRecord P.crypto m).2 := by
  have hfd := (openChecks_eq_ok hchk).found
  cases h.carried hrcv hm with
  | checked x href _ =>
    rw [hchk] at href
    cases href
  | distant s' x hpass href _ =>
    have hsm : some s = some s' := hfd.symm.trans hpass.found
    cases hsm
    rw [hkey] at href
    cases href
  | unread s' x _ href _ =>
    rw [hrd] at href
    cases href
  | late s' _ hdt _ =>
    obtain ⟨message, hdt⟩ := hdt
    exact absurd hdt (hctl message)
  | marked s' rx t₁ hpass hrd' hep heq =>
    exact h.opened (h.alike.symm.trans hrcv.alike) hm hpass hrd' hep heq

/-! ## Runs in which the cipher opens authentic records only -/

/-- What the receiver is given was sealed by the sender, or the cipher does not open it. -/
def Genuine (P : Pairing) (W : World) : Act → Prop
  | .receiver (.openRecord m) => (∃ e ∈ W.log, e.message.Carries m) ∨ W.receiver.rejects P.crypto m = true
  | _ => True

instance (P : Pairing) (W : World) : ∀ a, Decidable (P.Genuine W a)
  | .receiver (.openRecord _) => inferInstanceAs (Decidable ((∃ e ∈ _, _) ∨ _))
  | .receiver (.sealRecord _ _) | .receiver (.confirmNativeClose _) | .receiver .close | .sender _ =>
    inferInstanceAs (Decidable True)

/-- **A message of such a run** is refused without a trace, or it is an authentic record and marked. -/
theorem Ledger.open_cases (hled : P.Ledger W) (hrcv : P.Receiving W.receiver)
    (hgen : P.Genuine W (.receiver (.openRecord m))) :
    (∃ x, W.receiver.openRecord P.crypto m = (.error x, W.receiver)) ∨ ∃ e ∈ W.log, e.message.Carries m ∧
      e.Opened W.receiver (W.receiver.openRecord P.crypto m).1 (W.receiver.openRecord P.crypto m).2 := by
  rcases hgen with ⟨e, he, hm⟩ | hrej
  · have hauth := hled.authentic e he
    cases hauth.carried hrcv hm with
    | checked x _ heq | distant s x _ _ heq | unread s x _ _ heq => exact .inl ⟨x, heq⟩
    | late s _ _ heq => exact .inl ⟨_, heq⟩
    | marked s rx t₁ hpass hrd hep heq =>
      have hal := hauth.alike.symm.trans hrcv.alike
      exact .inr ⟨e, he, hm, hauth.opened hal hm hpass hrd hep heq⟩
  · exact .inl (openRecord_rejected hrej)

/-- **What a step of such a run can do**, as the receiver sees it. -/
inductive Moved (W : World) (a : Act) (W' : World) : Prop where
  /-- Neither window nor count has changed. -/
  | quiet (hlog : W.log ⊆ W'.log) (hopened : W.opened ⊆ W'.opened) (hsame : SameReceiving W.receiver W'.receiver)
      (haccepted : W'.accepted = W.accepted) (hlost : W'.lost = W.lost)
  | closed (hclosed : W'.receiver.closed = true) (hlog : W'.log = W.log) (hopened : W'.opened = W.opened)
      (haccepted : W'.accepted = W.accepted) (hlost : W'.lost = W.lost)
  /-- An authentic record was marked. -/
  | opened (e : Entry) (m : Message) (answer : Except Exn Frame) (ha : a = .receiver (.openRecord m)) (he : e ∈ W.log)
      (hm : e.message.Carries m)
      (hmarked : e.Opened W.receiver answer W'.receiver) (hlog : W'.log = W.log) (hopened : W'.opened = W.opened ++ [m])
      (haccepted : W'.accepted = W.accepted ++ (answered answer).map fun frame => (m, frame)) (hlost : W'.lost = W.lost)
  /-- A native close has cut a channel off at its count. -/
  | cut (id : Int) (s : ChannelState) (count : Int) (hevidence : W.receiver.closeEvidence id = .ok (s, count))
      (hpolicy : s.policy ≠ .reliable) (hcount : s.frontier ≤ count)
      (hreceiver : W'.receiver = W.receiver.setState id { s with toWindow := s.cutTo count })
      (hlog : W'.log = W.log) (hopened : W'.opened = W.opened) (haccepted : W'.accepted = W.accepted)
      (hlost : W'.lost = W.lost ++ (s.missing count).map fun n => (id, n))

theorem Ledger.moved (hled : P.Ledger W) (hrcv : P.Receiving W.receiver) {a : Act} (hgen : P.Genuine W a) :
    Moved W a (P.step W a) := by
  have hsn : ∀ call, Moved W (.sender call) (P.callSender W call) := by
    intro call
    cases call with
    | sealRecord frame r =>
      exact .quiet (subset_append_left _ _) (.refl _) (.refl _) rfl rfl
    | _ => exact .quiet (.refl _) (.refl _) (.refl _) rfl rfl
  cases a with
  | sender call => exact hsn call
  | receiver call =>
    cases call with
    | sealRecord frame r =>
      exact .quiet (.refl _) (.refl _) (sealRecord_sameReceiving _ _ _ _) rfl rfl
    | close => exact .closed W.receiver.close_closed rfl rfl rfl rfl
    | openRecord m =>
      rcases hled.open_cases hrcv hgen with ⟨x, heq⟩ | ⟨e, he, hm, hmark⟩
      · refine .quiet (.refl _) (subset_append_left _ _) ?_ ?_ rfl
        · show SameReceiving W.receiver (W.receiver.openRecord P.crypto m).2
          rw [heq]
          exact .refl _
        · show W.accepted ++ (answered (W.receiver.openRecord P.crypto m).1).map _ = W.accepted
          rw [heq]
          exact append_nil _
      · exact .opened e m _ rfl he hm hmark rfl rfl rfl rfl
    | confirmNativeClose id =>
      have hlost : ∀ answer, W.receiver.confirmNativeClose id = answer →
          (P.step W (.receiver (.confirmNativeClose id))).receiver = answer.2 ∧
          (P.step W (.receiver (.confirmNativeClose id))).lost = W.lost ++
            (answered answer.1).flatMap fun _ => (W.receiver.lostBy id).map fun n => (id, n) := by
        rintro answer rfl
        exact ⟨rfl, rfl⟩
      rcases confirmNativeClose_cases W.receiver id with
        ⟨x, heq⟩ | ⟨heq, hnone⟩ | ⟨s, count, hev, hfind, hpol, hcnt, hmis, heq⟩
      · obtain ⟨hrcvr, hlost⟩ := hlost _ heq
        refine .quiet (.refl _) (.refl _) ?_ rfl (hlost.trans (append_nil _))
        rw [hrcvr]
        exact .refl _
      · obtain ⟨hrcvr, hlost⟩ := hlost _ heq
        refine .quiet (.refl _) (.refl _) ?_ rfl ?_
        · rw [hrcvr]
          exact .refl _
        · rw [hlost, hnone]
          exact append_nil _
      obtain ⟨hrcvr, hlost⟩ := hlost _ heq
      refine .cut id s count hev hpol hcnt hrcvr rfl rfl rfl ?_
      rw [hlost, hmis]
      exact congrArg (W.lost ++ ·) (append_nil _)

/-! ## Counts and accepted records -/

/-- The record was given to the receiver. -/
def Heard (W : World) (e : Entry) : Prop := ∃ m ∈ W.opened, e.message.Carries m

theorem Heard.mono {W W' : World} (h : Heard W e) (hopn : W.opened ⊆ W'.opened) : Heard W' e := by
  obtain ⟨m, hm, hcar⟩ := h
  exact ⟨m, hopn hm, hcar⟩

/-- The counts that the receiver goes by are those of a close or a final that it was given; what it has accepted are
    records that were sealed, and what it has confirmed lost was not to be delivered reliably. -/
structure Evidence (P : Pairing) (W : World) : Prop where
  limits : W.receiver.closed = false → ∀ id s count, W.receiver.channels.find? id = some s → s.rxLimit = some count →
    ∃ e ∈ W.log, Heard W e ∧ e.frame = .channelClose id ∧ count = e.before.countOf id
  targets : W.receiver.closed = false → ∀ targets, W.receiver.rxTargets = some targets →
    ∃ e ∈ W.log, Heard W e ∧ e.frame = .final ∧ targets = e.before.targetsOf e.before.ids
  accepted : ∀ p ∈ W.accepted, ∃ e ∈ W.log, e.message.Carries p.1 ∧ p.2 = readAs e.before e.frame
  lost : ∀ p ∈ W.lost, ∀ s, P.sender.channels.find? p.1 = some s → s.policy ≠ .reliable

/-- What holds in every such run. -/
structure Settled (P : Pairing) (W : World) : Prop where
  ledger : P.Ledger W
  receiving : P.Receiving W.receiver
  evidence : P.Evidence W

variable {W' : World}

theorem Evidence.quiet (h : P.Evidence W) (hlog : W.log ⊆ W'.log) (hopn : W.opened ⊆ W'.opened)
    (hsm : SameReceiving W.receiver W'.receiver) (hacc : W'.accepted = W.accepted) (hlost : W'.lost = W.lost) :
    P.Evidence W' where
  limits := by
    intro ho id s' count hs' hlim
    obtain ⟨s, hs, -, -, hsm'⟩ := hsm.origin hs'
    obtain ⟨e, he, hhd, hfr⟩ := h.limits (hsm.closed ▸ ho) id s count hs (hsm'.trans hlim)
    exact ⟨e, hlog he, hhd.mono hopn, hfr⟩
  targets := by
    intro ho ts htgt
    rw [hsm.rxTargets] at htgt
    obtain ⟨e, he, hhd, hfr⟩ := h.targets (hsm.closed ▸ ho) ts htgt
    exact ⟨e, hlog he, hhd.mono hopn, hfr⟩
  accepted := by
    intro p hp
    rw [hacc] at hp
    obtain ⟨e, he, hrd⟩ := h.accepted p hp
    exact ⟨e, hlog he, hrd⟩
  lost := by
    rw [hlost]
    exact h.lost

theorem opened_subset (hopn : W'.opened = W.opened ++ [m]) : W.opened ⊆ W'.opened := by
  rw [hopn]
  exact subset_append_left _ _

theorem heard_last (hm : e.message.Carries m) (hopn : W'.opened = W.opened ++ [m]) : Heard W' e := by
  refine ⟨m, ?_, hm⟩
  rw [hopn]
  exact mem_append_right _ (mem_singleton_self m)

theorem Evidence.opened {ans : Except Exn Frame} (h : P.Evidence W) (he : e ∈ W.log) (hm : e.message.Carries m)
    (hmark : e.Opened W.receiver ans W'.receiver) (hlog : W'.log = W.log) (hopn : W'.opened = W.opened ++ [m])
    (hacc : W'.accepted = W.accepted ++ (answered ans).map fun frame => (m, frame))
    (hlost : W'.lost = W.lost) : P.Evidence W' where
  limits := by
    intro ho id s' count hs' hlim
    obtain ⟨s, hs, heff⟩ := hmark.states id s' hs'
    rw [heff.limit] at hlim
    rw [hlog]
    by_cases hcls : e.frame = .channelClose id
    · rw [if_pos hcls] at hlim
      exact ⟨e, he, heard_last hm hopn, hcls, (Option.some.inj hlim).symm⟩
    rw [if_neg hcls] at hlim
    obtain ⟨e', he', hhd, hfr⟩ := h.limits (hmark.closed ▸ ho) id s count hs hlim
    exact ⟨e', he', hhd.mono (opened_subset hopn), hfr⟩
  targets := by
    intro ho ts htgt
    rw [hmark.targets] at htgt
    rw [hlog]
    by_cases hfin : e.frame = .final
    · rw [if_pos hfin] at htgt
      exact ⟨e, he, heard_last hm hopn, hfin, (Option.some.inj htgt).symm⟩
    rw [if_neg hfin] at htgt
    obtain ⟨e', he', hhd, hfr⟩ := h.targets (hmark.closed ▸ ho) ts htgt
    exact ⟨e', he', hhd.mono (opened_subset hopn), hfr⟩
  accepted := by
    intro p hp
    rw [hacc] at hp
    rw [hlog]
    rcases mem_append.mp hp with hp | hp
    · exact h.accepted p hp
    rcases hmark.answer with rfl | ⟨rfl, -⟩
    · rw [mem_singleton.mp hp]
      exact ⟨e, he, hm, rfl⟩
    · cases hp
  lost := by
    rw [hlost]
    exact h.lost

theorem Evidence.cut {id cnt : Int} (h : P.Evidence W) (hrcv : P.Receiving W.receiver)
    (hs : W.receiver.channels.find? id = some s) (hpol : s.policy ≠ .reliable)
    (hrcvr : W'.receiver = W.receiver.setState id { s with toWindow := s.cutTo cnt }) (hlog : W'.log = W.log)
    (hopn : W'.opened = W.opened) (hacc : W'.accepted = W.accepted)
    (hlost : W'.lost = W.lost ++ (s.missing cnt).map fun n => (id, n)) : P.Evidence W' where
  limits := by
    intro ho id' s' cnt' hs' hlim
    rw [hrcvr] at ho hs'
    unfold Heard
    rw [hlog, hopn]
    rcases find?_set_cases hs' with ⟨rfl, rfl⟩ | ⟨-, hs'⟩
    · exact h.limits ho id' s cnt' hs hlim
    · exact h.limits ho id' s' cnt' hs' hlim
  targets := by
    intro ho ts htgt
    rw [hrcvr] at ho htgt
    unfold Heard
    rw [hlog, hopn]
    exact h.targets ho ts htgt
  accepted := by
    rw [hacc, hlog]
    exact h.accepted
  lost := by
    intro p hp x hx
    rw [hlost] at hp
    rcases mem_append.mp hp with hp | hp
    · exact h.lost p hp x hx
    obtain ⟨n, -, rfl⟩ := mem_map.mp hp
    rw [← policy_eq_of_skeleton hrcv.alike.skeleton hx hs]
    exact hpol

theorem Evidence.moved {a : Act} (h : P.Evidence W) (hrcv : P.Receiving W.receiver) (hmv : Moved W a W') :
    P.Evidence W' := by
  cases hmv with
  | quiet hlog hopn hsm hacc hlost => exact h.quiet hlog hopn hsm hacc hlost
  | opened e m answer _ he hm hmark hlog hopn hacc hlost =>
    exact h.opened he hm hmark hlog hopn hacc hlost
  | cut id s count hev hpol hcnt hrcvr hlog hopn hacc hlost =>
    exact h.cut hrcv (closeEvidence_ok hev) hpol hrcvr hlog hopn hacc hlost
  | closed hcl hlog _ hacc hlost =>
    have hnot : ¬ W'.receiver.closed = false := by
      rw [hcl]
      decide
    exact ⟨fun ho => absurd ho hnot, fun ho => absurd ho hnot, by rw [hacc, hlog]; exact h.accepted,
      by rw [hlost]; exact h.lost⟩

theorem Settled.step (h : P.Settled W) {a : Act} (hgen : P.Genuine W a) :
    P.Settled (P.step W a) ∧ Moved W a (P.step W a) := by
  have hmv := h.ledger.moved h.receiving hgen
  exact ⟨⟨h.ledger.step a, h.receiving.step a, h.evidence.moved h.receiving hmv⟩, hmv⟩

theorem settled_start (P : Pairing) : P.Settled P.start := by
  have hcre := P.created_receiver
  refine ⟨P.ledger_start, P.receiving_start, ⟨?_, ?_, ?_, ?_⟩⟩
  · intro _ id s count hs hlim
    obtain ⟨c, -, rfl, -⟩ := hcre.states id s hs
    cases hlim
  · intro _ ts htgt
    have hnone := hcre.rxTargets.symm.trans htgt
    cases hnone
  · intro p hp
    cases hp
  · intro p hp
    cases hp

/-- The count that a native close goes by is that of a close or a final that the receiver was given. -/
theorem Settled.count_heard {id count : Int} (h : P.Settled W) (hev : W.receiver.closeEvidence id = .ok (s, count)) :
    ∃ e ∈ W.log, Heard W e ∧ (e.frame = .channelClose id ∨ e.frame = .final) ∧ count = e.before.countOf id := by
  have hs := closeEvidence_ok hev
  have ho : W.receiver.closed = false := by
    obtain ⟨_, hcheck, -⟩ := bind_eq_ok.mp hev
    exact Bool.eq_false_iff.mpr (raiseIf_eq_ok.mp hcheck)
  rcases closeEvidence_count hev with hlim | ⟨targets, htgt, hlk⟩
  · obtain ⟨e, he, hhd, hfr, hcnt⟩ := h.evidence.limits ho id s count hs hlim
    exact ⟨e, he, hhd, .inl hfr, hcnt⟩
  obtain ⟨e, he, hhd, hfr, rfl⟩ := h.evidence.targets ho targets htgt
  refine ⟨e, he, hhd, .inr hfr, ?_⟩
  have hid : id ∈ e.before.ids := by
    rw [mem_ids]
    have hal := (h.ledger.authentic e he).alike.symm.trans h.receiving.alike
    exact mem_of_skeleton hal.symm.skeleton (mem_of_find? hs)
  rw [lookup_targetsOf hid] at hlk
  exact (Option.some.inj hlk).symm

end Pairing

end Shadow6.PrivacyEnvelope
