import Shadow6.Library.Fallible
import Shadow6.Library.Machine
import Shadow6.PrivacyEnvelope.MessageSecurity

/-!
# `PrivacyEnvelope.Replay` — every sequence number is taken at most once

A number of a channel is *used* when the channel's window covers it, or when the context is closed. No
operation makes a used number usable again: the three operations on windows cover what they covered, sealing
and the ratchets do not touch them, and `close`, which forgets the seen numbers, ends all reception.
`open_record` returns a frame only for a number that is not used, and uses it up.

Nothing here depends on the cipher: the numbers of forged records are used up at most once as well.
-/

namespace Shadow6.PrivacyEnvelope

open Library List

/-! ## Peeling computations apart -/

theorem raiseIf_eq_ok {c : Prop} [Decidable c] {e : Exn} {u : Unit} : raiseIf c e = .ok u ↔ ¬ c := by
  unfold raiseIf
  split <;> simp_all

namespace MessageSecurity

variable {C : Crypto} {t t' : MessageSecurity} {s s' : ChannelState} {id n : Int} {m : Message} {frame : Frame}

theorem state_eq_ok : t.state id = .ok s ↔ t.channels.find? id = some s := by
  unfold state
  cases t.channels.find? id <;> simp

/-! ## Used numbers -/

/-- The number `n` of the channel cannot be taken any more. -/
def Used (t : MessageSecurity) (id n : Int) : Prop :=
  t.closed = true ∨ ∃ s, t.channels.find? id = some s ∧ s.toWindow.Covers window n

/-- What is used stays used. -/
def Keeps (t t' : MessageSecurity) : Prop := ∀ id n, t.Used id n → t'.Used id n

theorem Keeps.refl (t : MessageSecurity) : t.Keeps t := fun _ _ h => h

theorem Keeps.trans {t'' : MessageSecurity} (h : t.Keeps t') (h' : t'.Keeps t'') : t.Keeps t'' :=
  fun id n hn => h' id n (h id n hn)

/-- Only the channels and the closed flag matter. -/
theorem keeps_of_eq (hchan : t'.channels = t.channels) (hcl : t'.closed = t.closed) : t.Keeps t' := by
  intro id n h
  unfold Used
  rwa [hchan, hcl]

/-- Writing one channel keeps what its window keeps. -/
theorem keeps_setState (hs : t.channels.find? id = some s)
    (hcov : ∀ n, s.toWindow.Covers window n → s'.toWindow.Covers window n) : t.Keeps (t.setState id s') := by
  rintro id' n (hcl | ⟨s₀, hfind, hn⟩)
  · exact .inl hcl
  · refine .inr ?_
    show ∃ s₁, (t.channels.set id s').find? id' = some s₁ ∧ s₁.toWindow.Covers window n
    rw [Dict.find?_set]
    by_cases hid : id' = id
    · subst hid
      rw [hs] at hfind
      cases hfind
      exact ⟨s', if_pos rfl, hcov n hn⟩
    · exact ⟨s₀, by rw [if_neg hid, hfind], hn⟩

theorem used_setState (h : s.toWindow.Covers window n) : (t.setState id s).Used id n :=
  .inr ⟨s, by simp [setState], h⟩

/-! ## `open_record` -/

theorem openChecks_ok (h : t.openChecks m = .ok s) :
    t.channels.find? m.channel.id = some s ∧ ¬ t.Used m.channel.id (sequenceOf m) := by
  simp only [openChecks, check, bind_eq_ok, raiseIf_eq_ok, state_eq_ok] at h
  obtain ⟨-, ho, -, -, s', hfind, -, -, -, -, -, -, -, hrep, -, -, -, -, h⟩ := h
  cases h
  refine ⟨hfind, ?_⟩
  rintro (hcl | ⟨s₀, hfind', hcov⟩)
  · exact ho hcl
  · rw [hfind] at hfind'
    cases hfind'
    exact hrep hcov

/-- Parsing writes at most the final counts. -/
theorem parse_eq_ok {ch : Channel} {sq : Int} {p : Bytes}
    (h : t.parse ch sq p = .ok (frame, t')) :
    t' = t ∨ ∃ ts, frame = .final ∧ t' = { t with rxTargets := some ts } := by
  simp only [parse, bind_eq_ok] at h
  obtain ⟨-, -, h⟩ := h
  split at h
  case h_7 => cases h
  all_goals
    obtain ⟨_, -, h⟩ := bind_eq_ok.mp h
    cases h
  case h_4 => exact .inr ⟨_, rfl, rfl⟩
  all_goals exact .inl rfl

theorem decode_eq_ok {key : Bytes} {dr : List (Int × Bytes)}
    (h : t.decode C s m = .ok (frame, t', key, dr)) :
    receiveKey C s.rx (sequenceOf m / 4096) = .ok (key, dr) ∧
      (t' = t ∨ ∃ ts, frame = .final ∧ t' = { t with rxTargets := some ts }) := by
  obtain ⟨⟨key', dr'⟩, hkey, h⟩ := bind_eq_ok.mp h
  obtain ⟨plain, -, h⟩ := bind_eq_ok.mp h
  obtain ⟨⟨frame', t₁⟩, hprs, h⟩ := bind_eq_ok.mp h
  cases h
  exact ⟨hkey, parse_eq_ok hprs⟩

theorem stepRx_eq_ok {ep : Int} {key : Bytes} {dr : List (Int × Bytes)}
    (h : stepRx s ep key dr = .ok s') : ∃ rx, s' = { s with rx := rx } := by
  unfold stepRx at h
  split at h
  · obtain ⟨_, -, h⟩ := bind_eq_ok.mp h
    cases h
    exact ⟨_, rfl⟩
  · cases h
    exact ⟨s.rx, rfl⟩

/-- **The end of `open_record`.** The frame is returned, a close notes its count, a discard within the window is
    declared, or the call raises although the record was marked. -/
theorem conclude_cases (t : MessageSecurity) (frame : Frame) :
    (t.conclude frame = (.ok frame, t) ∧ (∀ id count, frame ≠ .channelCloseConfirmed id count) ∧
      ∀ id n, frame = .discard id n → ∃ s, t.channels.find? id = some s ∧ n < s.frontier) ∨
    (∃ id count s, frame = .channelCloseConfirmed id count ∧ t.channels.find? id = some s ∧
      t.conclude frame = (.ok frame, t.setState id { s with rxLimit := some count })) ∨
    (∃ id n s, frame = .discard id n ∧ t.channels.find? id = some s ∧ s.frontier ≤ n ∧ n ≤ s.frontier + window ∧
      t.conclude frame = (.ok frame, t.setState id { s with toWindow := s.declare n })) ∨
    (∃ e, t.conclude frame = (.error e, t) ∧
      ((∃ id n s, frame = .discard id n ∧ t.channels.find? id = some s ∧ s.frontier + window < n ∧ e = .resourceLimit) ∨
        (∃ id n, frame = .discard id n ∧ id ∉ t.channels) ∨
        ∃ id count, frame = .channelCloseConfirmed id count ∧ id ∉ t.channels)) := by
  have hunk : ∀ {id e}, t.state id = .error e → id ∉ t.channels := by
    intro id e hst hmem
    obtain ⟨s, hs⟩ := Dict.mem_iff_find?.mp hmem
    rw [state_eq_ok.mpr hs] at hst
    cases hst
  cases frame with
  | channelCloseConfirmed id count =>
    simp only [conclude]
    cases hst : t.state id with
    | error e => exact .inr (.inr (.inr ⟨e, rfl, .inr (.inr ⟨id, count, rfl, hunk hst⟩)⟩))
    | ok s => exact .inr (.inl ⟨id, count, s, rfl, state_eq_ok.mp hst, rfl⟩)
  | discard id n =>
    simp only [conclude]
    cases hst : t.state id with
    | error e => exact .inr (.inr (.inr ⟨e, rfl, .inr (.inl ⟨id, n, rfl, hunk hst⟩)⟩))
    | ok s =>
      have hfind := state_eq_ok.mp hst
      dsimp only
      split_ifs with hnew hfar
      · exact .inr (.inr (.inr ⟨_, rfl, .inl ⟨id, n, s, rfl, hfind, hfar, rfl⟩⟩))
      · exact .inr (.inr (.inl ⟨id, n, s, rfl, hfind, hnew, not_lt.mp hfar, rfl⟩))
      refine .inl ⟨rfl, by rintro id count ⟨⟩, ?_⟩
      rintro id' n' ⟨⟩
      exact ⟨s, hfind, not_le.mp hnew⟩
  | _ => exact .inl ⟨rfl, by rintro id count ⟨⟩, by rintro id n ⟨⟩⟩

/-- The last step keeps what is used, answers with its frame, and uses up the number a discard names. -/
theorem conclude_spec (t : MessageSecurity) (frame : Frame) :
    t.Keeps (t.conclude frame).2 ∧ ∀ frame', (t.conclude frame).1 = .ok frame' →
      ∀ id n, frame' = .discard id n → (t.conclude frame).2.Used id n := by
  rcases conclude_cases t frame with
    ⟨heq, -, hbeh⟩ | ⟨id, count, s, rfl, hs, heq⟩ | ⟨id, n, s, rfl, hs, -, -, heq⟩ | ⟨e, heq, -⟩ <;> rw [heq]
  · refine ⟨.refl t, ?_⟩
    rintro _ ⟨⟩ id n hdis
    -- an old discard names a number below the frontier
    obtain ⟨s, hs, hlt⟩ := hbeh id n hdis
    exact .inr ⟨s, hs, .inr (.inr hlt)⟩
  · refine ⟨keeps_setState hs fun _ h => h, ?_⟩
    rintro _ ⟨⟩ id' n ⟨⟩
  · refine ⟨keeps_setState hs fun _ h => h.declare n, ?_⟩
    rintro _ ⟨⟩ id' n' ⟨⟩
    exact used_setState (Window.covers_declare_self _ _ _)
  · exact ⟨.refl t, nofun⟩

/-- **What a call of `open_record` does to the used numbers.** Whatever it answers, they stay used; with a
    frame, the number of the record was not used before and is now, as is the number a discard declares lost. -/
theorem openRecord_spec (C : Crypto) (t : MessageSecurity) (msg : Message) :
    t.Keeps (t.openRecord C msg).2 ∧ ∀ frame, (t.openRecord C msg).1 = .ok frame →
      ¬ t.Used msg.channel.id (sequenceOf msg) ∧
      (t.openRecord C msg).2.Used msg.channel.id (sequenceOf msg) ∧
      ∀ id n, frame = .discard id n → (t.openRecord C msg).2.Used id n := by
  unfold openRecord
  cases hchk : t.openChecks msg with
  | error e => exact ⟨.refl t, nofun⟩
  | ok s =>
    obtain ⟨hfind, hunus⟩ := openChecks_ok hchk
    dsimp only
    cases hdec : t.decode C s msg with
    | error e => exact ⟨.refl t, nofun⟩
    | ok r =>
      obtain ⟨frame, t₁, key, derived⟩ := r
      obtain ⟨hchan, hcl⟩ : t₁.channels = t.channels ∧ t₁.closed = t.closed := by
        rcases (decode_eq_ok hdec).2 with rfl | ⟨targets, -, rfl⟩ <;> exact ⟨rfl, rfl⟩
      have hpar : t.Keeps t₁ := keeps_of_eq hchan hcl
      dsimp only
      split_ifs with hlate
      · exact ⟨hpar, nofun⟩
      cases hrx : stepRx s (sequenceOf msg / 4096) key derived with
      | error e => exact ⟨hpar, nofun⟩
      | ok s₁ =>
        obtain ⟨rx, rfl⟩ := stepRx_eq_ok hrx
        rw [← hchan] at hfind
        -- the record's own number is covered as soon as its channel is written
        dsimp only
        generalize ht₂ : t₁.setState msg.channel.id
          { s with rx := rx, toWindow := s.accept window (sequenceOf msg) } = t₂
        have hacc : t₁.Keeps t₂ := ht₂ ▸ keeps_setState hfind fun _ h => h.accept _
        have hown : t₂.Used msg.channel.id (sequenceOf msg) :=
          ht₂ ▸ used_setState (Window.covers_accept_self _ _ _)
        obtain ⟨hkp, hlost⟩ := conclude_spec t₂ frame
        exact ⟨(hpar.trans hacc).trans hkp, fun frame' h => ⟨hunus, hkp _ _ hown, hlost frame' h⟩⟩

/-! ## The other operations -/

theorem closeEvidence_ok {cnt : Int} (h : t.closeEvidence id = .ok (s, cnt)) : t.channels.find? id = some s := by
  simp only [closeEvidence, bind_eq_ok, state_eq_ok] at h
  obtain ⟨-, -, s', hfind, _, -, h⟩ := h
  cases h
  exact hfind

/-- The numbers that a native close of the channel declares lost: those below the authenticated count that
    were neither received nor declared lost before. -/
def lostBy (t : MessageSecurity) (id : Int) : List Int :=
  match t.closeEvidence id with
  | .ok (s, count) => s.missing count
  | .error _ => []

variable (t)

/-- **What `confirm_native_close` does**: it is refused, has nothing to declare lost, or cuts a channel off at its count. -/
theorem confirmNativeClose_cases (id : Int) : (∃ e, t.confirmNativeClose id = (.error e, t)) ∨
    (t.confirmNativeClose id = (.ok 0, t) ∧ t.lostBy id = []) ∨
    ∃ s count, t.closeEvidence id = .ok (s, count) ∧ t.channels.find? id = some s ∧ s.policy ≠ .reliable ∧
      s.frontier ≤ count ∧ t.lostBy id = s.missing count ∧
      t.confirmNativeClose id = (.ok (s.missing count).length, t.setState id { s with toWindow := s.cutTo count }) := by
  unfold confirmNativeClose lostBy
  cases hev : t.closeEvidence id with
  | error e => exact .inl ⟨e, rfl⟩
  | ok p =>
    obtain ⟨s, count⟩ := p
    have hfd := closeEvidence_ok hev
    -- without a gap below the count, nothing is missing
    have hnone : count ≤ s.frontier → s.missing count = [] := by
      intro hle
      refine eq_nil_iff_forall_not_mem.mpr fun n hn => ?_
      obtain ⟨hlow, hhigh, -⟩ := Window.mem_missing.mp hn
      omega
    dsimp only
    split_ifs with hpast hid hrel hgap
    · exact .inl ⟨_, rfl⟩
    · exact .inr (.inl ⟨rfl, hnone (by omega)⟩)
    · exact .inl ⟨_, rfl⟩
    · exact .inr (.inl ⟨rfl, hnone (by omega)⟩)
    · exact .inr (.inr ⟨s, count, rfl, hfd, hrel, by omega, rfl, by rw [Window.length_missing (by omega)]⟩)

/-- A native close keeps what is used, uses up the numbers it declares lost, and answers how many they are. -/
theorem confirmNativeClose_spec (id : Int) :
    t.Keeps (t.confirmNativeClose id).2 ∧ ∀ lost, (t.confirmNativeClose id).1 = .ok lost →
      lost = (t.lostBy id).length ∧ ∀ n ∈ t.lostBy id, (t.confirmNativeClose id).2.Used id n := by
  rcases confirmNativeClose_cases t id with
    ⟨e, heq⟩ | ⟨heq, hnone⟩ | ⟨s, count, -, hs, -, hcnt, hmis, heq⟩ <;> rw [heq]
  · exact ⟨.refl t, nofun⟩
  · refine ⟨.refl t, ?_⟩
    rintro _ ⟨⟩
    simp [hnone]
  refine ⟨keeps_setState hs fun _ h => h.cutTo hcnt, ?_⟩
  rintro _ ⟨⟩
  rw [hmis]
  exact ⟨rfl, fun n hn => used_setState (Window.covers_cutTo_of_lt (Window.mem_missing.mp hn).2.1)⟩

theorem close_keeps : t.Keeps t.close := by
  unfold close
  split
  · exact .refl t
  · exact fun _ _ _ => .inl rfl

variable {t}

theorem prepare_ok {ch : Channel} {bd : Bytes} (h : t.prepare frame = .ok (ch, bd, s))
    : t.channels.find? ch.id = some s := by
  obtain ⟨_, -, h⟩ := bind_eq_ok.mp h
  obtain ⟨_, -, h⟩ := bind_eq_ok.mp h
  obtain ⟨_, -, h⟩ := bind_eq_ok.mp h
  obtain ⟨_, hst, h⟩ := bind_eq_ok.mp h
  obtain ⟨_, -, h⟩ := bind_eq_ok.mp h
  cases h
  exact state_eq_ok.mp hst

theorem stepTx_toWindow (C : Crypto) (s : ChannelState) : (s.stepTx C).toWindow = s.toWindow := by
  unfold ChannelState.stepTx
  split <;> rfl

theorem sealedFrame_keeps (t : MessageSecurity) (frame : Frame) : t.Keeps (t.sealedFrame frame) := by
  cases frame with
  | channelClose id =>
    simp only [sealedFrame]
    cases hfind : t.channels.find? id with
    | none => exact .refl t
    | some s => exact keeps_setState hfind fun _ h => h
  | final => exact keeps_of_eq rfl rfl
  | _ => exact .refl t

theorem sealRecord_keeps (C : Crypto) (t : MessageSecurity) (frame : Frame) (rnd : Bytes) :
    t.Keeps (t.sealRecord C frame rnd).2 := by
  unfold sealRecord
  cases hprep : t.prepare frame with
  | error e => exact .refl t
  | ok r =>
    obtain ⟨channel, body, s⟩ := r
    have hfind := prepare_ok hprep
    have hwin : ∀ n, s.toWindow.Covers window n → (s.stepTx C).toWindow.Covers window n := by
      intro n h
      rwa [stepTx_toWindow]
    dsimp only
    split_ifs
    · exact keeps_setState hfind hwin
    refine Keeps.trans ?_ (sealedFrame_keeps _ frame)
    have hsn : t.Keeps (t.setState channel.id { s.stepTx C with sent := (s.stepTx C).sent + 1 }) :=
      keeps_setState hfind hwin
    exact hsn.trans (keeps_of_eq rfl rfl)

end MessageSecurity

/-! ## Runs of a receiver -/

/-- A call on a context. -/
inductive Op where
  | sealRecord (frame : Frame) (random : Bytes)
  | openRecord (message : Message)
  | confirmNativeClose (id : Int)
  | close

/-- What the application learns about a number of a channel. -/
inductive Event where
  | returned (channel sequence : Int)
  | lost (channel sequence : Int)
deriving DecidableEq, Repr

def Event.channel : Event → Int
  | .returned channel _ => channel
  | .lost channel _ => channel

def Event.sequence : Event → Int
  | .returned _ sequence => sequence
  | .lost _ sequence => sequence

/-- A context and what it has told so far, oldest first. -/
structure Receiver where
  security : MessageSecurity
  log : List Event

/-- The events in the answer of `open_record`: the frame, and the number it declares lost. -/
def opened (message : Message) : Except Exn Frame → List Event
  | .ok (.discard id n) => [.returned message.channel.id (MessageSecurity.sequenceOf message), .lost id n]
  | .ok _ => [.returned message.channel.id (MessageSecurity.sequenceOf message)]
  | .error _ => []

/-- The events in the answer of `confirm_native_close`. -/
def confirmed (id : Int) (numbers : List Int) : Except Exn Int → List Event
  | .ok _ => numbers.map (.lost id)
  | .error _ => []

def Receiver.step (C : Crypto) (r : Receiver) : Op → Receiver
  | .sealRecord frame random => { r with security := (r.security.sealRecord C frame random).2 }
  | .openRecord message =>
    let answer := r.security.openRecord C message
    ⟨answer.2, r.log ++ opened message answer.1⟩
  | .confirmNativeClose id =>
    let answer := r.security.confirmNativeClose id
    ⟨answer.2, r.log ++ confirmed id (r.security.lostBy id) answer.1⟩
  | .close => { r with security := r.security.close }

def Receiver.run (C : Crypto) (t : MessageSecurity) (ops : List Op) : Receiver :=
  ops.foldl (Receiver.step C) ⟨t, []⟩

/-- `later` does not return a number that `earlier` returned or declared lost. -/
def Apart (earlier later : Event) : Prop :=
  ∀ channel sequence, later = .returned channel sequence →
    earlier ≠ .returned channel sequence ∧ earlier ≠ .lost channel sequence

/-- Every number in the log is used, and no number is returned again. -/
structure Logged (r : Receiver) : Prop where
  used : ∀ e ∈ r.log, r.security.Used e.channel e.sequence
  apart : r.log.Pairwise Apart

/-- New events go with the log when the numbers they return were not used. -/
theorem Logged.append {r : Receiver} (h : Logged r) {t : MessageSecurity} {es : List Event}
    (hkp : r.security.Keeps t) (hused : ∀ e ∈ es, t.Used e.channel e.sequence)
    (hnew : ∀ channel sequence, .returned channel sequence ∈ es → ¬ r.security.Used channel sequence)
    (hapart : es.Pairwise Apart) : Logged ⟨t, r.log ++ es⟩ := by
  refine ⟨forall_mem_append.mpr ⟨fun e he => hkp _ _ (h.used e he), hused⟩, pairwise_append.mpr ⟨h.apart, hapart, ?_⟩⟩
  · rintro e he e' he' channel sequence rfl
    have hunus := hnew channel sequence he'
    refine ⟨?_, ?_⟩ <;> rintro rfl <;> exact hunus (h.used _ he)

/-- A list that returns at most its first event. -/
theorem pairwise_apart_lost {e : Event} {es : List Event} (h : ∀ e' ∈ es, ∃ id n, e' = .lost id n) :
    (e :: es).Pairwise Apart := by
  have hlost : ∀ e', ∀ e'' ∈ es, Apart e' e'' := by
    rintro e' e'' hmem channel sequence rfl
    obtain ⟨id, n, h⟩ := h _ hmem
    cases h
  refine pairwise_cons.mpr ⟨hlost e, ?_⟩
  exact pairwise_of_forall_mem_list fun e' _ e'' hmem => hlost e' e'' hmem

theorem Logged.step {C : Crypto} {r : Receiver} (h : Logged r) (op : Op) : Logged (r.step C op) := by
  cases op with
  | sealRecord frame rnd =>
    exact ⟨fun e he => r.security.sealRecord_keeps C frame rnd _ _ (h.used e he), h.apart⟩
  | close => exact ⟨fun e he => r.security.close_keeps _ _ (h.used e he), h.apart⟩
  | openRecord message =>
    obtain ⟨hkp, hfr⟩ := r.security.openRecord_spec C message
    show Logged ⟨_, r.log ++ opened message (r.security.openRecord C message).1⟩
    cases hans : (r.security.openRecord C message).1 with
    | error e => exact h.append hkp (by simp [opened]) (by simp [opened]) (by simp [opened])
    | ok frame =>
      obtain ⟨hunus, hown, hlost⟩ := hfr frame hans
      cases frame with
      | discard id n =>
        refine h.append hkp ?_ ?_ (pairwise_apart_lost (by simp))
        · simp only [opened, mem_cons, not_mem_nil, or_false]
          rintro e (rfl | rfl)
          · exact hown
          · exact hlost id n rfl
        · simp only [opened, mem_cons, not_mem_nil, or_false]
          rintro channel sequence (heq | heq)
          · cases heq
            exact hunus
          · cases heq
      | _ =>
        refine h.append hkp ?_ ?_ (pairwise_apart_lost (by simp))
        · simp only [opened, mem_singleton]
          rintro e rfl
          exact hown
        · simp only [opened, mem_singleton]
          rintro channel sequence heq
          cases heq
          exact hunus
  | confirmNativeClose id =>
    obtain ⟨hkp, hlost⟩ := r.security.confirmNativeClose_spec id
    show Logged ⟨_, r.log ++ confirmed id (r.security.lostBy id) (r.security.confirmNativeClose id).1⟩
    cases hans : (r.security.confirmNativeClose id).1 with
    | error e => exact h.append hkp (by simp [confirmed]) (by simp [confirmed]) (by simp [confirmed])
    | ok lost =>
      obtain ⟨-, hused⟩ := hlost lost hans
      refine h.append hkp ?_ (by simp [confirmed]) ?_
      · simp only [confirmed, mem_map]
        rintro e ⟨n, hn, rfl⟩
        exact hused n hn
      · exact (pairwise_apart_lost (e := .lost id 0) (by simp)).tail

theorem run_logged (C : Crypto) (t : MessageSecurity) (ops : List Op) : Logged (Receiver.run C t ops) :=
  foldl_invariant (fun _ op h => h.step op) ⟨by simp, List.Pairwise.nil⟩ ops

/-- **Replay safety.** Over every sequence of calls on a context, whatever records are fed to `open_record`
    and whichever calls raise: of two events in the order in which they happen, the later is never the return
    of a frame for a channel and number that the earlier returned a frame for or declared lost. -/
theorem returned_at_most_once (C : Crypto) (t : MessageSecurity) (ops : List Op) :
    (Receiver.run C t ops).log.Pairwise fun earlier later => ∀ channel sequence,
      later = .returned channel sequence →
        earlier ≠ .returned channel sequence ∧ earlier ≠ .lost channel sequence :=
  (run_logged C t ops).apart

/-- A cipher that hides nothing; its tag is sixteen zeros. -/
def Crypto.transparent : Crypto where
  derive := fun salt _ _ => salt
  sealed := fun _ _ _ plain => plain ++ replicate 16 0
  openCapsule := fun _ _ _ cipher =>
    if cipher.length < 16 then .error (.invalidArg "truncated capsule")
    else .ok (cipher.take (cipher.length - 16))

end Shadow6.PrivacyEnvelope
