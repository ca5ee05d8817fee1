import Shadow6.PrivacyEnvelope.MessagePair

/-!
# `PrivacyEnvelope.Reception` — window and ratchet of the receiver

Whatever messages it is given, the receiver keeps its window sound, and its ratchet at the key of an epoch that it has
reached (`Receiving`). So the key that it arrives at for an authentic record is the one that the record was sealed
with. It arrives at one if the epoch of the record is at most one behind and sixteen ahead.
-/

namespace Shadow6.PrivacyEnvelope

open Library Library.Json

variable {derived : List (Int × Bytes)} {key : Bytes}

namespace MessageSecurity

variable {C : Crypto} {t t' : MessageSecurity} {s : ChannelState} {msg : Message} {base : Bytes} {epoch : Int}

/-! ## The ratchet -/

/-- The receiving ratchet is at the key of its epoch and keeps the one before; its epoch was reached by a number. -/
structure Tracks (C : Crypto) (base : Bytes) (s : ChannelState) : Prop where
  nonneg : 0 ≤ s.rx.epoch
  reached : s.rx.epoch = 0 ∨ s.rx.epoch ≤ s.highest / 4096
  key : s.rx.key = C.nextKey^[s.rx.epoch.toNat] base
  previous : s.rx.previous =
    if s.rx.epoch = 0 then none else some (s.rx.epoch - 1, C.nextKey^[(s.rx.epoch - 1).toNat] base)

/-- The keys that are derived from that of an epoch: the last one, and the one before it. -/
theorem deriveLoop_spec (C : Crypto) (n : Nat) (e : Int) (cur : Bytes) (r : List (Int × Bytes)) :
    (deriveLoop C n e cur ((e, cur) :: r)).1 = C.nextKey^[n] cur ∧
      (0 < n → (deriveLoop C n e cur ((e, cur) :: r)).2.lookup (e + n - 1) =
        some (C.nextKey^[n - 1] cur)) := by
  induction n generalizing e cur r with
  | zero => exact ⟨rfl, fun h => absurd h (lt_irrefl 0)⟩
  | succ n ih =>
    obtain ⟨hlast, hbef⟩ := ih (e + 1) (C.nextKey cur) ((e, cur) :: r)
    refine ⟨hlast, fun _ => ?_⟩
    cases n with
    | zero =>
      -- one step: the key it started from stands behind the new one
      have hne : (e == e + 1) = false := by
        rw [beq_eq_false_iff_ne]
        omega
      have hep : e + ((0 + 1 : Nat) : Int) - 1 = e := by omega
      rw [hep]
      show List.lookup e ((e + 1, C.nextKey cur) :: (e, cur) :: r) = some cur
      rw [List.lookup_cons, hne, List.lookup_cons_self]
    | succ n =>
      have hep : e + ((n + 1 + 1 : Nat) : Int) - 1 = e + 1 + ((n + 1 : Nat) : Int) - 1 := by omega
      rw [hep]
      exact hbef (Nat.succ_pos n)

/-- The key that the receiver arrives at is that of the epoch; on the way to a later epoch it has the one before. -/
theorem Tracks.receiveKey_eq_ok (h : Tracks C base s) (hep : 0 ≤ epoch)
    (hkey : receiveKey C s.rx epoch = .ok (key, derived)) : key = C.nextKey^[epoch.toNat] base ∧
      (s.rx.epoch < epoch → assoc (epoch - 1) derived = .ok (C.nextKey^[(epoch - 1).toNat] base)) := by
  have hnn := h.nonneg
  unfold receiveKey at hkey
  by_cases hsm : epoch = s.rx.epoch
  · rw [if_pos hsm] at hkey
    cases hkey
    exact ⟨by rw [h.key, hsm], fun hlt => by omega⟩
  rw [if_neg hsm] at hkey
  cases hprev : s.rx.previous.filter fun old => old.1 = epoch with
  | some p =>
    rw [hprev] at hkey
    obtain ⟨hsome, heq⟩ := Option.filter_eq_some_iff.mp hprev
    have heq := of_decide_eq_true heq
    rw [h.previous] at hsome
    split_ifs at hsome
    cases hsome
    dsimp only at hkey heq
    cases hkey
    exact ⟨by rw [heq], fun hlt => by omega⟩
  | none =>
    rw [hprev] at hkey
    split_ifs at hkey with hfar
    have hkey := Except.ok.inj hkey
    obtain ⟨hlast, hbef⟩ := deriveLoop_spec C (epoch - s.rx.epoch).toNat s.rx.epoch s.rx.key []
    rw [hkey] at hlast hbef
    constructor
    · have hsum : epoch.toNat = (epoch - s.rx.epoch).toNat + s.rx.epoch.toNat := by omega
      rw [hsum, Function.iterate_add_apply, ← h.key]
      exact hlast
    · intro hlt
      have hlk := hbef (by omega)
      have hidx : s.rx.epoch + ((epoch - s.rx.epoch).toNat : Int) - 1 = epoch - 1 := by omega
      have hsum : (epoch - 1).toNat = ((epoch - s.rx.epoch).toNat - 1) + s.rx.epoch.toNat := by omega
      rw [hidx] at hlk
      unfold assoc
      rw [hlk, hsum, Function.iterate_add_apply, ← h.key]

theorem receiveKey_eq_error {rx : Ratchet} {x : Exn} (h : receiveKey C rx epoch = .error x) : x = .replay := by
  unfold receiveKey at h
  split at h
  · cases h
  split at h
  · cases h
  split at h
  · cases h
    rfl
  · cases h

/-- It arrives at a key for the epoch before its own, its own and the sixteen that follow. -/
theorem Tracks.receiveKey_near (h : Tracks C base s) (hep : 0 ≤ epoch) (hlow : s.rx.epoch - 1 ≤ epoch)
    (hhigh : epoch ≤ s.rx.epoch + 16) : ∃ key derived, receiveKey C s.rx epoch = .ok (key, derived) := by
  unfold receiveKey
  by_cases hsm : epoch = s.rx.epoch
  · rw [if_pos hsm]
    exact ⟨_, _, rfl⟩
  rw [if_neg hsm]
  cases hprev : s.rx.previous.filter fun old => old.1 = epoch with
  | some p => exact ⟨_, _, rfl⟩
  | none =>
    have hah : s.rx.epoch < epoch := by
      by_contra hnot
      have hback : epoch = s.rx.epoch - 1 := by omega
      rw [h.previous, if_neg (by omega), hback, Option.filter_some, if_pos (decide_eq_true rfl)] at hprev
      cases hprev
    rw [if_neg (by omega)]
    exact ⟨_, _, rfl⟩

/-- The ratchet moves on to the epoch of an accepted number. -/
theorem Tracks.accept {n : Int} (h : Tracks C base s) (hn : 0 ≤ n)
    (hkey : receiveKey C s.rx (n / 4096) = .ok (key, derived)) :
    ∃ rx, stepRx s (n / 4096) key derived = .ok { s with rx := rx } ∧ rx.epoch = max s.rx.epoch (n / 4096) ∧
      Tracks C base { s with rx := rx, toWindow := s.accept window n } := by
  have hnn := h.nonneg
  obtain ⟨hlast, hbef⟩ := h.receiveKey_eq_ok (by omega) hkey
  unfold stepRx
  split_ifs with hah
  · rw [hbef hah, ok_bind]
    refine ⟨_, rfl, (max_eq_right hah.le).symm, ⟨?_, .inr ?_, hlast, ?_⟩⟩
    · show 0 ≤ n / 4096
      omega
    · show n / 4096 ≤ (s.accept window n).highest / 4096
      rw [Window.accept_highest]
      omega
    · show some (n / 4096 - 1, _) = if n / 4096 = 0 then none else some (n / 4096 - 1, _)
      rw [if_neg (by omega)]
  refine ⟨s.rx, rfl, (max_eq_left (not_lt.mp hah)).symm, { h with reached := ?_ }⟩
  rcases h.reached with hzero | hrch
  · exact .inl hzero
  refine .inr ?_
  show s.rx.epoch ≤ (s.accept window n).highest / 4096
  rw [Window.accept_highest]
  omega

/-! ## What `open_record` does -/

/-- A message that has passed the checks before decryption. -/
structure Passed (t : MessageSecurity) (message : Message) (s : ChannelState) : Prop where
  checked : t.openChecks message = .ok s
  opened : t.closed = false
  found : t.channels.find? message.channel.id = some s
  nonneg : 0 ≤ sequenceOf message
  unseen : sequenceOf message ∉ s.seen
  low : s.frontier ≤ sequenceOf message
  high : sequenceOf message ≤ s.frontier + window

theorem openChecks_eq_ok (h : t.openChecks msg = .ok s) : Passed t msg s := by
  have hchecked := h
  simp only [openChecks, check, bind_eq_ok, raiseIf_eq_ok, state_eq_ok] at h
  obtain ⟨-, ho, -, -, s', hfind, -, -, -, -, -, hrg, -, hrep, -, hfar, -, -, h⟩ := h
  cases h
  obtain ⟨-, huns, hlow⟩ := not_or.mp hrep |>.imp_right not_or.mp
  exact ⟨hchecked, Bool.eq_false_iff.mpr ho, hfind, by omega, huns, by omega, by omega⟩

/-- A window that moves on leaves the ratchet behind it. -/
theorem Tracks.moved {w : Window} {l : Option Int} (h : Tracks C base s) (hle : s.highest ≤ w.highest) :
    Tracks C base { s with toWindow := w, rxLimit := l } := by
  refine { h with reached := ?_ }
  rcases h.reached with hzero | hrch
  · exact .inl hzero
  refine .inr ?_
  show s.rx.epoch ≤ w.highest / 4096
  omega

/-- **What a call of `open_record` does**, for any message: it is refused, before it is decoded or as late data, and
    changes nothing; or the record is marked, the ratchet is at its epoch, and the frame is concluded. -/
theorem openRecord_cases (C : Crypto) (t : MessageSecurity) (ms : Message)
    (htrac : ∀ s, t.closed = false → t.channels.find? ms.channel.id = some s → Tracks C base s) :
    (∃ e, (∀ s frame rest, t.openChecks ms = .ok s → t.decode C s ms = .ok (frame, rest) →
      ∃ message, frame = .data message) ∧ t.openRecord C ms = (.error e, t)) ∨
    ∃ s rx frame t₁ key derived, Passed t ms s ∧ t.decode C s ms = .ok (frame, t₁, key, derived) ∧
      (t₁ = t ∨ ∃ ts, frame = .final ∧ t₁ = { t with rxTargets := some ts }) ∧
      rx.epoch = max s.rx.epoch (sequenceOf ms / 4096) ∧
      Tracks C base { s with rx := rx, toWindow := s.accept window (sequenceOf ms) } ∧
      t.openRecord C ms = (t₁.setState ms.channel.id
        { s with rx := rx, toWindow := s.accept window (sequenceOf ms) }).conclude frame := by
  unfold openRecord
  cases hchk : t.openChecks ms with
  | error e =>
    refine .inl ⟨e, ?_, rfl⟩
    rintro _ _ _ ⟨⟩
  | ok s =>
    have hpass := openChecks_eq_ok hchk
    dsimp only
    cases hdec : t.decode C s ms with
    | error e =>
      refine .inl ⟨e, ?_, rfl⟩
      rintro _ frame rest ⟨⟩ hok
      rw [hdec] at hok
      cases hok
    | ok p =>
      obtain ⟨frame, t₁, key, derived⟩ := p
      obtain ⟨hkey, hpar⟩ := decode_eq_ok hdec
      obtain ⟨rx, hstep, hep, hnx⟩ :=
        (htrac s hpass.opened hpass.found).accept hpass.nonneg hkey
      dsimp only
      split_ifs with hlate
      · -- only data is refused here, and only a final has changed the context
        obtain ⟨message, rfl⟩ : ∃ message, frame = .data message := by
          cases frame with
          | data message => exact ⟨message, rfl⟩
          | _ => cases hlate
        obtain rfl : t₁ = t := by simpa using hpar
        refine .inl ⟨_, ?_, rfl⟩
        rintro _ frame rest ⟨⟩ hok
        rw [hdec] at hok
        cases hok
        exact ⟨message, rfl⟩
      · rw [hstep]
        exact .inr ⟨s, rx, frame, t₁, key, derived, hpass, hdec, hpar, hep, hnx, rfl⟩

end MessageSecurity

namespace Pairing

open MessageSecurity

/-- The receiver: its windows are sound, and its ratchets have the keys of this direction. -/
structure Receiving (P : Pairing) (t : MessageSecurity) : Prop where
  alike : P.sender.Alike t
  sound : t.closed = false → ∀ id s, t.channels.find? id = some s → s.toWindow.Sound window
  tracks : t.closed = false → ∀ id s, t.channels.find? id = some s →
    Tracks P.crypto (channelKey P.crypto P.forwardKey id) s

variable {P : Pairing} {W : World} {t t' : MessageSecurity}

theorem Receiving.same (h : P.Receiving t) (hsm : SameReceiving t t') : P.Receiving t' := by
  refine ⟨h.alike.trans hsm.alike, ?_, ?_⟩
  · intro ho id s' hs'
    obtain ⟨s, hs, hwin, -⟩ := hsm.origin hs'
    rw [← hwin]
    exact h.sound (hsm.closed ▸ ho) id s hs
  · intro ho id s' hs'
    obtain ⟨s, hs, hwin, hrx, -⟩ := hsm.origin hs'
    obtain ⟨hnn, hrch, hkey, hprev⟩ := h.tracks (hsm.closed ▸ ho) id s hs
    rw [hrx] at hnn hrch hkey hprev
    rw [hwin] at hrch
    exact ⟨hnn, hrch, hkey, hprev⟩

/-- One channel is written, with a sound window and its ratchet. -/
theorem Receiving.setState {id : Int} {s : ChannelState} (h : P.Receiving t) (hal : t.Alike (t.setState id s))
    (hsd : t.closed = false → s.toWindow.Sound window)
    (htrac : t.closed = false → Tracks P.crypto (channelKey P.crypto P.forwardKey id) s) :
    P.Receiving (t.setState id s) := by
  have hfind : ∀ id', (t.setState id s).channels.find? id' = if id' = id then some s else t.channels.find? id' :=
    fun id' => Dict.find?_set _ _ id' _
  refine ⟨h.alike.trans hal, ?_, ?_⟩
  · intro ho id' s' hs'
    rw [hfind] at hs'
    split_ifs at hs'
    · cases hs'
      exact hsd ho
    · exact h.sound ho id' s' hs'
  · intro ho id' s' hs'
    rw [hfind] at hs'
    split_ifs at hs' with hid
    · cases hs'
      rw [hid]
      exact htrac ho
    · exact h.tracks ho id' s' hs'

theorem Receiving.conclude (h : P.Receiving t) (frame : Frame) : P.Receiving (t.conclude frame).2 := by
  have hal := (conclude_sameSending t frame).alike
  rcases conclude_cases t frame with
    ⟨heq, -, -⟩ | ⟨id, count, s, -, hs, heq⟩ | ⟨id, n, s, -, hs, hlow, hhigh, heq⟩ | ⟨e, heq, -⟩ <;>
      rw [heq] at hal ⊢
  · exact h
  · exact h.setState hal (fun ho => h.sound ho id s hs) fun ho => (h.tracks ho id s hs).moved le_rfl
  · refine h.setState hal (fun ho => (h.sound ho id s hs).declare hlow hhigh) fun ho => ?_
    refine (h.tracks ho id s hs).moved ?_
    rw [Window.declare_highest]
    omega
  · exact h

theorem Receiving.openRecord (h : P.Receiving t) (ms : Message) : P.Receiving (t.openRecord P.crypto ms).2 := by
  rcases openRecord_cases P.crypto t ms fun s ho hs => h.tracks ho _ s hs with
    ⟨e, -, heq⟩ | ⟨s, rx, frame, t₁, key, derived, hpass, -, hpar, -, htrac, heq⟩
  · rw [heq]
    exact h
  rw [heq]
  have hfst : P.Receiving t₁ ∧ t₁.channels = t.channels ∧ t₁.closed = t.closed := by
    rcases hpar with rfl | ⟨targets, -, rfl⟩
    · exact ⟨h, rfl, rfl⟩
    · exact ⟨⟨⟨h.alike.skeleton, h.alike.maximum, h.alike.keyEpoch, h.alike.wirePpid⟩, h.sound, h.tracks⟩, rfl, rfl⟩
  have hfind : t₁.channels.find? ms.channel.id = some s := by
    rw [hfst.2.1]
    exact hpass.found
  have hset : SameSending t₁ (t₁.setState ms.channel.id
      { s with rx := rx, toWindow := s.accept window (sequenceOf ms) }) := .setState hfind rfl
  refine (hfst.1.setState hset.alike (fun ho => ?_) fun _ => htrac).conclude frame
  exact (h.sound (hfst.2.2 ▸ ho) _ s hpass.found).accept hpass.low hpass.high

theorem Receiving.confirmNativeClose (h : P.Receiving t) (id : Int) : P.Receiving (t.confirmNativeClose id).2 := by
  have hal := (confirmNativeClose_sameSending t id).alike
  rcases confirmNativeClose_cases t id with ⟨e, heq⟩ | ⟨heq, -⟩ | ⟨s, count, -, hs, -, hcnt, -, heq⟩ <;>
    rw [heq] at hal ⊢
  · exact h
  · exact h
  · refine h.setState hal (fun ho => (h.sound ho id s hs).cutTo hcnt (by decide)) fun ho => ?_
    exact (h.tracks ho id s hs).moved (le_max_left _ _)

theorem Receiving.callReceiver (h : P.Receiving W.receiver) (cl : Call) :
    P.Receiving (P.callReceiver W cl).receiver := by
  cases cl with
  | sealRecord frame r => exact h.same (sealRecord_sameReceiving _ _ _ _)
  | openRecord message => exact h.openRecord message
  | confirmNativeClose id => exact h.confirmNativeClose id
  | close =>
    have hcl := W.receiver.close_closed
    refine ⟨h.alike.trans W.receiver.close_alike, ?_, ?_⟩
    · intro ho
      exact absurd (hcl.symm.trans ho) (by decide)
    · intro ho
      exact absurd (hcl.symm.trans ho) (by decide)

theorem Receiving.step (h : P.Receiving W.receiver) (a : Act) : P.Receiving (P.step W a).receiver := by
  cases a with
  | receiver call => exact h.callReceiver call
  | sender call =>
    cases call with
    | sealRecord frame r | openRecord message | confirmNativeClose id | close => exact h

theorem receiving_start (P : Pairing) : P.Receiving P.start.receiver := by
  have hcre := P.created_receiver
  refine ⟨P.alike, ?_, ?_⟩
  · intro _ id s hs
    obtain ⟨c, rfl, rfl, -⟩ := hcre.states id s hs
    exact Window.sound_fresh (by decide)
  · intro _ id s hs
    obtain ⟨c, rfl, rfl, -⟩ := hcre.states id s hs
    exact ⟨le_refl 0, .inl rfl, rfl, rfl⟩

/-- **The receiver of every run**, whatever it was given. -/
theorem receiving_run (P : Pairing) (ac : List Act) : P.Receiving (P.run ac).receiver :=
  foldl_invariant (I := fun W : World => P.Receiving W.receiver) (fun _ a h => h.step a) P.receiving_start ac

end Pairing

/-! ## Authentic records -/

namespace MessageSecurity

variable {C : Crypto} {bf t t' : MessageSecurity} {frame : Frame}

/-- The frame that an accepted record is returned as. -/
def readAs (before : MessageSecurity) : Frame → Frame
  | .data message => .data { message with context := 0 }
  | .channelClose id => .channelCloseConfirmed id (before.countOf id)
  | .reset r => .resetConfirmed ⟨before.resetIds r, r.incoming, r.outgoing, false, false⟩
      (before.targetsOf (before.resetIds r))
  | frame => frame

/-- A record that is read back is returned as its frame; a final has left its counts. -/
theorem readBack_eq_ok {frame' : Frame} (h : readBack bf t frame = .ok (frame', t')) :
    frame' = readAs bf frame ∧ (frame ≠ .final ∧ t' = t ∨
        frame = .final ∧ t' = { t with rxTargets := some (bf.targetsOf bf.ids) }) := by
  cases frame with
  | channelClose id | reset r =>
    simp only [readBack] at h
    split_ifs at h
    cases h
    exact ⟨rfl, .inl ⟨by rintro ⟨⟩, rfl⟩⟩
  | final =>
    simp only [readBack] at h
    split_ifs at h
    cases h
    exact ⟨rfl, .inr ⟨rfl, rfl⟩⟩
  | _ =>
    cases h
    exact ⟨rfl, .inl ⟨by rintro ⟨⟩, rfl⟩⟩

/-- The cipher does not open the message, or it does not get to it. -/
def rejects (C : Crypto) (t : MessageSecurity) (m : Message) : Bool :=
  match t.openChecks m with
  | .error _ => true
  | .ok s =>
    match receiveKey C s.rx (sequenceOf m / 4096) with
    | .error _ => true
    | .ok (key, _) =>
      match C.openCapsule key (sub m.payload 20 24) (authenticated m.channel (sub m.payload 0 44)) (m.payload.drop 44) with
      | .error _ => true
      | .ok _ => false

theorem openRecord_rejected {m : Message} (h : t.rejects C m = true) : ∃ e, t.openRecord C m = (.error e, t) := by
  unfold rejects at h
  unfold openRecord
  cases hchk : t.openChecks m with
  | error e => exact ⟨e, rfl⟩
  | ok s =>
    rw [hchk] at h
    dsimp only at h ⊢
    have hdec : ∃ e, t.decode C s m = .error e := by
      unfold decode
      dsimp only
      cases hkey : receiveKey C s.rx (sequenceOf m / 4096) with
      | error e => exact ⟨e, rfl⟩
      | ok p =>
        rw [hkey] at h
        dsimp only at h
        rw [ok_bind]
        cases hpl : C.openCapsule p.1 (sub m.payload 20 24) (authenticated m.channel (sub m.payload 0 44))
            (m.payload.drop 44) with
        | error e => exact ⟨e, rfl⟩
        | ok plain =>
          rw [hpl] at h
          cases h
    obtain ⟨e, hdec⟩ := hdec
    rw [hdec]
    exact ⟨e, rfl⟩

end MessageSecurity

namespace Pairing

open MessageSecurity

variable {P : Pairing} {W : World} {e : Entry} {m : Message} {t : MessageSecurity} {s : ChannelState}

/-- **The receiver arrives at the key that the record was sealed with.** -/
theorem Authentic.key_agrees (h : P.Authentic e) (htrac : Tracks P.crypto (channelKey P.crypto P.forwardKey e.id) s)
    (hkey : receiveKey P.crypto s.rx (e.number / 4096) = .ok (key, derived)) : e.key P.crypto = some key := by
  obtain ⟨body, s', hmade⟩ := h.made
  have hrg := hmade.sent_range
  rw [← hmade.number] at hrg
  rw [h.key, (htrac.receiveKey_eq_ok (by omega) hkey).1]
  rfl

/-- How `open_record` deals with an authentic record. -/
inductive Carried (P : Pairing) (t : MessageSecurity) (e : Entry) (m : Message) : Prop where
  | checked (x : Exn) (hchecks : t.openChecks m = .error x) (heq : t.openRecord P.crypto m = (.error x, t))
  | distant (s : ChannelState) (x : Exn) (hpassed : Passed t m s)
      (hkey : receiveKey P.crypto s.rx (e.number / 4096) = .error x) (heq : t.openRecord P.crypto m = (.error x, t))
  | unread (s : ChannelState) (x : Exn) (hpassed : Passed t m s) (hread : readBack e.before t e.frame = .error x)
      (heq : t.openRecord P.crypto m = (.error x, t))
  | late (s : ChannelState) (hpassed : Passed t m s) (hdata : ∃ message, e.frame = .data message)
      (heq : t.openRecord P.crypto m = (.error (.invalidArg "message after channel close"), t))
  | marked (s : ChannelState) (rx : Ratchet) (t₁ : MessageSecurity) (hpassed : Passed t m s)
      (hread : readBack e.before t e.frame = .ok (readAs e.before e.frame, t₁))
      (hepoch : rx.epoch = max s.rx.epoch (e.number / 4096))
      (heq : t.openRecord P.crypto m =
        (t₁.setState e.id { s with rx := rx, toWindow := s.accept window e.number }).conclude (readAs e.before e.frame))

theorem Authentic.carried (h : P.Authentic e) (hrcv : P.Receiving t) (hm : e.message.Carries m) :
    P.Carried t e m := by
  obtain ⟨body, s', hmade⟩ := h.made
  have hal : e.before.Alike t := h.alike.symm.trans hrcv.alike
  have hseq := Entry.Made.sequenceOf_carried hm
  have hid : m.channel.id = e.id := congrArg Channel.id hm.channel
  cases hchk : t.openChecks m with
  | error x =>
    refine .checked x hchk ?_
    unfold openRecord
    rw [hchk]
  | ok s =>
    have hpass := openChecks_eq_ok hchk
    have hfd : t.channels.find? e.id = some s := hid ▸ hpass.found
    have htrac := hrcv.tracks hpass.opened e.id s hfd
    have hnn : 0 ≤ e.number := hseq ▸ hpass.nonneg
    cases hkey : receiveKey P.crypto s.rx (e.number / 4096) with
    | error x =>
      refine .distant s x hpass hkey ?_
      unfold openRecord decode
      rw [hchk]
      dsimp only
      rw [hseq, hkey]
      rfl
    | ok p =>
      have hdec := hmade.decode_carried P.lawful hal hm hkey (h.key_agrees htrac hkey)
      cases hrd : readBack e.before t e.frame with
      | error x =>
        refine .unread s x hpass hrd ?_
        unfold openRecord
        rw [hchk]
        dsimp only
        rw [hdec, hrd]
        rfl
      | ok p =>
        obtain ⟨frame, t₁⟩ := p
        obtain ⟨rfl, hfin⟩ := readBack_eq_ok hrd
        obtain ⟨rx, hstep, hep, -⟩ := htrac.accept hnn hkey
        have ho : t.openRecord P.crypto m = if afterClose s e.number (readAs e.before e.frame) then
              (.error (.invalidArg "message after channel close"), t₁)
            else (t₁.setState e.id { s with rx := rx, toWindow := s.accept window e.number }).conclude
              (readAs e.before e.frame) := by
          unfold openRecord
          rw [hchk]
          dsimp only
          rw [hdec, hrd, ok_bind]
          dsimp only
          rw [hseq, hstep, hid]
        by_cases hlate : afterClose s e.number (readAs e.before e.frame)
        · -- only data is refused here
          rw [if_pos hlate] at ho
          have hdt : ∃ message, e.frame = .data message := by
            cases hfr : e.frame with
            | data message => exact ⟨message, rfl⟩
            | _ =>
              rw [hfr] at hlate
              cases hlate
          rcases hfin with ⟨-, rfl⟩ | ⟨hfr, -⟩
          · exact .late s hpass hdt ho
          · rw [hfr] at hlate
            cases hlate
        · rw [if_neg hlate] at ho
          exact .marked s rx t₁ hpass hrd hep ho

/-- An authentic record passes the checks before decryption, if its number is new and no final has arrived. -/
theorem Authentic.openChecks_new (h : P.Authentic e) (hrcv : P.Receiving t) (hm : e.message.Carries m)
    (ho : t.closed = false) (hfin : t.rxTargets = none) (hval : validateMessage 73728 m = .ok ())
    (hs : t.channels.find? e.id = some s)
    (hnew : ¬ (e.number ≤ s.highest - window ∨ e.number ∈ s.seen ∨ e.number < s.frontier))
    (hhigh : e.number ≤ s.frontier + window) : t.openChecks m = .ok s := by
  obtain ⟨body, s', hmade⟩ := h.made
  have hal := h.alike.symm.trans hrcv.alike
  have hcheck : t.check = .ok () := raiseIf_neg (by rw [ho]; decide)
  have hwit : t.withinFinal e.id e.number = .ok () := by
    unfold withinFinal
    rw [hfin]
  rw [hmade.openChecks_carried P.lawful hal hm hs, hcheck, ok_bind, hval, ok_bind, raiseIf_neg hnew, ok_bind,
    raiseIf_neg (by omega), ok_bind, hwit]
  rfl

end Pairing

end Shadow6.PrivacyEnvelope
