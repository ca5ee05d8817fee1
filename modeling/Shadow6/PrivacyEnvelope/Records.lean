import Shadow6.PrivacyEnvelope.Replay

/-!
# `PrivacyEnvelope.Records` — what a sealed plain text is parsed as

`seal` writes a frame as bytes and pads them, `parse` reads them on the other side. `readBack` says what comes out,
without bytes: the frame that was sealed, with the counts the sender had at that time, unless one of the counts is
behind what the receiver has seen. The main result is that `parse` computes it for every plain text that `seal`
prepares (`parse_body`).
-/

namespace Shadow6.PrivacyEnvelope

open Library Library.Json List Dict

/-! ## Computations that go on -/

theorem raiseIf_neg {c : Prop} [Decidable c] {e : Exn} (h : ¬ c) : raiseIf c e = .ok () := if_neg h

theorem raiseIf_pos {c : Prop} [Decidable c] {e : Exn} (h : c) : raiseIf c e = .error e := if_pos h

theorem ok_bind {α β : Type} (a : α) (f : α → Except Exn β) : ((.ok a : Except Exn α) >>= f) = f a := rfl

/-- A loop over the indices of a list is one over its elements. -/
theorem mapM_range {α β : Type} (l : List α) (f : Nat → Except Exn β) (g : α → Except Exn β)
    (h : ∀ i (hi : i < l.length), f i = g (l.get ⟨i, hi⟩)) : (range l.length).mapM f = l.mapM g := by
  induction l generalizing f with
  | nil => rfl
  | cons a l ih =>
    have hhead : f 0 = g a := h 0 (Nat.zero_lt_succ _)
    have htail : (range l.length).mapM (f ∘ Nat.succ) = l.mapM g := by
      apply ih
      intro i hi
      exact h (i + 1) (Nat.succ_lt_succ hi)
    rw [length_cons, range_succ_eq_map, mapM_cons, mapM_map, mapM_cons, hhead, htail]

theorem mapM_ok {α : Type} (l : List α) : l.mapM (fun a => (.ok a : Except Exn α)) = .ok l := by
  induction l with
  | nil => rfl
  | cons a l ih =>
    rw [mapM_cons, ok_bind, ih]
    rfl

theorem mapM_eq_ok {α β : Type} {l : List α} {f : α → Except Exn β} {r : List β} (h : l.mapM f = .ok r) :
    List.Forall₂ (fun a b => f a = .ok b) l r := by
  induction l generalizing r with
  | nil =>
    cases h
    exact .nil
  | cons a l ih =>
    rw [mapM_cons, bind_eq_ok] at h
    obtain ⟨b, hb, h⟩ := h
    obtain ⟨bs, hbs, h⟩ := bind_eq_ok.mp h
    cases h
    exact .cons hb (ih hbs)

/-! ## Fields -/

variable (frn : Bytes)

theorem sub_field (field rest : Bytes) : sub (frn ++ (field ++ rest)) frn.length field.length = field := by
  unfold sub
  rw [drop_left, take_left]

@[simp] theorem length_putInt (width : Nat) (n : Int) : (putInt width n).length = width := length_toBE _ _

variable {n : Int}

theorem ofBE_putInt {width : Nat} (h : 0 ≤ n) (hlt : n < 256 ^ width) : (ofBE (putInt width n) : Int) = n := by
  have hpow : ((256 ^ width : Nat) : Int) = 256 ^ width := by norm_num
  unfold putInt
  rw [Int.emod_eq_of_lt h hlt, ofBE_toBE_of_lt (by omega), Int.toNat_of_nonneg h]

variable (r : Bytes)

theorem sub_putInt (width : Nat) (n : Int) :
    sub (frn ++ (putInt width n ++ r)) frn.length width = putInt width n := by
  have hfld := sub_field frn (putInt width n) r
  rwa [length_putInt] at hfld

theorem getUint8_putInt (h : 0 ≤ n) (hlt : n < 256) : (getUint8 (frn ++ (putInt 1 n ++ r)) frn.length : Int) = n := by
  unfold getUint8
  rw [sub_putInt, ofBE_putInt h hlt]

theorem getUint16_putInt (h : 0 ≤ n) (hlt : n < 65536) : getUint16 (frn ++ (putInt 2 n ++ r)) frn.length = n := by
  unfold getUint16
  rw [sub_putInt, ofBE_putInt h hlt]

theorem signed_ofBE {bs : Nat} {fd : Bytes} (h : (ofBE fd : Int) = n) (hlt : n < 2 ^ (bs - 1)) :
    signed bs (ofBE fd) = n := by
  have hpow : ((2 ^ (bs - 1) : Nat) : Int) = 2 ^ (bs - 1) := by norm_num
  unfold signed
  rw [if_pos (by omega), h]

theorem getInt32_putInt (h : 0 ≤ n) (hlt : n < 2 ^ 31) : getInt32 (frn ++ (putInt 4 n ++ r)) frn.length = n := by
  unfold getInt32
  rw [sub_putInt]
  exact signed_ofBE (ofBE_putInt h (by omega)) hlt

theorem getInt64_putInt (h : 0 ≤ n) (hlt : n < 2 ^ 63) : getInt64 (frn ++ (putInt 8 n ++ r)) frn.length = n := by
  unfold getInt64
  rw [sub_putInt]
  exact signed_ofBE (ofBE_putInt h (by omega)) hlt

theorem getCount_putInt (h : 0 ≤ n) (hle : n ≤ 1000000) : getCount (frn ++ (putInt 4 n ++ r)) frn.length = .ok n := by
  unfold getCount
  dsimp only
  rw [getInt32_putInt frn r h (by omega), raiseIf_neg (by omega)]
  rfl

theorem zeroTail_replicate (bd : Bytes) (k : Nat) : zeroTail (bd ++ replicate k 0) bd.length = .ok () := by
  apply raiseIf_neg
  rw [drop_left]
  rintro ⟨x, hx, hne⟩
  exact hne (eq_of_mem_replicate hx)

/-! ## Targets -/

/-- Channels with counts, as `seal` writes them. -/
def encodeTargets (targets : List (Int × Int)) : Bytes := targets.flatMap fun p => putInt 2 p.1 ++ putInt 4 p.2

/-- Values that the fields can hold. -/
def Ranged (targets : List (Int × Int)) : Prop := ∀ p ∈ targets, (0 ≤ p.1 ∧ p.1 < 65536) ∧ 0 ≤ p.2 ∧ p.2 ≤ 1000000

theorem length_encodeTargets (targets : List (Int × Int)) : (encodeTargets targets).length = 6 * targets.length := by
  induction targets with
  | nil => rfl
  | cons p targets ih =>
    unfold encodeTargets at ih ⊢
    simp
    omega

variable {targets : List (Int × Int)}

/-- The target at an index is read from its place. -/
theorem getTarget (hran : Ranged targets) (front rest : Bytes) (i : Nat) (hi : i < targets.length) :
    getUint16 (front ++ (encodeTargets targets ++ rest)) (front.length + 6 * i) = (targets.get ⟨i, hi⟩).1 ∧
      getCount (front ++ (encodeTargets targets ++ rest)) (front.length + 2 + 6 * i) = .ok (targets.get ⟨i, hi⟩).2 := by
  obtain ⟨⟨hid, hid'⟩, hcnt, hcnt'⟩ := hran _ (get_mem targets ⟨i, hi⟩)
  -- the target stands between those before and those after it
  have hspl : targets = targets.take i ++ targets.get ⟨i, hi⟩ :: targets.drop (i + 1) := by
    simp
  generalize targets.get ⟨i, hi⟩ = p at hid hid' hcnt hcnt' hspl ⊢
  have hleng : (front ++ encodeTargets (targets.take i)).length = front.length + 6 * i := by
    rw [length_append, length_encodeTargets, length_take_of_le hi.le]
  have hby : front ++ (encodeTargets targets ++ rest) = (front ++ encodeTargets (targets.take i)) ++
      (putInt 2 p.1 ++ (putInt 4 p.2 ++ (encodeTargets (targets.drop (i + 1)) ++ rest))) := by
    conv_lhs => rw [hspl]
    simp [encodeTargets]
  constructor
  · rw [hby, ← hleng]
    exact getUint16_putInt _ _ hid hid'
  · have hleng' : ((front ++ encodeTargets (targets.take i)) ++ putInt 2 p.1).length = front.length + 2 + 6 * i := by
      rw [length_append, hleng, length_putInt]
      omega
    rw [hby, ← append_assoc, ← hleng']
    exact getCount_putInt _ _ hcnt hcnt'

/-! ## What a frame is read as -/

namespace MessageSecurity

variable (t : MessageSecurity)

/-- The count that a control record about to be sealed has for a channel. -/
def countOf (id : Int) : Int := (t.channels.find? id).elim 0 (sealedCount id)

def highestOf (id : Int) : Int := (t.channels.find? id).elim (-1) fun s => s.highest

def limitOf (id : Int) : Option Int := (t.channels.find? id).bind fun s => s.rxLimit

/-- Channels with their counts. -/
def targetsOf (list : List Int) : List (Int × Int) := list.map fun id => (id, t.countOf id)

/-- The channels that a reset names. -/
def resetIds (r : StreamReset) : List Int := if r.ids = [] then t.ids else sortUniq r.ids

/-- The receiver has seen a record past the count of its channel. -/
def Overtaken (targets : List (Int × Int)) : Prop := ∃ p ∈ targets, p.2 ≤ t.highestOf p.1

instance (t : MessageSecurity) (targets : List (Int × Int)) : Decidable (t.Overtaken targets) :=
  inferInstanceAs (Decidable (∃ p ∈ targets, p.2 ≤ t.highestOf p.1))

/-- What a context reads a frame as that the peer has sealed in the state `before`. -/
def readBack (before t : MessageSecurity) : Frame → Except Exn (Frame × MessageSecurity)
  | .data message => .ok (.data { message with context := 0 }, t)
  | .channelClose id =>
    if t.limitOf id ≠ none ∨ before.countOf id ≤ t.highestOf id then .error (.invalidArg "message close watermark")
    else .ok (.channelCloseConfirmed id (before.countOf id), t)
  | .reset r =>
    if t.Overtaken (before.targetsOf (before.resetIds r)) then .error (.invalidArg "message reset watermark")
    else .ok (.resetConfirmed ⟨before.resetIds r, r.incoming, r.outgoing, false, false⟩
      (before.targetsOf (before.resetIds r)), t)
  | .final =>
    if t.Overtaken (before.targetsOf before.ids) then .error (.invalidArg "message final watermark")
    else if t.rxTargets ≠ none then .error (.invalidArg "duplicate message final")
    else .ok (.final, { t with rxTargets := some (before.targetsOf before.ids) })
  | .cover => .ok (.cover, t)
  | .discard id sequence => .ok (.discard id sequence, t)
  -- these two are never sealed
  | .resetConfirmed r targets => .ok (.resetConfirmed r targets, t)
  | .channelCloseConfirmed id count => .ok (.channelCloseConfirmed id count, t)

/-- The channels with their reliability. -/
def skeleton : List (Int × Reliability) := t.channels.view ChannelState.policy

/-- What holds of the channels of every context. -/
structure Bounded (t : MessageSecurity) : Prop where
  ids : ∀ id ∈ t.channels, 0 ≤ id ∧ id < 65536
  sent : ∀ id s, t.channels.find? id = some s → 0 ≤ s.sent ∧ s.sent ≤ 1000000
  control : ∃ s, t.channels.find? 0 = some s ∧ s.policy = .reliable
  size : t.channels.size ≤ 64
  maximum : t.maximum ≤ 65507

variable {bf t : MessageSecurity} {channel : Channel} {s : ChannelState}

variable {id : Int}

section

variable (h : t.skeleton = bf.skeleton)
include h

theorem policy_of_skeleton (hs : bf.channels.find? id = some s) :
    ∃ s', t.channels.find? id = some s' ∧ s'.policy = s.policy := by
  have hlk := congrArg (lookup id) h
  unfold skeleton at hlk
  rw [lookup_view, lookup_view, hs] at hlk
  exact Option.map_eq_some_iff.mp hlk

theorem policy_eq_of_skeleton {s' : ChannelState} (hs : bf.channels.find? id = some s)
    (hs' : t.channels.find? id = some s') : s'.policy = s.policy := by
  obtain ⟨x, hx, hsm⟩ := policy_of_skeleton h hs
  rw [Option.some.inj (hs'.symm.trans hx), hsm]

theorem ids_of_skeleton : t.ids = bf.ids := by
  have hkeys := congrArg (map Prod.fst) h
  simp only [skeleton, Dict.view, map_map] at hkeys
  exact congrArg (insertionSort (· ≤ ·)) hkeys

theorem size_of_skeleton : t.channels.size = bf.channels.size := by
  have hleng := congrArg length h
  simpa [skeleton, Dict.view, Dict.size] using hleng

theorem mem_of_skeleton (hid : id ∈ bf.channels) : id ∈ t.channels := by
  obtain ⟨s, hs⟩ := mem_iff_find?.mp hid
  obtain ⟨s', hs', -⟩ := policy_of_skeleton h hs
  exact mem_of_find? hs'

end

/-! ## Reading frames -/

theorem getUint8_cons (x : UInt8) (l : Bytes) : getUint8 (x :: l) 0 = x.toNat := by
  simp [getUint8, sub, ofBE]

theorem parse_data {ppid : Int} {payload : Bytes} (hppid : 0 ≤ ppid ∧ ppid < 2 ^ 32) (hleng : payload.length ≤ t.maximum)
    (hmxm : t.maximum ≤ 65507) (sequence : Int) (k : Nat) : t.parse channel sequence
        (0 :: (putInt 4 ppid ++ putInt 4 payload.length ++ payload) ++ replicate k 0) =
      .ok (.data ⟨channel, ppid, 0, payload⟩, t) := by
  generalize hpl : (0 :: (putInt 4 ppid ++ putInt 4 payload.length ++ payload) ++ replicate k 0 : Bytes) = plain
  have hlen : plain.length = 9 + payload.length + k := by
    rw [← hpl]
    simp
    omega
  have htag : getUint8 plain 0 = 0 := by
    rw [← hpl]
    exact getUint8_cons _ _
  have hcnt : getCount plain 5 = .ok payload.length := by
    rw [← hpl]
    have hrd := getCount_putInt ([0] ++ putInt 4 ppid) (payload ++ replicate k 0) (n := payload.length)
      (by omega) (by omega)
    simpa using hrd
  have hppid' : (ofBE (sub plain 1 4) : Int) = ppid := by
    have hfld := sub_putInt [0] (putInt 4 payload.length ++ (payload ++ replicate k 0)) 4 ppid
    have hsub : sub plain 1 4 = putInt 4 ppid := by
      rw [← hpl]
      simpa using hfld
    rw [hsub]
    exact ofBE_putInt hppid.1 hppid.2
  have hpay : sub plain 9 payload.length = payload := by
    rw [← hpl]
    have hfld := sub_field ([0] ++ putInt 4 ppid ++ putInt 4 payload.length) payload (replicate k 0)
    simpa using hfld
  have hzero : zeroTail plain (9 + payload.length) = .ok () := by
    rw [← hpl]
    have htail := zeroTail_replicate (0 :: (putInt 4 ppid ++ putInt 4 payload.length ++ payload)) k
    have hwidth : (0 :: (putInt 4 ppid ++ putInt 4 payload.length ++ payload) : Bytes).length = 9 + payload.length := by
      simp
      omega
    rw [hwidth] at htail
    exact htail
  unfold parse
  rw [raiseIf_neg (by omega), ok_bind, htag]
  unfold parseData
  rw [raiseIf_neg (by omega), ok_bind, hcnt, ok_bind, raiseIf_neg (by omega), ok_bind, Int.toNat_natCast, hzero, ok_bind,
    hppid', hpay]
  rfl

theorem requireControl_control : requireControl control = .ok () := raiseIf_neg (by decide)

/-- The two fields of a frame with a channel and a count. -/
theorem readPair (tag : UInt8) {id count : Int} (hid : 0 ≤ id ∧ id < 65536) (hcnt : 0 ≤ count ∧ count ≤ 1000000)
    (k : Nat) {plain : Bytes} (hpl : plain = tag :: (putInt 2 id ++ putInt 4 count) ++ replicate k 0) :
    7 ≤ plain.length ∧ getUint8 plain 0 = tag.toNat ∧ getUint16 plain 1 = id ∧ getCount plain 3 = .ok count ∧
      zeroTail plain 7 = .ok () := by
  have hwidth : (tag :: (putInt 2 id ++ putInt 4 count) : Bytes).length = 7 := by
    rw [length_cons, length_append, length_putInt, length_putInt]
  refine ⟨?_, ?_, ?_, ?_, ?_⟩
  · rw [hpl, length_append, hwidth]
    omega
  · rw [hpl]
    exact getUint8_cons _ _
  · have hrd := getUint16_putInt [tag] (putInt 4 count ++ replicate k 0) hid.1 hid.2
    rw [hpl]
    simpa using hrd
  · have hrd := getCount_putInt ([tag] ++ putInt 2 id) (replicate k 0) hcnt.1 hcnt.2
    rw [hpl]
    simpa using hrd
  · have htail := zeroTail_replicate (tag :: (putInt 2 id ++ putInt 4 count)) k
    rwa [hwidth, ← hpl] at htail

theorem parse_channelClose {id cnt : Int} (hid : 0 ≤ id ∧ id < 65536) (hcnt : 0 ≤ cnt ∧ cnt ≤ 1000000)
    (hs : t.channels.find? id = some s) (sq : Int) (k : Nat) :
    t.parse control sq (1 :: (putInt 2 id ++ putInt 4 cnt) ++ replicate k 0) =
      if s.rxLimit ≠ none ∨ cnt ≤ s.highest then .error (.invalidArg "message close watermark")
      else .ok (.channelCloseConfirmed id cnt, t) := by
  generalize hpl : (1 :: (putInt 2 id ++ putInt 4 cnt) ++ replicate k 0 : Bytes) = plain
  obtain ⟨hleng, htag, hgetId, hgetC, hzero⟩ := readPair 1 hid hcnt k hpl.symm
  unfold parse
  rw [raiseIf_neg (by omega), ok_bind, htag]
  unfold parseChannelClose
  rw [requireControl_control, ok_bind, raiseIf_neg (by omega), ok_bind, hgetId, hgetC, ok_bind, state_eq_ok.mpr hs,
    ok_bind]
  split_ifs with hlate
  · rw [raiseIf_pos hlate]
    rfl
  · rw [raiseIf_neg hlate, ok_bind, hzero]
    rfl

theorem parse_discard {id n : Int} (hid : 0 ≤ id ∧ id < 65536) (hn : 0 ≤ n ∧ n ≤ 1000000)
    (hs : t.channels.find? id = some s) (hpol : s.policy ≠ .reliable) (sq : Int) (k : Nat) :
    t.parse control sq (5 :: (putInt 2 id ++ putInt 4 n) ++ replicate k 0) = .ok (.discard id n, t) := by
  generalize hpl : (5 :: (putInt 2 id ++ putInt 4 n) ++ replicate k 0 : Bytes) = plain
  obtain ⟨hleng, htag, hgetId, hgetC, hzero⟩ := readPair 5 hid hn k hpl.symm
  unfold parse
  rw [raiseIf_neg (by omega), ok_bind, htag]
  unfold parseDiscard
  rw [requireControl_control, ok_bind, raiseIf_neg (by omega), ok_bind, hgetId, hgetC, ok_bind, state_eq_ok.mpr hs,
    ok_bind, raiseIf_neg hpol, ok_bind, hzero]
  rfl

theorem parse_cover (sq : Int) (k : Nat) : t.parse control sq ([4] ++ replicate k 0) = .ok (.cover, t) := by
  generalize hpl : ([4] ++ replicate k 0 : Bytes) = plain
  have hleng : 1 ≤ plain.length := by
    rw [← hpl, length_append, length_singleton]
    omega
  have htag : getUint8 plain 0 = 4 := by
    rw [← hpl]
    exact getUint8_cons _ _
  have hzero : zeroTail plain 1 = .ok () := by
    rw [← hpl]
    exact zeroTail_replicate [4] k
  unfold parse
  rw [raiseIf_neg (by omega), ok_bind, htag]
  unfold parseCover
  rw [requireControl_control, ok_bind, hzero]
  rfl

/-! ### Resets and finals -/

theorem highestOf_eq (hs : t.channels.find? id = some s) : t.highestOf id = s.highest := by
  unfold highestOf
  rw [hs]
  rfl

theorem overtaken_cons {p : Int × Int} (hs : t.channels.find? p.1 = some s) :
    t.Overtaken (p :: targets) ↔ p.2 ≤ s.highest ∨ t.Overtaken targets := by
  unfold Overtaken
  rw [exists_mem_cons_iff, highestOf_eq hs]

/-- The checks of the counts of a reset, one after another. -/
theorem mapM_watermark (hmem : ∀ p ∈ targets, p.1 ∈ t.channels) : (targets.mapM fun p => do
      let s ← t.state p.1
      raiseIf (p.2 ≤ s.highest) (.invalidArg "message reset watermark")
      return p) =
      if t.Overtaken targets then .error (.invalidArg "message reset watermark") else .ok targets := by
  induction targets with
  | nil => rfl
  | cons p targets ih =>
    obtain ⟨s, hs⟩ := mem_iff_find?.mp (hmem p mem_cons_self)
    rw [mapM_cons, state_eq_ok.mpr hs, ih fun q hq => hmem q (mem_cons_of_mem _ hq), ok_bind]
    have hiff : t.Overtaken (p :: targets) ↔ _ := overtaken_cons hs
    by_cases hlate : p.2 ≤ s.highest
    · rw [raiseIf_pos hlate, if_pos (hiff.mpr (.inl hlate))]
      rfl
    rw [raiseIf_neg hlate]
    by_cases hrs : t.Overtaken targets
    · rw [if_pos hrs, if_pos (hiff.mpr (.inr hrs))]
      rfl
    · rw [if_neg hrs, if_neg (fun h => (hiff.mp h).elim hlate hrs)]
      rfl

/-- The checks of the counts of a final, one after another. -/
theorem forM_watermark (hmem : ∀ p ∈ targets, p.1 ∈ t.channels) : (targets.forM fun tg => do
      let s ← t.state tg.1
      raiseIf (tg.2 ≤ s.highest) (.invalidArg "message final watermark")) =
      if t.Overtaken targets then .error (.invalidArg "message final watermark") else .ok () := by
  induction targets with
  | nil => rfl
  | cons p targets ih =>
    obtain ⟨s, hs⟩ := mem_iff_find?.mp (hmem p mem_cons_self)
    have hrs := ih fun q hq => hmem q (mem_cons_of_mem _ hq)
    have hiff : t.Overtaken (p :: targets) ↔ _ := overtaken_cons hs
    rw [List.forM, state_eq_ok.mpr hs, ok_bind]
    by_cases hlate : p.2 ≤ s.highest
    · rw [raiseIf_pos hlate, if_pos (hiff.mpr (.inl hlate))]
      rfl
    rw [raiseIf_neg hlate, ok_bind, hrs]
    by_cases hlat : t.Overtaken targets
    · rw [if_pos hlat, if_pos (hiff.mpr (.inr hlat))]
    · rw [if_neg hlat, if_neg (fun h => (hiff.mp h).elim hlate hlat)]

/-- What stands behind the first `n` bytes of a frame with targets: how many there are, and the targets. -/
theorem readTargets (n : Nat) (hn : frn.length = n) (hran : Ranged targets)
    (hsml : targets.length ≤ 64) (k : Nat) {p : Bytes}
    (hpl : p = frn ++ putInt 1 targets.length ++ encodeTargets targets ++ replicate k 0) :
    getUint8 p n = targets.length ∧ n + 1 + 6 * targets.length ≤ p.length ∧
      zeroTail p (n + 1 + 6 * targets.length) = .ok () ∧
      ∀ i (hi : i < targets.length), getUint16 p (n + 1 + 6 * i) = (targets.get ⟨i, hi⟩).1 ∧
        getCount p (n + 1 + 2 + 6 * i) = .ok (targets.get ⟨i, hi⟩).2 := by
  have hfro : (frn ++ putInt 1 targets.length).length = n + 1 := by
    rw [length_append, length_putInt, hn]
  have hwidth : (frn ++ putInt 1 targets.length ++ encodeTargets targets).length = n + 1 + 6 * targets.length := by
    rw [length_append, length_encodeTargets, hfro]
  refine ⟨?_, ?_, ?_, ?_⟩
  · have hfld := getUint8_putInt frn (encodeTargets targets ++ replicate k 0) (n := targets.length) (by omega)
      (by omega)
    rw [hpl, append_assoc, append_assoc, ← hn]
    exact_mod_cast hfld
  · rw [hpl, length_append, hwidth]
    omega
  · have htail := zeroTail_replicate (frn ++ putInt 1 targets.length ++ encodeTargets targets) k
    rwa [hwidth, ← hpl] at htail
  · intro i hi
    have hrd := getTarget hran (frn ++ putInt 1 targets.length) (replicate k 0) i hi
    rwa [← append_assoc, ← hpl, hfro] at hrd

theorem parse_reset (incoming outgoing : Bool) (targets : List (Int × Int)) (hflags : incoming = true ∨ outgoing = true)
    (hran : Ranged targets) (hsz : 1 ≤ targets.length ∧ targets.length ≤ 64)
    (hmem : ∀ p ∈ targets, p.1 ∈ t.channels) (hsort : targets.map Prod.fst = sortUniq (targets.map Prod.fst))
    (sequence : Int) (k : Nat) :
    t.parse control sequence (2 :: (putInt 1 ((if incoming then 1 else 0) + (if outgoing then 2 else 0)) ++
        putInt 1 targets.length ++ encodeTargets targets) ++ replicate k 0) =
      if t.Overtaken targets then .error (.invalidArg "message reset watermark")
      else .ok (.resetConfirmed ⟨targets.map Prod.fst, incoming, outgoing, false, false⟩ targets, t) := by
  generalize hflag : ((if incoming then 1 else 0) + (if outgoing then 2 else 0) : Int) = flags
  have hrg : 1 ≤ flags ∧ flags ≤ 3 := by
    rw [← hflag]
    revert hflags
    cases incoming <;> cases outgoing <;> decide
  generalize hpl : (2 :: (putInt 1 flags ++ putInt 1 targets.length ++ encodeTargets targets) ++
    replicate k 0 : Bytes) = plain
  obtain ⟨hget, hleng, hzero, hrd⟩ := readTargets (2 :: putInt 1 flags) 2
    (by rw [length_cons, length_putInt]) hran hsz.2 k (hpl.symm.trans (by simp))
  have htag : getUint8 plain 0 = 2 := by
    rw [← hpl]
    exact getUint8_cons _ _
  have hgetF : (getUint8 plain 1 : Int) = flags := by
    have hfld := getUint8_putInt [2] (putInt 1 targets.length ++ (encodeTargets targets ++ replicate k 0))
      (n := flags) (by omega) (by omega)
    rw [← hpl]
    simpa using hfld
  have htgt : ((range (getUint8 plain 2)).mapM fun i => do
      let id := getUint16 plain (3 + 6 * i)
      let count ← getCount plain (5 + 6 * i)
      let s ← t.state id
      raiseIf (count ≤ s.highest) (.invalidArg "message reset watermark")
      return (id, count)) =
      if t.Overtaken targets then .error (.invalidArg "message reset watermark") else .ok targets := by
    rw [hget, ← mapM_watermark hmem]
    apply mapM_range
    intro i hi
    obtain ⟨hid, hcnt⟩ := hrd i hi
    rw [hid, hcnt, ok_bind]
  unfold parse
  rw [raiseIf_neg (by omega), ok_bind, htag]
  unfold parseReset
  rw [requireControl_control, ok_bind, raiseIf_neg (by omega), ok_bind]
  dsimp only
  rw [raiseIf_neg (by omega), ok_bind, htgt]
  split_ifs with hlate
  · rfl
  rw [ok_bind, raiseIf_neg (not_not.mpr hsort), ok_bind, hget, hzero, ok_bind]
  have hvl : (getUint8 plain 1 : Int) = (if incoming then 1 else 0) + (if outgoing then 2 else 0) :=
    hgetF.trans hflag.symm
  have hin : decide (getUint8 plain 1 % 2 ≠ 0) = incoming := by
    cases incoming <;> cases outgoing <;> simp at hvl ⊢ <;> omega
  have hout : decide (getUint8 plain 1 / 2 % 2 ≠ 0) = outgoing := by
    cases incoming <;> cases outgoing <;> simp at hvl ⊢ <;> omega
  rw [hin, hout]
  rfl

theorem parse_final (targets : List (Int × Int)) (sq : Int) (hran : Ranged targets)
    (hids : targets.map Prod.fst = t.ids) (hsz : targets.length = t.channels.size) (hsml : targets.length ≤ 64)
    (hmem : ∀ p ∈ targets, p.1 ∈ t.channels) (hown : targets.lookup 0 = some (sq + 1)) (k : Nat) :
    t.parse control sq (3 :: (putInt 1 targets.length ++ encodeTargets targets) ++ replicate k 0) =
      if t.Overtaken targets then .error (.invalidArg "message final watermark")
      else if t.rxTargets ≠ none then .error (.invalidArg "duplicate message final")
      else .ok (.final, { t with rxTargets := some targets }) := by
  generalize hpl : (3 :: (putInt 1 targets.length ++ encodeTargets targets) ++ replicate k 0 : Bytes) = plain
  obtain ⟨hget, hleng, hzero, hrd⟩ := readTargets [3] 1 rfl hran hsml k (hpl.symm.trans (by simp))
  have htag : getUint8 plain 0 = 3 := by
    rw [← hpl]
    exact getUint8_cons _ _
  have htgt : ((range (getUint8 plain 1)).mapM fun i => do
      let count ← getCount plain (4 + 6 * i)
      return (getUint16 plain (2 + 6 * i), count)) = (.ok targets : Except Exn _) := by
    rw [hget, ← mapM_ok targets]
    apply mapM_range
    intro i hi
    obtain ⟨hid, hcnt⟩ := hrd i hi
    rw [hcnt, ok_bind, hid]
    rfl
  have hassoc : assoc 0 targets = .ok (sq + 1) := by
    unfold assoc
    rw [hown]
  unfold parse
  rw [raiseIf_neg (by omega), ok_bind, htag]
  unfold parseFinal
  rw [requireControl_control, ok_bind, raiseIf_neg (by omega), ok_bind]
  dsimp only
  rw [raiseIf_neg (by omega), ok_bind, htgt, ok_bind, raiseIf_neg (not_not.mpr hids), ok_bind, forM_watermark hmem]
  split_ifs with hlate hdoub
  · rfl
  all_goals rw [ok_bind, hassoc, ok_bind, raiseIf_neg (not_not.mpr rfl), ok_bind, hget, hzero, ok_bind]
  · rw [raiseIf_pos hdoub]
    rfl
  · rw [raiseIf_neg hdoub]
    rfl

/-! ## What `seal` writes -/

/-- The checks that a frame has passed when it is sealed. -/
structure Prepared (t : MessageSecurity) (frame : Frame) (channel : Channel) (body : Bytes) (s : ChannelState) : Prop where
  opened : t.closed = false
  unfinished : t.txFinal = false
  written : t.body frame = .ok (channel, body)
  found : t.channels.find? channel.id = some s
  room : s.sent < 1000000

theorem prepare_eq_ok {frm : Frame} {bd : Bytes} (h : t.prepare frm = .ok (channel, bd, s)) :
    Prepared t frm channel bd s := by
  obtain ⟨_, ho, h⟩ := bind_eq_ok.mp h
  obtain ⟨_, hfin, h⟩ := bind_eq_ok.mp h
  obtain ⟨⟨channel', bd'⟩, hbody, h⟩ := bind_eq_ok.mp h
  obtain ⟨s', hst, h⟩ := bind_eq_ok.mp h
  obtain ⟨_, hroom, h⟩ := bind_eq_ok.mp h
  cases h
  exact ⟨Bool.eq_false_iff.mpr (raiseIf_eq_ok.mp ho), Bool.eq_false_iff.mpr (raiseIf_eq_ok.mp hfin), hbody,
    state_eq_ok.mp hst, not_le.mp (raiseIf_eq_ok.mp hroom)⟩

theorem countOf_eq (hs : t.channels.find? id = some s) : t.countOf id = sealedCount id s := by
  unfold countOf
  rw [hs]
  rfl

theorem limitOf_eq (hs : t.channels.find? id = some s) : t.limitOf id = s.rxLimit := by
  unfold limitOf
  rw [hs]
  rfl

theorem validateMessage_eq_ok {mx : Int} {m : Message} {u : Unit} (h : validateMessage mx m = .ok u) :
    m.payload.length ≤ mx ∧ 0 ≤ m.ppid ∧ m.ppid < 2 ^ 32 := by
  obtain ⟨_, hbud, h⟩ := bind_eq_ok.mp h
  obtain ⟨_, hppid, -⟩ := bind_eq_ok.mp h
  have hbud := raiseIf_eq_ok.mp hbud
  have hppid := raiseIf_eq_ok.mp hppid
  omega

variable {l : List Int}

theorem putTargets_eq_ok {bs : Bytes} (h : t.putTargets l = .ok bs) :
    bs = encodeTargets (t.targetsOf l) ∧ ∀ id ∈ l, id ∈ t.channels := by
  obtain ⟨parts, hps, hflat⟩ := bind_eq_ok.mp h
  cases hflat
  have hall := mapM_eq_ok hps
  clear hps h
  induction hall with
  | nil => exact ⟨rfl, by simp⟩
  | @cons id part l parts hpart _ ih =>
    obtain ⟨s, hs, hpart⟩ := bind_eq_ok.mp hpart
    have hfind := state_eq_ok.mp hs
    cases hpart
    constructor
    · rw [flatten_cons, ih.1]
      show _ = encodeTargets ((id, t.countOf id) :: t.targetsOf l)
      rw [countOf_eq hfind]
      rfl
    · exact forall_mem_cons.mpr ⟨mem_of_find? hfind, ih.2⟩

/-- The counts of a control record fit their fields. -/
theorem Bounded.count_range (h : bf.Bounded) (hctl : bf.channels.find? 0 = some s) (hroom : s.sent < 1000000)
    (hid : id ∈ bf.channels) : 0 ≤ bf.countOf id ∧ bf.countOf id ≤ 1000000 := by
  obtain ⟨s', hs'⟩ := mem_iff_find?.mp hid
  have hsn := h.sent id s' hs'
  rw [countOf_eq hs', sealedCount]
  split_ifs with hzero
  · subst hzero
    rw [hctl] at hs'
    cases hs'
    omega
  · omega

theorem Bounded.ranged (h : bf.Bounded) (hctl : bf.channels.find? 0 = some s) (hroom : s.sent < 1000000)
    (hlist : ∀ id ∈ l, id ∈ bf.channels) : Ranged (bf.targetsOf l) := by
  intro p hp
  obtain ⟨id, hid, rfl⟩ := mem_map.mp hp
  exact ⟨h.ids id (hlist id hid), h.count_range hctl hroom (hlist id hid)⟩

theorem targetsOf_fst (list : List Int) : (t.targetsOf list).map Prod.fst = list := by
  unfold targetsOf
  rw [map_map]
  exact map_id list

theorem lookup_targetsOf (h : id ∈ l) : (t.targetsOf l).lookup id = some (t.countOf id) := by
  induction l with
  | nil => exact absurd h not_mem_nil
  | cons id' l ih =>
    show lookup id ((id', t.countOf id') :: t.targetsOf l) = _
    rw [lookup_cons]
    by_cases heq : id = id'
    · subst heq
      simp
    · rw [beq_eq_false_iff_ne.mpr heq]
      exact ih (mem_of_ne_of_mem heq h)

theorem sortUniq_eq_self {l : List Int} (hnd : l.Nodup) (hsort : l.Pairwise (· ≤ ·)) : sortUniq l = l := by
  unfold sortUniq
  rw [hnd.dedup]
  exact hsort.insertionSort_eq

theorem ids_nodup (t : MessageSecurity) : t.ids.Nodup :=
  (perm_insertionSort _ _).nodup_iff.mpr t.channels.nodup

theorem mem_ids : id ∈ t.ids ↔ id ∈ t.channels := mem_insertionSort _

variable (t)

theorem length_ids : t.ids.length = t.channels.size := by
  unfold ids
  rw [length_insertionSort, length_map]
  rfl

theorem resetIds_nodup (r : StreamReset) : (t.resetIds r).Nodup := by
  unfold resetIds
  split_ifs
  · exact t.ids_nodup
  · exact (perm_insertionSort _ _).nodup_iff.mpr (nodup_dedup _)

theorem sortUniq_resetIds (r : StreamReset) : sortUniq (t.resetIds r) = t.resetIds r := by
  apply sortUniq_eq_self (t.resetIds_nodup r)
  unfold resetIds
  split_ifs
  · exact pairwise_insertionSort _ _
  · exact pairwise_insertionSort _ _

variable {t}

theorem resetIds_ne_nil (r : StreamReset) (hctl : 0 ∈ t.channels) : t.resetIds r ≠ [] := by
  unfold resetIds
  split_ifs with hall
  · exact ne_nil_of_mem (mem_ids.mpr hctl)
  intro hnil
  obtain ⟨id, hid⟩ := exists_mem_of_ne_nil _ hall
  have hmem : id ∈ sortUniq r.ids := (mem_insertionSort _).mpr (mem_dedup.mpr hid)
  rw [hnil] at hmem
  exact not_mem_nil hmem

theorem length_le_size (hnd : l.Nodup) (hlist : ∀ id ∈ l, id ∈ t.channels) : l.length ≤ t.channels.size := by
  have hsub : l.Subperm (t.channels.entries.map Prod.fst) := hnd.subperm fun id hid => hlist id hid
  have hle := hsub.length_le
  rwa [length_map] at hle

/-- **A frame is read back.** What `seal` writes for a frame, with any padding, is parsed by the peer as `readBack`
    says. -/
theorem parse_body {frame : Frame} {body : Bytes} (hprep : Prepared bf frame channel body s)
    (hskel : t.skeleton = bf.skeleton) (hbdd : bf.Bounded) (hmxm : t.maximum = bf.maximum)
    (k : Nat) : t.parse channel s.sent (body ++ replicate k 0) = readBack bf t frame := by
  obtain ⟨-, -, hbody, hfd, hroom⟩ := hprep
  have hmem : ∀ {l : List Int}, (∀ id ∈ l, id ∈ bf.channels) →
      ∀ p ∈ bf.targetsOf l, p.1 ∈ t.channels := by
    intro l hlist p hp
    obtain ⟨id, hid, rfl⟩ := mem_map.mp hp
    exact mem_of_skeleton hskel (hlist id hid)
  cases frame with
  | data message =>
    obtain ⟨_, hval, hbody⟩ := bind_eq_ok.mp hbody
    obtain ⟨_, -, hbody⟩ := bind_eq_ok.mp hbody
    obtain ⟨_, -, hbody⟩ := bind_eq_ok.mp hbody
    cases hbody
    obtain ⟨hleng, hppid⟩ := validateMessage_eq_ok hval
    have hmax := hbdd.maximum
    exact parse_data hppid (by omega) (by omega) s.sent k
  | reset r =>
    obtain ⟨_, hflags, hbody⟩ := bind_eq_ok.mp hbody
    obtain ⟨_, -, hbody⟩ := bind_eq_ok.mp hbody
    obtain ⟨targets, htgt, hbody⟩ := bind_eq_ok.mp hbody
    cases hbody
    have hflags := raiseIf_eq_ok.mp hflags
    obtain ⟨rfl, hlist⟩ := putTargets_eq_ok htgt
    have hctl : bf.channels.find? 0 = some s := hfd
    have hleng : (bf.targetsOf (bf.resetIds r)).length = (bf.resetIds r).length := length_map _
    have hfst := targetsOf_fst (t := bf) (bf.resetIds r)
    have hsz := length_le_size (bf.resetIds_nodup r) hlist
    have hbnd := hbdd.size
    have hpos := length_pos_of_ne_nil (resetIds_ne_nil r (mem_of_find? hctl))
    have hrd := parse_reset (t := t) r.incoming r.outgoing (bf.targetsOf (bf.resetIds r)) (by tauto)
      (hbdd.ranged hctl hroom hlist) (by omega) (hmem hlist) (by rw [hfst, sortUniq_resetIds]) s.sent k
    rw [hleng, hfst] at hrd
    exact hrd
  | channelClose id =>
    obtain ⟨s', hst, hbody⟩ := bind_eq_ok.mp hbody
    obtain ⟨_, -, hbody⟩ := bind_eq_ok.mp hbody
    cases hbody
    have hfind := state_eq_ok.mp hst
    have hcnt := hbdd.count_range hfd hroom (mem_of_find? hfind)
    rw [countOf_eq hfind] at hcnt
    obtain ⟨s'', hfind', -⟩ := policy_of_skeleton hskel hfind
    have hrd := parse_channelClose (hbdd.ids id (mem_of_find? hfind)) hcnt hfind' s.sent k
    rw [hrd, ← limitOf_eq hfind', ← highestOf_eq hfind', ← countOf_eq hfind]
    rfl
  | final =>
    obtain ⟨targets, htgt, hbody⟩ := bind_eq_ok.mp hbody
    cases hbody
    obtain ⟨rfl, hlist⟩ := putTargets_eq_ok htgt
    have hids := ids_of_skeleton hskel
    have hsz := size_of_skeleton hskel
    have hleng : (bf.targetsOf bf.ids).length = bf.ids.length := length_map _
    have hbnd := hbdd.size
    have hcnt : bf.ids.length = bf.channels.size := bf.length_ids
    have hctl : bf.channels.find? 0 = some s := hfd
    have hown : (bf.targetsOf bf.ids).lookup 0 = some (s.sent + 1) := by
      rw [lookup_targetsOf (mem_ids.mpr (mem_of_find? hctl)), countOf_eq hctl]
      rfl
    have hrd := parse_final (t := t) (bf.targetsOf bf.ids) s.sent (hbdd.ranged hfd hroom hlist)
      (by rw [targetsOf_fst, hids]) (by omega) (by omega) (hmem hlist) hown k
    rw [hleng] at hrd
    exact hrd
  | cover =>
    cases hbody
    exact parse_cover s.sent k
  | discard id n =>
    obtain ⟨s', hst, hbody⟩ := bind_eq_ok.mp hbody
    obtain ⟨_, hev, hbody⟩ := bind_eq_ok.mp hbody
    cases hbody
    have hev := raiseIf_eq_ok.mp hev
    have hfind := state_eq_ok.mp hst
    obtain ⟨s'', hfind', hpol⟩ := policy_of_skeleton hskel hfind
    have hsn := hbdd.sent id s' hfind
    exact parse_discard (hbdd.ids id (mem_of_find? hfind)) (by omega) hfind'
      (by rw [hpol]; exact fun h => hev (.inl h)) s.sent k
  | resetConfirmed r targets | channelCloseConfirmed id count => cases hbody

end MessageSecurity

end Shadow6.PrivacyEnvelope
