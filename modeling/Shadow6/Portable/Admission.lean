import Shadow6.Portable.Node

/-!
# `Portable.Admission` — which values the two backends admit

`validate` (Python) and `portable` (Node.js) walk a value in the same way and stop at different places with
different texts; the values they let through are the same, those `Within` the limits. Such a value, in
whatever member order, can be read back by both parsers and passes Python's second check (`bounded`).
-/

namespace Shadow6.Portable

open Library Json List Python

/-- **The admitted values**, at a nesting depth: at most 8 deep, strings of at most 1024 bytes, safe integers,
    at most 64 elements or members. -/
inductive Within : Nat → Json → Prop where
  | null {depth : Nat} (hdepth : depth ≤ 8) : Within depth .null
  | bool {depth : Nat} {b : Bool} (hdepth : depth ≤ 8) : Within depth (.bool b)
  | int {depth : Nat} {n : Int} (hdepth : depth ≤ 8) (hn : n.natAbs ≤ 2 ^ 53 - 1) : Within depth (.int n)
  | str {depth : Nat} {s : Text} (hdepth : depth ≤ 8) (hs : (utf8 s).length ≤ 1024) : Within depth (.str s)
  | arr {depth : Nat} {xs : List Json} (hdepth : depth ≤ 8) (hlen : xs.length ≤ 64)
      (hxs : ∀ x ∈ xs, Within (depth + 1) x) : Within depth (.arr xs)
  | obj {depth : Nat} {ms : Members} (hdepth : depth ≤ 8) (hlen : ms.length ≤ 64)
      (hkeys : ∀ m ∈ ms, Within (depth + 1) (.str m.1)) (hvalues : ∀ m ∈ ms, Within (depth + 1) m.2) :
      Within depth (.obj ms)

variable {d : Nat} {v : Json}

theorem Within.depth (h : Within d v) : d ≤ 8 := by
  cases h <;> assumption

variable {ms : Members}

theorem Within.of_obj (h : Within d (.obj ms)) :
    ms.length ≤ 64 ∧ ∀ m ∈ ms, Within (d + 1) (.str m.1) ∧ Within (d + 1) m.2 := by
  cases h with
  | obj _ hlen hkeys hval => exact ⟨hlen, fun m hm => ⟨hkeys m hm, hval m hm⟩⟩

theorem Within.of_str {s : Text} (h : Within d (.str s)) : d ≤ 8 ∧ (utf8 s).length ≤ 1024 := by
  cases h with
  | str hdep hs => exact ⟨hdep, hs⟩

theorem Within.arrange {A : Arrangement} (h : Within d v) : Within d (arrange A v) := by
  induction h with
  | null hdep => exact .null hdep
  | bool hdep => exact .bool hdep
  | int hdep hn => exact .int hdep hn
  | str hdep hs => exact .str hdep hs
  | arr hdep hlen _ ih =>
    rw [Json.arrange, arrangeAll_eq_map]
    exact .arr hdep (by rwa [length_map]) (forall_mem_map.mpr ih)
  | obj hdep hlen hkeys _ _ ih =>
    refine .obj hdep ?_ (forall_mem_order hkeys) (forall_mem_order ih)
    rwa [(A.perm _).length_eq, arrangeMembers_eq_map, length_map]

/-! ## Python -/

variable {nfc : Text → Text} {xs : List Json}

namespace Python

theorem validateString_iff {s : Text} : validateString d s = .ok () ↔ Within d (.str s) := by
  unfold validateString
  constructor
  · intro h
    split_ifs at h with hdep hlen
    exact .str (not_lt.mp hdep) (not_lt.mp hlen)
  · intro h
    rw [if_neg (not_lt.mpr h.of_str.1), if_neg (not_lt.mpr h.of_str.2)]

theorem validateAll_iff : validateAll d xs = .ok () ↔ ∀ x ∈ xs, validate d x = .ok () := by
  induction xs with
  | nil => simp [validateAll]
  | cons x xs ih =>
    unfold validateAll
    split <;> simp_all

theorem validateMembers_iff :
    validateMembers d ms = .ok () ↔ ∀ m ∈ ms, validateString d m.1 = .ok () ∧ validate d m.2 = .ok () := by
  induction ms with
  | nil => simp [validateMembers]
  | cons m ms ih =>
    unfold validateMembers
    split
    · simp_all
    · split <;> simp_all

theorem validate_iff : validate d v = .ok () ↔ Within d v := by
  induction v using inductionOn generalizing d with
  | null | bool =>
    unfold validate
    constructor
    · intro h
      split_ifs at h with hdep
      constructor
      exact not_lt.mp hdep
    · intro h
      rw [if_neg (not_lt.mpr h.depth)]
  | int n =>
    unfold validate
    constructor
    · intro h
      split_ifs at h with hdep hn
      exact .int (not_lt.mp hdep) (by omega)
    · intro h
      cases h with
      | int hdep hn => rw [if_neg (not_lt.mpr hdep), if_pos (by omega)]
  | str s =>
    exact validateString_iff
  | arr xs ih =>
    unfold validate
    constructor
    · intro h
      split_ifs at h with hdep hlen
      exact .arr (not_lt.mp hdep) (not_lt.mp hlen) fun x hx => (ih x hx).mp (validateAll_iff.mp h x hx)
    · intro h
      cases h with
      | arr hdep hlen hxs =>
        rw [if_neg (not_lt.mpr hdep), if_neg (not_lt.mpr hlen), validateAll_iff]
        exact fun x hx => (ih x hx).mpr (hxs x hx)
  | obj ms ih =>
    unfold validate
    constructor
    · intro h
      split_ifs at h with hdep hlen
      rw [validateMembers_iff] at h
      exact .obj (not_lt.mp hdep) (not_lt.mp hlen) (fun m hm => validateString_iff.mp (h m hm).1)
        fun m hm => (ih m hm).mp (h m hm).2
    · intro h
      rw [if_neg (not_lt.mpr h.depth), if_neg (not_lt.mpr h.of_obj.1), validateMembers_iff]
      exact fun m hm =>
        ⟨validateString_iff.mpr (h.of_obj.2 m hm).1, (ih m hm).mpr (h.of_obj.2 m hm).2⟩
  | foreign =>
    unfold validate
    constructor
    · intro h
      split_ifs at h
    · intro h
      cases h

theorem boundedAll_iff {l d : Nat} : boundedAll nfc l d xs = .ok () ↔ ∀ x ∈ xs, bounded nfc l d x = .ok () := by
  induction xs with
  | nil => simp [boundedAll]
  | cons x xs ih =>
    unfold boundedAll
    split <;> simp_all

theorem boundedMembers_iff {l d : Nat} : boundedMembers nfc l d ms = .ok () ↔
      ∀ m ∈ ms, boundedString nfc l d m.1 = .ok () ∧ bounded nfc l d m.2 = .ok () := by
  induction ms with
  | nil => simp [boundedMembers]
  | cons m ms ih =>
    unfold boundedMembers
    split
    · simp_all
    · split <;> simp_all

end Python

/-! ## Node.js -/

namespace Node

theorem portableAll_iff : portableAll d xs = .ok () ↔ ∀ x ∈ xs, portable d x = .ok () := by
  induction xs with
  | nil => simp [portableAll]
  | cons x xs ih =>
    unfold portableAll
    split <;> simp_all

theorem portableMembers_iff :
    portableMembers d ms = .ok () ↔ ∀ m ∈ ms, portableString d m.1 = .ok () ∧ portable d m.2 = .ok () := by
  induction ms with
  | nil => simp [portableMembers]
  | cons m ms ih =>
    unfold portableMembers
    split
    · simp_all
    · split <;> simp_all

theorem portable_iff : portable d v = .ok () ↔ validate d v = .ok () := by
  have hstg : ∀ d s, portableString d s = .ok () ↔ validateString d s = .ok () := by
    intro d s
    unfold portableString validateString
    split_ifs <;> simp
  induction v using inductionOn generalizing d with
  | null | bool | foreign =>
    unfold portable validate
    split_ifs <;> simp
  | int n =>
    have hsafe : n.natAbs ≤ 2 ^ 53 - 1 ↔ -(2 ^ 53 - 1) ≤ n ∧ n ≤ 2 ^ 53 - 1 := by omega
    unfold portable validate
    simp only [hsafe]
    split_ifs <;> simp
  | str s =>
    exact hstg d s
  | arr xs ih =>
    unfold portable validate
    split_ifs
    · simp
    · simp
    · rw [portableAll_iff, validateAll_iff]
      exact forall₂_congr fun x hx => ih x hx
  | obj ms ih =>
    unfold portable validate
    split_ifs
    · simp
    · simp
    · rw [portableMembers_iff, validateMembers_iff]
      exact forall₂_congr fun m hm => and_congr (hstg _ _) (ih m hm)

end Node

/-! ## Reading an admitted value back -/

/-- The strings of the values the format is meant for: without NUL, in normal form. -/
def Normalized (nfc : Text → Text) (v : Json) : Prop := ∀ s ∈ strings v, Char.ofNat 0 ∉ s ∧ nfc s = s

/-- The keys of every object are distinct. -/
def DistinctKeys (v : Json) : Prop := ∀ ks ∈ keyLists v, ks.Nodup

theorem DistinctKeys.arr (h : DistinctKeys (.arr xs)) : ∀ x ∈ xs, DistinctKeys x :=
  fun x hx ks hks => h ks (mem_keyListsAll.mpr ⟨x, hx, hks⟩)

theorem DistinctKeys.obj (h : DistinctKeys (.obj ms)) : (ms.map Prod.fst).Nodup ∧ ∀ m ∈ ms, DistinctKeys m.2 :=
  ⟨h _ mem_cons_self, fun m hm ks hks => h ks (mem_cons_of_mem _ (mem_keyListsMembers.mpr ⟨m, hm, hks⟩))⟩

/-- A parser that allows the depth, reads the integers and accepts the strings reads the value. -/
theorem Within.readable {D : Dialect} (h : Within d v) (hdeep : ∀ d, d ≤ 8 → D.tooDeep d = false)
    (hnum : ∀ n : Int, n.natAbs ≤ 2 ^ 53 - 1 → ∀ r, Stops r → D.number (decimal n ++ r) = some (n, r))
    (hstr : ∀ s ∈ strings v, (utf8 s).length ≤ 1024 → D.acceptString s = true) (hkeys : DistinctKeys v) :
    Readable D d v := by
  induction h with
  | null hdep | bool hdep => exact hdeep _ hdep
  | int hdep hn => exact ⟨hdeep _ hdep, hnum _ hn⟩
  | str hdep hs => exact ⟨hdeep _ hdep, hstr _ (by simp [strings]) hs⟩
  | arr hdep _ _ ih =>
    refine ⟨hdeep _ hdep, readableAll_iff.mpr fun x hx => ?_⟩
    exact ih x hx (fun s hs => hstr s (mem_stringsAll.mpr ⟨x, hx, hs⟩)) (hkeys.arr x hx)
  | obj hdep _ hns _ _ ih =>
    refine ⟨hdeep _ hdep, hkeys.obj.1, readableMembers_iff.mpr fun m hm => ⟨?_, ?_⟩⟩
    · exact hstr m.1 (mem_stringsMembers.mpr ⟨m, hm, .inl rfl⟩) (hns m hm).of_str.2
    · exact ih m hm (fun s hs => hstr s (mem_stringsMembers.mpr ⟨m, hm, .inr hs⟩)) (hkeys.obj.2 m hm)

theorem Python.floatTail_stops {t : Text} (h : Stops t) : floatTail t = false := by
  unfold floatTail
  split
  · rcases h '.' rfl with h | h | h <;> cases h
  · rcases h _ rfl with rfl | rfl | rfl <;> rfl
  · rcases h _ rfl with rfl | rfl | rfl <;> rfl
  · rfl

theorem Within.readable_python (h : Within d v) (hkeys : DistinctKeys v) : Readable dialect d v := by
  refine h.readable (fun _ _ => rfl) ?_ (fun _ _ _ => rfl) hkeys
  intro n _ rest hrs
  simp [dialect, scanInt_decimal n hrs.not_digit, floatTail_stops hrs]

theorem Within.readable_node (h : Within d v) (hkeys : DistinctKeys v) (hnf : Normalized nfc v) :
    Readable (Node.dialect nfc) d v := by
  refine h.readable ?_ ?_ ?_ hkeys
  · intro d hd
    simp only [Dialect.tooDeep, Node.dialect, decide_eq_false_iff_not]
    omega
  · intro n hn rest hrs
    simp only [Node.dialect, scanInt_decimal n hrs.not_digit, Option.filter_some, decide_eq_true hn, if_true]
  · intro s hs hlen
    have hle : (utf8 s).length ≤ 65536 := hlen.trans (by decide)
    simp [Node.dialect, Node.acceptString, hnf s hs, hle]

/-- **Python's second look at a parsed value** finds nothing to refuse exactly if the strings are normalized. -/
theorem Within.bounded_iff (h : Within d v) : bounded nfc 65536 d v = .ok () ↔ Normalized nfc v := by
  have hstg : ∀ d s, Within d (.str s) → (boundedString nfc 65536 d s = .ok () ↔ Char.ofNat 0 ∉ s ∧ nfc s = s) := by
    intro d s hw
    have hle : (utf8 s).length ≤ 65536 := hw.of_str.2.trans (by decide)
    have hdep : ¬ 16 < d := by have := hw.depth; omega
    simp [boundedString, stringBounded, hdep, hle]
  induction h with
  | null hdep | bool hdep =>
    rw [Python.bounded, if_neg (by omega)]
    simp [Normalized, strings]
  | int hdep hn =>
    rw [Python.bounded, if_neg (by omega), if_pos (by omega)]
    simp [Normalized, strings]
  | str hdep hs =>
    rw [Python.bounded, hstg _ _ (.str hdep hs)]
    simp [Normalized, strings]
  | arr hdep _ _ ih =>
    rw [Python.bounded, if_neg (by omega), Python.boundedAll_iff, forall₂_congr ih]
    simp only [Normalized, strings, mem_stringsAll]
    constructor
    · rintro h s ⟨x, hx, hs⟩
      exact h x hx s hs
    · exact fun h x hx s hs => h s ⟨x, hx, hs⟩
  | obj hdep _ hns _ _ ih =>
    rw [Python.bounded, if_neg (by omega), Python.boundedMembers_iff,
      forall₂_congr fun m hm => and_congr (hstg _ _ (hns m hm)) (ih m hm)]
    simp only [Normalized, strings, mem_stringsMembers]
    constructor
    · rintro h s ⟨m, hm, rfl | hs⟩
      · exact (h m hm).1
      · exact (h m hm).2 s hs
    · exact fun h m hm => ⟨h m.1 ⟨m, hm, .inl rfl⟩, fun s hs => h s ⟨m, hm, .inr hs⟩⟩

end Shadow6.Portable
