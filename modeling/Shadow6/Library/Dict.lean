import Mathlib.Tactic

/-!
# `Library.Dict` — insertion-ordered dictionaries

The dictionary of Python and the `Map` of JavaScript: a finite map whose entries are visited in the order
in which their keys were first written. Overwriting a key keeps its place, deleting it forgets the place.
The entry list carries the proof that no key occurs twice, so a lookup never has to choose.

Besides the lookup laws the module has the laws of weighted sums over the entries (`sumOf`): what a write
or a deletion adds to or takes from a running total that is kept next to the dictionary.
-/

namespace Library

open List

/-- An insertion-ordered dictionary: entries in order of first insertion, no key twice. -/
structure Dict (κ ν : Type*) where
  entries : List (κ × ν)
  nodup : (entries.map Prod.fst).Nodup

namespace Dict

variable {κ ν : Type*} [DecidableEq κ]

omit [DecidableEq κ] in
@[ext] theorem ext {d e : Dict κ ν} (h : d.entries = e.entries) : d = e := by
  cases d; cases e; simpa using h

/-- The dictionary without entries. -/
def empty : Dict κ ν := ⟨[], nodup_nil⟩

/-- The value stored under `k`. -/
def find? (d : Dict κ ν) (k : κ) : Option ν := d.entries.lookup k

/-- Number of entries (`len(d)`, `map.size`). -/
def size (d : Dict κ ν) : Nat := d.entries.length

/-! ## Writing, deleting, filtering -/

/-- Write `k ↦ v` into an entry list: in place when `k` is there, at the end when it is not. -/
def setEntries (k : κ) (v : ν) : List (κ × ν) → List (κ × ν)
  | [] => [(k, v)]
  | e :: es => if e.1 = k then (k, v) :: es else e :: setEntries k v es

variable {k : κ} {l : List (κ × ν)}

omit [DecidableEq κ] in
theorem mem_keys : k ∈ l.map Prod.fst ↔ ∃ v, (k, v) ∈ l := by
  simp

theorem keys_setEntries (k : κ) (v : ν) (l : List (κ × ν)) : (setEntries k v l).map Prod.fst
      = if k ∈ l.map Prod.fst then l.map Prod.fst else l.map Prod.fst ++ [k] := by
  induction l with
  | nil => simp [setEntries]
  | cons e es ih =>
    by_cases he : e.1 = k
    · simp [setEntries, he]
    have hk : ¬ k = e.1 := fun h => he h.symm
    simp only [setEntries, he, if_false, map_cons, ih, mem_cons, hk, false_or]
    split <;> simp

theorem nodup_setEntries (k : κ) (v : ν) (h : (l.map Prod.fst).Nodup) : ((setEntries k v l).map Prod.fst).Nodup := by
  rw [keys_setEntries]
  split
  · exact h
  rename_i hk
  exact nodup_append.mpr ⟨h, nodup_singleton k, by
    intro a ha b hb hab
    rw [mem_singleton] at hb
    exact hk (hb ▸ hab ▸ ha)⟩

/-- `d[k] = v`. -/
def set (d : Dict κ ν) (k : κ) (v : ν) : Dict κ ν :=
  ⟨setEntries k v d.entries, nodup_setEntries k v d.nodup⟩

/-- Keep the entries that satisfy `p`. -/
def filter (d : Dict κ ν) (p : κ → ν → Bool) : Dict κ ν :=
  ⟨d.entries.filter fun e => p e.1 e.2, (filter_sublist.map Prod.fst).nodup d.nodup⟩

/-- Change every value. -/
def mapValues (d : Dict κ ν) (f : ν → ν) : Dict κ ν :=
  ⟨d.entries.map fun e => (e.1, f e.2), by simpa [map_map, Function.comp_def] using d.nodup⟩

/-- `del d[k]` (no effect when `k` is absent). -/
def erase (d : Dict κ ν) (k : κ) : Dict κ ν := d.filter fun k' _ => decide (k' ≠ k)

/-! ## Lookup laws -/

variable {v : ν} {β : Type*}

theorem lookup_eq_some_iff_mem (h : (l.map Prod.fst).Nodup) : l.lookup k = some v ↔ (k, v) ∈ l := by
  induction l with
  | nil => simp
  | cons e es ih =>
    obtain ⟨k', v'⟩ := e
    simp only [map_cons, nodup_cons] at h
    by_cases hk : k = k'
    · subst hk
      have hnot : (k, v) ∉ es := fun hm => h.1 (mem_keys.mpr ⟨v, hm⟩)
      simp [hnot, eq_comm]
    · have hb : (k == k') = false := by simpa using hk
      simp [lookup_cons, hb, ih h.2, hk]

theorem find?_eq_some_iff {d : Dict κ ν} : d.find? k = some v ↔ (k, v) ∈ d.entries :=
  lookup_eq_some_iff_mem d.nodup

theorem find?_eq_none_iff {d : Dict κ ν} : d.find? k = none ↔ k ∉ d.entries.map Prod.fst := by
  unfold find?
  rw [lookup_eq_none_iff, mem_keys]
  constructor
  · rintro h ⟨v, hv⟩
    simpa using h (k, v) hv
  · intro h e he
    by_contra hc
    have hk : k = e.1 := by simpa using hc
    exact h ⟨e.2, hk ▸ he⟩

@[simp] theorem find?_empty (k : κ) : (empty : Dict κ ν).find? k = none := rfl

omit [DecidableEq κ] in
@[simp] theorem size_empty : (empty : Dict κ ν).size = 0 := rfl

/-- `k in d`. -/
instance : Membership κ (Dict κ ν) := ⟨fun d k => k ∈ d.entries.map Prod.fst⟩

instance (k : κ) (d : Dict κ ν) : Decidable (k ∈ d) :=
  inferInstanceAs (Decidable (k ∈ d.entries.map Prod.fst))

theorem not_mem_iff_find? {d : Dict κ ν} : k ∉ d ↔ d.find? k = none := find?_eq_none_iff.symm

theorem mem_iff_find? {d : Dict κ ν} : k ∈ d ↔ ∃ v, d.find? k = some v := by
  rw [← not_iff_not, not_mem_iff_find?, Option.eq_none_iff_forall_ne_some]
  simp

theorem mem_of_find? {d : Dict κ ν} (h : d.find? k = some v) : k ∈ d :=
  mem_iff_find?.mpr ⟨v, h⟩

omit [DecidableEq κ] in
@[simp] theorem not_mem_empty (k : κ) : k ∉ (empty : Dict κ ν) := not_mem_nil

theorem mem_setEntries {k k' : κ} {v v' : ν} (h : (l.map Prod.fst).Nodup) :
    (k', v') ∈ setEntries k v l ↔ (k' = k ∧ v' = v) ∨ (k' ≠ k ∧ (k', v') ∈ l) := by
  induction l with
  | nil => simp [setEntries]
  | cons e es ih =>
    obtain ⟨ke, ve⟩ := e
    simp only [map_cons, nodup_cons] at h
    by_cases he : ke = k
    · simp only [setEntries, mem_cons, Prod.mk.injEq]
      grind
    · simp only [setEntries, he, if_false, mem_cons, Prod.mk.injEq, ih h.2]
      grind

variable (d : Dict κ ν)

@[simp] theorem find?_set (k k' : κ) (v : ν) : (d.set k v).find? k' = if k' = k then some v else d.find? k' := by
  apply Option.ext
  intro w
  rw [find?_eq_some_iff, set, mem_setEntries d.nodup]
  by_cases hk : k' = k
  · simp [hk, eq_comm]
  · simp [hk, find?_eq_some_iff]

theorem find?_set_self (k : κ) (v : ν) : (d.set k v).find? k = some v := by
  rw [find?_set, if_pos rfl]

theorem find?_set_of_ne {k k' : κ} (v : ν) (h : k' ≠ k) : (d.set k v).find? k' = d.find? k' := by
  rw [find?_set, if_neg h]

/-- A new key overwrites nothing. -/
theorem find?_set_of_not_mem {d : Dict κ ν} {k k' : κ} {v w : ν} (hk : k ∉ d) (h : d.find? k' = some w) :
    (d.set k v).find? k' = some w := by
  rw [find?_set_of_ne]
  · exact h
  · rintro rfl
    exact hk (mem_of_find? h)

/-- What is found after a write is what was written or what was there. -/
theorem find?_set_cases {d : Dict κ ν} {k k' : κ} {v x : ν} (h : (d.set k v).find? k' = some x) :
    (k' = k ∧ v = x) ∨ (k' ≠ k ∧ d.find? k' = some x) := by
  rw [find?_set] at h
  split_ifs at h with hk
  · exact .inl ⟨hk, Option.some.inj h⟩
  · exact .inr ⟨hk, h⟩

theorem find?_filter (p : κ → ν → Bool) (k : κ) : (d.filter p).find? k = (d.find? k).filter (p k) := by
  apply Option.ext
  intro w
  rw [find?_eq_some_iff, Option.filter_eq_some_iff, find?_eq_some_iff]
  simp [filter]

@[simp] theorem find?_erase (k k' : κ) : (d.erase k).find? k' = if k' = k then none else d.find? k' := by
  unfold erase
  rw [find?_filter]
  by_cases hk : k' = k
  · simp [hk]
  · cases d.find? k' <;> simp [hk]

/-- The keys in order, each with a part of its value. -/
def view {β : Type*} (f : ν → β) (d : Dict κ ν) : List (κ × β) := d.entries.map fun e => (e.1, f e.2)

theorem lookup_view (f : ν → β) (d : Dict κ ν) (k : κ) : (d.view f).lookup k = (d.find? k).map f := by
  obtain ⟨l, hl⟩ := d
  show (l.map fun e => (e.1, f e.2)).lookup k = (l.lookup k).map f
  clear hl
  induction l with
  | nil => rfl
  | cons e es ih =>
    rw [map_cons, lookup_cons, lookup_cons, ih]
    cases k == e.1 <;> rfl

@[simp] theorem find?_mapValues (f : ν → ν) (k : κ) : (d.mapValues f).find? k = (d.find? k).map f :=
  lookup_view f d k

/-- A write that leaves the part of the value alone is not seen. -/
theorem view_set {f : ν → β} {d : Dict κ ν} {v v' : ν} (h : d.find? k = some v) (hf : f v' = f v) :
    (d.set k v').view f = d.view f := by
  obtain ⟨l, hl⟩ := d
  show (setEntries k v' l).map (fun e => (e.1, f e.2)) = l.map fun e => (e.1, f e.2)
  change l.lookup k = some v at h
  clear hl
  induction l with
  | nil => cases h
  | cons e es ih =>
    rw [lookup_cons] at h
    by_cases he : e.1 = k
    · have hbeq : (k == e.1) = true := by simp [he]
      rw [hbeq] at h
      cases h
      simp [setEntries, he, hf]
    have hbeq : (k == e.1) = false := by simp [Ne.symm he]
    rw [hbeq] at h
    simp [setEntries, he, ih h]

theorem view_set_absent (f : ν → β) {d : Dict κ ν} (v : ν) (h : k ∉ d) :
    (d.set k v).view f = d.view f ++ [(k, f v)] := by
  obtain ⟨l, hl⟩ := d
  show (setEntries k v l).map (fun e => (e.1, f e.2)) = (l.map fun e => (e.1, f e.2)) ++ [(k, f v)]
  change k ∉ l.map Prod.fst at h
  clear hl
  induction l with
  | nil => rfl
  | cons e es ih =>
    rw [map_cons, mem_cons, not_or] at h
    simp [setEntries, Ne.symm h.1, ih h.2]

theorem entries_set_absent {d : Dict κ ν} (v : ν) (h : k ∉ d) : (d.set k v).entries = d.entries ++ [(k, v)] := by
  simpa [view] using view_set_absent id v h

omit [DecidableEq κ] in
theorem view_mapValues {f : ν → β} {g : ν → ν} (h : ∀ v, f (g v) = f v) : (d.mapValues g).view f = d.view f := by
  simp [view, mapValues, h]

@[simp] theorem mem_set {d : Dict κ ν} {k k' : κ} : k' ∈ d.set k v ↔ k' = k ∨ k' ∈ d := by
  rw [mem_iff_find?, mem_iff_find?, find?_set]
  by_cases hk : k' = k <;> simp [hk]

@[simp] theorem mem_erase {d : Dict κ ν} {k k' : κ} : k' ∈ d.erase k ↔ k' ≠ k ∧ k' ∈ d := by
  rw [mem_iff_find?, mem_iff_find?, find?_erase]
  by_cases hk : k' = k <;> simp [hk]

omit [DecidableEq κ] in
theorem ne_of_mem_tail {e : κ × ν} {es : List (κ × ν)} (hn : e.1 ∉ es.map Prod.fst) (h : (k, v) ∈ es) : e.1 ≠ k := by
  rintro rfl
  exact hn (mem_keys.mpr ⟨v, h⟩)

theorem setEntries_of_mem (hn : (l.map Prod.fst).Nodup) (h : (k, v) ∈ l) : setEntries k v l = l := by
  induction l with
  | nil => simp at h
  | cons e es ih =>
    simp only [map_cons, nodup_cons] at hn
    rcases mem_cons.mp h with he | he
    · subst he
      simp [setEntries]
    · simp [setEntries, ne_of_mem_tail hn.1 he, ih hn.2 he]

theorem set_of_find? {d : Dict κ ν} (h : d.find? k = some v) : d.set k v = d :=
  Dict.ext (setEntries_of_mem d.nodup (find?_eq_some_iff.mp h))

/-! ## Weighted sums over the entries -/

/-- `Σ f(k, v)` over the entries. -/
def sumOf (d : Dict κ ν) (f : κ → ν → Int) : Int := (d.entries.map fun e => f e.1 e.2).sum

variable (f : κ → ν → Int)

theorem sumOf_set_absent {d : Dict κ ν} (h : d.find? k = none) : (d.set k v).sumOf f = d.sumOf f + f k v := by
  simp [sumOf, entries_set_absent v (not_mem_iff_find?.mpr h)]

omit [DecidableEq κ] in
theorem sumOf_filter_add (p : κ → ν → Bool) (f : κ → ν → Int) :
    (d.filter p).sumOf f + (d.filter fun k v => !p k v).sumOf f = d.sumOf f := by
  simp only [sumOf, filter]
  induction d.entries with
  | nil => simp
  | cons e es ih =>
    cases hp : p e.1 e.2 <;> simp only [filter_cons, hp, Bool.not_true, Bool.not_false,
      if_true, if_false, Bool.false_eq_true, map_cons, sum_cons] <;> omega

theorem filter_ne_of_not_mem (h : k ∉ l.map Prod.fst) : (l.filter fun e => decide (e.1 ≠ k)) = l := by
  apply filter_eq_self.mpr
  intro e he
  have hne : e.1 ≠ k := fun hk => h (mem_keys.mpr ⟨e.2, hk ▸ he⟩)
  exact decide_eq_true hne

theorem sum_filter_ne (f : κ × ν → Int) (hn : (l.map Prod.fst).Nodup) (h : (k, v) ∈ l) :
    ((l.filter fun e => decide (e.1 ≠ k)).map f).sum = (l.map f).sum - f (k, v) := by
  induction l with
  | nil => simp at h
  | cons e es ih =>
    simp only [map_cons, nodup_cons] at hn
    rcases mem_cons.mp h with he | he
    · subst he
      rw [filter_cons_of_neg (by simp), filter_ne_of_not_mem hn.1, map_cons, sum_cons]
      omega
    rw [filter_cons_of_pos (by simpa using ne_of_mem_tail hn.1 he), map_cons, sum_cons, map_cons, sum_cons, ih hn.2 he]
    omega

theorem sumOf_erase {d : Dict κ ν} (h : d.find? k = some v) : (d.erase k).sumOf f = d.sumOf f - f k v :=
  sum_filter_ne (fun e => f e.1 e.2) d.nodup (find?_eq_some_iff.mp h)

theorem erase_set (k : κ) (v : ν) : (d.set k v).erase k = d.erase k := by
  ext1
  simp only [erase, filter, set]
  induction d.entries with
  | nil => simp [setEntries]
  | cons e es ih => by_cases he : e.1 = k <;> simp_all [setEntries]

theorem sumOf_set_present {d : Dict κ ν} {v w : ν} (h : d.find? k = some w) :
    (d.set k v).sumOf f = d.sumOf f - f k w + f k v := by
  have hnew := sumOf_erase f (find?_set_self d k v)
  rw [erase_set, sumOf_erase f h] at hnew
  omega

omit [DecidableEq κ] in
theorem sumOf_congr {d : Dict κ ν} {f g : κ → ν → Int} (h : ∀ k v, (k, v) ∈ d.entries → f k v = g k v) :
    d.sumOf f = d.sumOf g := by
  unfold sumOf
  rw [map_congr_left fun e he => h e.1 e.2 he]

omit [DecidableEq κ] in
theorem sumOf_key (f : κ → Int) : (d.sumOf fun k _ => f k) = ((d.entries.map Prod.fst).map f).sum := by
  simp [sumOf, Function.comp_def]

omit [DecidableEq κ] in
theorem sumOf_nonneg {d : Dict κ ν} {f : κ → ν → Int} (h : ∀ k v, (k, v) ∈ d.entries → 0 ≤ f k v) : 0 ≤ d.sumOf f := by
  apply sum_nonneg
  exact forall_mem_map.mpr fun e he => h e.1 e.2 he

theorem le_sumOf {d : Dict κ ν} {f : κ → ν → Int} (h : ∀ k v, (k, v) ∈ d.entries → 0 ≤ f k v) (hk : d.find? k = some v) :
    f k v ≤ d.sumOf f := by
  have hrs : 0 ≤ (d.erase k).sumOf f :=
    sumOf_nonneg fun k' v' hm => h k' v' (mem_of_mem_filter hm)
  rw [sumOf_erase f hk] at hrs
  omega

/-! ## Sizes -/

omit [DecidableEq κ] in
theorem size_eq_sumOf : (d.size : Int) = d.sumOf fun _ _ => 1 := by
  simp [size, sumOf]

theorem size_set_absent {d : Dict κ ν} (h : d.find? k = none) : (d.set k v).size = d.size + 1 := by
  have := sumOf_set_absent (v := v) (fun _ _ => 1) h
  rw [← size_eq_sumOf, ← size_eq_sumOf] at this
  omega

theorem size_erase {d : Dict κ ν} (h : d.find? k = some v) : (d.erase k).size + 1 = d.size := by
  have := sumOf_erase (fun _ _ => 1) h
  rw [← size_eq_sumOf, ← size_eq_sumOf] at this
  omega

/-! ## Dictionaries over an initial segment -/

section range

variable {ν : Type*} {d : Dict Nat ν} {n : Nat}

/-- A dictionary with `n` keys, all below `n`, has exactly the keys below `n`. -/
theorem keys_perm_range (hsz : d.size = n) (hlt : ∀ i ∈ d, i < n) : (d.entries.map Prod.fst).Perm (range n) := by
  have hsub : d.entries.map Prod.fst ⊆ range n := fun i hi => mem_range.mpr (hlt i hi)
  apply (subperm_of_subset d.nodup hsub).perm_of_length_le
  rw [length_range, length_map]
  exact le_of_eq hsz.symm

theorem mem_of_lt (hsz : d.size = n) (hlt : ∀ i ∈ d, i < n) {i : Nat} (hi : i < n) : i ∈ d :=
  (keys_perm_range hsz hlt).mem_iff.mpr (mem_range.mpr hi)

/-- Its sums run over the segment. -/
theorem sumOf_eq_sum_range (hsz : d.size = n) (hlt : ∀ i ∈ d, i < n) (g : Option ν → Int) :
    (d.sumOf fun _ v => g (some v)) = ((range n).map fun i => g (d.find? i)).sum := by
  have hkeys : (d.sumOf fun _ v => g (some v)) = d.sumOf fun i _ => g (d.find? i) := by
    apply sumOf_congr
    intro i v hv
    rw [find?_eq_some_iff.mpr hv]
  rw [hkeys, sumOf_key]
  exact ((keys_perm_range hsz hlt).map _).sum_eq

end range

end Dict

end Library
