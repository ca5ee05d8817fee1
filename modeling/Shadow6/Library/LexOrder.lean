import Shadow6.Library.JsonRoundTrip

/-!
# `Library.LexOrder` — orders of encoded strings

When a string is written out character by character, is the dictionary order of the results the order of the
strings? It is if the codes of two different characters already differ at a position both codes have
(`Below`): then what follows never matters. UTF-8 is such a code (`utf8_lt_iff`), so that comparing bytes is
comparing code points. What follows does not matter either for two codes neither of which starts the other
(`append_lt_append_iff`).

The module also has the in-place insertion sort that moves a new element down from the end (`insertDown`),
shown to be Mathlib's `insertionSort` read backwards.
-/

namespace Library

open Function

open List

/-- `l` comes before `m` because of a position that both have. -/
def Below (l m : List Nat) : Prop :=
  ∃ common x y tail tail', l = common ++ x :: tail ∧ m = common ++ y :: tail' ∧ x < y

/-- Whatever follows, the order stays. -/
theorem Below.append {l m : List Nat} (h : Below l m) (s t : List Nat) : l ++ s < m ++ t := by
  obtain ⟨common, x, y, tail, tail', rfl, rfl, hlt⟩ := h
  rw [append_assoc, append_assoc]
  exact append_left_lt (cons_lt_cons_iff.mpr (.inl hlt))

theorem Below.head {x y : Nat} (h : x < y) (tl tl' : List Nat) : Below (x :: tl) (y :: tl') :=
  ⟨[], x, y, tl, tl', rfl, rfl, h⟩

/-- The first position decides, or the next ones do. -/
theorem Below.step {x y : Nat} {l m : List Nat} (hle : x ≤ y) (h : x = y → Below l m) : Below (x :: l) (y :: m) := by
  rcases Nat.lt_or_eq_of_le hle with hlt | rfl
  · exact .head hlt l m
  · obtain ⟨common, y, z, tail, tail', rfl, rfl, hlt⟩ := h rfl
    exact ⟨x :: common, y, z, tail, tail', rfl, rfl, hlt⟩

section

variable {α : Type*} {key : α → Nat} {code : α → List Nat} {s t : List α}

/-- Strings in dictionary order are written in dictionary order. -/
theorem flatMap_lt (hcode : ∀ a b, key a < key b → Below (code a) (code b)) (hne : ∀ a, code a ≠ [])
    (hkey : Injective key) (h : s.map key < t.map key) : s.flatMap code < t.flatMap code := by
  induction s generalizing t with
  | nil =>
    cases t with
    | nil => exact absurd h (lt_irrefl _)
    | cons b t =>
      obtain ⟨x, tail, hb⟩ := exists_cons_of_ne_nil (hne b)
      rw [flatMap_cons, hb]
      exact nil_lt_cons _ _
  | cons a s ih =>
    cases t with
    | nil => exact absurd h (not_lt_nil _)
    | cons b t =>
      rw [map_cons, map_cons, cons_lt_cons_iff] at h
      rw [flatMap_cons, flatMap_cons]
      rcases h with hlt | ⟨heq, hlt⟩
      · exact (hcode a b hlt).append _ _
      · rw [hkey heq]
        exact append_left_lt (ih hlt)

/-- The order of the written strings is the order of the strings. -/
theorem flatMap_lt_iff (hcode : ∀ a b, key a < key b → Below (code a) (code b)) (hne : ∀ a, code a ≠ [])
    (hkey : Injective key) : s.flatMap code < t.flatMap code ↔ s.map key < t.map key := by
  refine ⟨fun h => ?_, flatMap_lt hcode hne hkey⟩
  rcases lt_trichotomy (s.map key) (t.map key) with hlt | heq | hgt
  · exact hlt
  · rw [map_injective_iff.mpr hkey heq] at h
    exact absurd h (lt_irrefl _)
  · exact absurd (flatMap_lt hcode hne hkey hgt) (lt_asymm h)

end

/-- Of two codes neither of which starts the other, what follows them does not change the order. -/
theorem append_lt_append_iff {l m : List Nat} (h : ∀ s t, l ++ s ≠ m ++ t) (s t : List Nat) :
    l ++ s < m ++ t ↔ l < m := by
  induction l generalizing m with
  | nil => exact absurd (append_nil m).symm (h m [])
  | cons x l ih =>
    cases m with
    | nil => exact absurd (append_nil (x :: l)) (h [] (x :: l))
    | cons y m =>
      rw [cons_append, cons_append, cons_lt_cons_iff, cons_lt_cons_iff]
      refine or_congr_right (and_congr_right ?_)
      rintro rfl
      exact ih fun s t heq => h s t (congrArg (x :: ·) heq)

/-! ## Insertion from the end -/

section

variable {α : Type*} (after : α → α → Bool)

/-- Move `v` down past the elements that come after it. The sorted part is listed from its end. -/
def insertDown (v : α) : List α → List α
  | [] => [v]
  | x :: xs => if after x v then x :: insertDown v xs else v :: x :: xs

/-- Insertion sort in place: element after element is moved down into the sorted part before it. -/
def sortDown (xs : List α) : List α := (xs.foldl (fun sorted v => insertDown after v sorted) []).reverse

variable (xs : List α)

theorem insertDown_eq (v : α) : insertDown after v xs = xs.orderedInsert (fun a b => after b a = false) v := by
  induction xs with
  | nil => rfl
  | cons x xs ih =>
    rw [insertDown, orderedInsert_cons, ih]
    cases after x v <;> rfl

theorem sortDown_eq : sortDown after xs = (xs.reverse.insertionSort fun a b => after b a = false).reverse := by
  rw [sortDown, List.insertionSort, foldr_reverse]
  simp only [insertDown_eq]

theorem sortDown_perm : (sortDown after xs).Perm xs := by
  rw [sortDown_eq]
  exact (reverse_perm _).trans ((perm_insertionSort _ _).trans (reverse_perm xs))

/-- Elements with equal ranks aside, the result is in ascending order of the ranks that `after` compares. -/
theorem sortDown_pairwise {ρ : Type*} [LinearOrder ρ] {r : α → ρ}
    (haft : ∀ a b, after a b = true ↔ r b < r a) :
    (sortDown after xs).Pairwise fun a b => r a ≤ r b := by
  have hle : ∀ a b, after b a = false ↔ r b ≤ r a := by
    intro a b
    rw [← not_lt, ← haft b a, Bool.not_eq_true]
  have : Std.Total fun a b : α => after b a = false :=
    ⟨fun a b => by rw [hle, hle]; exact le_total (r b) (r a)⟩
  have : IsTrans α fun a b => after b a = false :=
    ⟨fun a b c => by rw [hle, hle, hle]; exact fun hab hbc => le_trans hbc hab⟩
  rw [sortDown_eq, pairwise_reverse]
  exact (pairwise_insertionSort _ xs.reverse).imp fun h => (hle _ _).mp h

variable {after} {β : Type*} {after' : β → β → Bool} {R : α → β → Prop}

theorem insertDown_forall₂ (hR : ∀ a b, R a b → ∀ a' b', R a' b' → after a a' = after' b b') {v : α} {w : β}
    (hv : R v w) {xs : List α} {ys : List β} (h : List.Forall₂ R xs ys) :
    List.Forall₂ R (insertDown after v xs) (insertDown after' w ys) := by
  induction h with
  | nil => exact .cons hv .nil
  | @cons x y xs ys hxy htail ih =>
    rw [insertDown, insertDown, hR x y hxy v w hv]
    cases after' y w with
    | true => exact .cons hxy ih
    | false => exact .cons hv (.cons hxy htail)

/-- Two lists whose elements are related, and compare alike, are sorted alike. -/
theorem sortDown_forall₂ (hR : ∀ a b, R a b → ∀ a' b', R a' b' → after a a' = after' b b') {xs : List α}
    {ys : List β} (h : List.Forall₂ R xs ys) : List.Forall₂ R (sortDown after xs) (sortDown after' ys) := by
  -- the sorted parts stay related while the lists are consumed
  suffices ∀ sr sr', List.Forall₂ R sr sr' →
      List.Forall₂ R (xs.foldl (fun sr v => insertDown after v sr) sr)
        (ys.foldl (fun sr v => insertDown after' v sr) sr') from
    rel_reverse (this [] [] .nil)
  induction h with
  | nil => exact fun _ _ hsort => hsort
  | cons hxy _ ih => exact fun _ _ hsort => ih _ _ (insertDown_forall₂ hR hxy hsort)

end

/-! ## UTF-8 -/

/-- The bytes of a character, as numbers. -/
def utf8Code (c : Char) : List Nat := (String.utf8EncodeChar c).map UInt8.toNat

/-- The bytes of a character by the range of its code point. -/
theorem utf8Code_eq (c : Char) : utf8Code c = if c.toNat ≤ 0x7f then [c.toNat]
    else if c.toNat ≤ 0x7ff then [c.toNat / 64 + 192, c.toNat % 64 + 128]
    else if c.toNat ≤ 0xffff then [c.toNat / 4096 + 224, c.toNat / 64 % 64 + 128, c.toNat % 64 + 128]
    else [c.toNat / 262144 + 240, c.toNat / 4096 % 64 + 128, c.toNat / 64 % 64 + 128, c.toNat % 64 + 128] := by
  have hvalid := Json.toNat_scalar c
  have hval : c.val.toNat = c.toNat := rfl
  unfold utf8Code String.utf8EncodeChar
  dsimp only
  rw [hval]
  generalize c.toNat = n at hvalid
  split_ifs <;> simp <;> omega

theorem utf8Code_ne_nil (c : Char) : utf8Code c ≠ [] := by
  rw [utf8Code_eq]
  split_ifs <;> simp

/-- A smaller code point has a smaller code, at a position both codes have. -/
theorem utf8Code_below {c d : Char} (h : c.toNat < d.toNat) : Below (utf8Code c) (utf8Code d) := by
  have hvalid := Json.toNat_scalar d
  rw [utf8Code_eq, utf8Code_eq]
  generalize c.toNat = m at h
  generalize d.toNat = n at h hvalid
  -- codes of different lengths differ in the first byte
  split_ifs with h₁ h₂ h₃ h₂ h₃ h₃ h₄ h₄ h₄
  all_goals first
    | omega
    | exact Below.head (by omega) _ _
    | skip
  -- codes of one length: at the first of the positions where the digits to base 64 differ
  · exact .step (by omega) fun _ => .head (by omega) _ _
  · exact .step (by omega) fun _ => .step (by omega) fun _ => .head (by omega) _ _
  · exact .step (by omega) fun _ => .step (by omega) fun _ => .step (by omega) fun _ => .head (by omega) _ _

/-- **Comparing UTF-8 bytes is comparing code points.** -/
theorem utf8_lt_iff {s t : Text} :
    (Json.utf8 s).map UInt8.toNat < (Json.utf8 t).map UInt8.toNat ↔ s.map Char.toNat < t.map Char.toNat := by
  have hby : ∀ u : Text, (Json.utf8 u).map UInt8.toNat = u.flatMap utf8Code := by
    intro u
    rw [Json.utf8, map_flatMap]
    rfl
  rw [hby, hby]
  exact flatMap_lt_iff (fun _ _ => utf8Code_below) utf8Code_ne_nil fun _ _ h => Char.toNat_inj.mp h

end Library
