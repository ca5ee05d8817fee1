import Mathlib.Tactic

/-!
# `Library.Recency` — remembering the last `w` events

A log is kept in full, but only its last `w` entries are remembered. `Spaced w` says that each entry was
new among the `w` entries before it when it was logged: the discipline of a replay cache with first-in
first-out eviction. Two consequences matter to a client: the remembered part never holds an entry twice,
and between two occurrences of one entry at least `w` different other entries were logged.
-/

namespace Library

open List

variable {α : Type*}

/-- The last `w` entries of a log. -/
def lastN (w : Nat) (l : List α) : List α := l.drop (l.length - w)

theorem length_lastN (w : Nat) (l : List α) : (lastN w l).length = min w l.length := by
  simp only [lastN, length_drop]
  omega

variable {l : List α} {w : Nat}

theorem lastN_append_of_lt (x : α) (h : l.length < w) : lastN w (l ++ [x]) = lastN w l ++ [x] := by
  have h1 : (l ++ [x]).length - w = 0 := by rw [length_append, length_singleton]; omega
  have h2 : l.length - w = 0 := by omega
  simp only [lastN, h1, h2, drop_zero]

theorem lastN_append_of_le (x : α) (h : w ≤ l.length) : lastN w (l ++ [x]) = (lastN w l ++ [x]).tail := by
  have h1 : (l ++ [x]).length - w = l.length - w + 1 := by
    rw [length_append, length_singleton]; omega
  have h2 : l.length - w ≤ l.length := Nat.sub_le _ _
  simp only [lastN, h1]
  rw [← drop_one, ← drop_append_of_le_length h2, drop_drop]

/-- Every entry was new among the `w` entries before it. -/
inductive Spaced (w : Nat) : List α → Prop where
  | nil : Spaced w []
  | snoc {l : List α} {x : α} : Spaced w l → x ∉ lastN w l → Spaced w (l ++ [x])

/-- In a spaced log an entry differs from each of the `w` entries before it. -/
theorem Spaced.getElem_ne (h : Spaced w l) :
    ∀ {i j : Nat} (hij : i < j) (hj : j < l.length), j ≤ i + w → l[i] ≠ l[j] := by
  induction h with
  | nil => intro i j _ hj; simp at hj
  | @snoc l x _ hx ih =>
    intro i j hij hj hw
    rw [length_append, length_singleton] at hj
    by_cases hjl : j < l.length
    · rw [getElem_append_left (by omega), getElem_append_left hjl]
      exact ih hij hjl hw
    have hj' : j = l.length := by omega
    subst hj'
    rw [getElem_append_left hij, getElem_concat_length rfl]
    rintro rfl
    apply hx
    have hi : i - (l.length - w) < (lastN w l).length := by rw [length_lastN]; omega
    have hget : (lastN w l)[i - (l.length - w)] = l[i] := by
      simp only [lastN, getElem_drop]
      congr 1
      omega
    rw [← hget]
    exact getElem_mem _

theorem Spaced.nodup_lastN (h : Spaced w l) : (lastN w l).Nodup := by
  rw [List.Nodup, pairwise_iff_getElem]
  intro i j hi hj hij
  rw [length_lastN] at hi hj
  simp only [lastN, getElem_drop]
  exact h.getElem_ne (by omega) (by omega) (by omega)

/-- **Spacing.** Strictly between two occurrences of an entry lie at least `w` different other entries. -/
theorem Spaced.card_between [DecidableEq α] (h : Spaced w l) {i j : Nat} (hij : i < j) (hj : j < l.length)
    (heq : l[i] = l[j]) : w ≤ (((l.take j).drop (i + 1)).toFinset.erase l[i]).card := by
  have hgap : i + w < j := by
    by_contra hcon
    exact h.getElem_ne hij hj (by omega) heq
  -- the `w` entries right after position `i` are pairwise different and different from `l[i]`
  have hnd : ((l.drop (i + 1)).take w).Nodup := by
    rw [List.Nodup, pairwise_iff_getElem]
    intro a b ha hb hab
    rw [length_take, length_drop] at ha hb
    simp only [getElem_take, getElem_drop]
    exact h.getElem_ne (by omega) (by omega) (by omega)
  have hnot : l[i] ∉ ((l.drop (i + 1)).take w).toFinset := by
    rw [mem_toFinset, mem_iff_getElem]
    rintro ⟨a, ha, hget⟩
    rw [length_take, length_drop] at ha
    simp only [getElem_take, getElem_drop] at hget
    exact h.getElem_ne (i := i) (j := i + 1 + a) (by omega) (by omega) (by omega) hget.symm
  have hsub : ((l.drop (i + 1)).take w).toFinset ⊆ ((l.take j).drop (i + 1)).toFinset.erase l[i] := by
    intro x hx
    refine Finset.mem_erase.mpr ⟨fun he => hnot (he ▸ hx), ?_⟩
    rw [mem_toFinset] at hx ⊢
    rw [drop_take]
    exact take_subset_take_left _ (by omega) hx
  calc w = ((l.drop (i + 1)).take w).toFinset.card := by
        rw [toFinset_card_of_nodup hnd, length_take, length_drop]; omega
    _ ≤ _ := Finset.card_le_card hsub

end Library
