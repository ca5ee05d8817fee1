import Mathlib.Tactic

/-!
# `Library.Slots` — a window of numbered items in slots modulo its size

A receiver that keeps items with numbers in `[next, next + n)` can store them in `n` slots, each at its number modulo
`n`. `Windowed` is the invariant of such a store, and the rules say what a receiver does to it: put an item of the
window into its slot, and take the item with the number `next` and move on. In a windowed store the slot of `next` can
only hold the item with that number (`Windowed.at_next`).
-/

namespace Library

open Function

variable {n : Nat} [NeZero n] {α : Type*} {num : α → Nat} {next : Nat}

/-- The slot of a number. -/
def slotOf (n : Nat) [NeZero n] (k : Nat) : Fin n := Fin.ofNat n k

theorem slotOf_inj {j k : Nat} (hj : next ≤ j ∧ j < next + n) (hk : next ≤ k ∧ k < next + n)
    (h : slotOf n j = slotOf n k) : j = k := by
  have hmod : j ≡ k [MOD n] := congrArg Fin.val h
  exact Nat.ModEq.eq_of_abs_lt hmod (by rw [abs_lt]; omega)

/-- `n` slots, each empty or filled. -/
abbrev Slots (n : Nat) (α : Type*) := Fin n → Option α

namespace Slots

variable {sl : Slots n α}

/-- Every filled slot is that of its item, and the item is in the window that starts at `next`. -/
def Windowed (number : α → Nat) (next : Nat) (slots : Slots n α) : Prop :=
  ∀ i x, slots i = some x → slotOf n (number x) = i ∧ next ≤ number x ∧ number x < next + n

theorem Windowed.empty : Windowed num next (fun _ : Fin n => none) := by
  intro i x hx
  cases hx

section

variable (h : Windowed num next sl)
include h

/-- An item of the window is put into its slot. -/
theorem Windowed.put {x : α} (hlow : next ≤ num x) (hhigh : num x < next + n) :
    Windowed num next (update sl (slotOf n (num x)) (some x)) := by
  intro i y hy
  by_cases hi : i = slotOf n (num x)
  · subst hi
    rw [update_self] at hy
    cases hy
    exact ⟨rfl, hlow, hhigh⟩
  · rw [update_of_ne hi] at hy
    exact h i y hy

theorem Windowed.number_eq {x : α} {k : Nat} (hk : next ≤ k ∧ k < next + n) (hx : sl (slotOf n k) = some x) :
    num x = k := by
  obtain ⟨hslot, hlow, hhigh⟩ := h _ x hx
  exact slotOf_inj ⟨hlow, hhigh⟩ hk hslot

theorem Windowed.at_next {x : α} (hx : sl (slotOf n next) = some x) : num x = next :=
  h.number_eq ⟨le_rfl, Nat.lt_add_of_pos_right (NeZero.pos n)⟩ hx

theorem Windowed.take : Windowed num (next + 1) (update sl (slotOf n next) none) := by
  intro i x hx
  by_cases hi : i = slotOf n next
  · subst hi
    rw [update_self] at hx
    cases hx
  rw [update_of_ne hi] at hx
  obtain ⟨hslot, hlow, hhigh⟩ := h i x hx
  have hne : num x ≠ next := by
    rintro rfl
    exact hi hslot.symm
  exact ⟨hslot, by omega, by omega⟩

end

end Slots

end Library
