import Mathlib.Tactic

/-!
# `Library.Reorder` — a receiver that puts a numbered sequence back in order

A sender numbers the items of a growing list. A receiver gets them in any order and any number of times, holds
items that are ahead, and hands the next one on when it has it. `Reorder` is the invariant: what was handed on is
the front of the list, and what is held is at its place in it. The rules say what a receiver may do: see the sender
go on, hold an item, forget one, and hand the next one on.
-/

namespace Library

open List

variable {α : Type*} {sent out : List α} {next : Nat} {held held' : Nat → Option α}

/-- The receiver has handed on `out`, the first `next` items of `sent`, and holds items by their place in it. -/
structure Reorder (sent : List α) (next : Nat) (held : Nat → Option α) (out : List α) : Prop where
  reached : next ≤ sent.length
  handed : out = sent.take next
  holds : ∀ i x, held i = some x → sent[i]? = some x

theorem Reorder.init (sent : List α) : Reorder sent 0 (fun _ => none) [] :=
  ⟨Nat.zero_le _, rfl, nofun⟩

section

variable (h : Reorder sent next held out)
include h

/-- The sender goes on. -/
theorem Reorder.more (l : List α) : Reorder (sent ++ l) next held out := by
  refine ⟨?_, ?_, ?_⟩
  · rw [length_append]
    exact Nat.le_add_right_of_le h.reached
  · rw [take_append_of_le_length h.reached]
    exact h.handed
  · intro i x hi
    have hx := h.holds i x hi
    rw [List.getElem?_append_left (List.getElem?_eq_some_iff.mp hx).1]
    exact hx

/-- The receiver holds what it held, or items at their place. -/
theorem Reorder.hold (hheld : ∀ i x, held' i = some x → held i = some x ∨ sent[i]? = some x) :
    Reorder sent next held' out := by
  refine ⟨h.reached, h.handed, ?_⟩
  intro i x hi
  rcases hheld i x hi with hold | hnew
  · exact h.holds i x hold
  · exact hnew

theorem Reorder.advance {x : α} (hx : sent[next]? = some x) : Reorder sent (next + 1) held (out ++ [x]) := by
  refine ⟨(List.getElem?_eq_some_iff.mp hx).1, ?_, h.holds⟩
  rw [h.handed, take_add_one, hx]
  rfl

theorem Reorder.front : out <+: sent := by
  rw [h.handed]
  exact take_prefix next sent

theorem Reorder.length_out : out.length = next := by
  rw [h.handed, length_take]
  exact min_eq_left h.reached

end

end Library
