import Mathlib.Data.List.Pairwise
import Mathlib.Order.Lattice

/-!
# `Library.Replay` — a memory that forgets what is no longer valid

A replay memory accepts items, records each of them, and drops records to save space. It is sound when it drops the
record of an item only after the item's deadline (`Retained`). Then two items that the memory takes for the same are
separated by the deadline of the first (`Separated`), whatever the memory is made of: a directory, a file of slots, a
table with a heap.

An accepted item is kept with the instant at which it was accepted.
-/

namespace Library

open List

variable {ι κ τ : Type*} [LinearOrder τ] {deadline : ι → τ} {recorded recorded' : ι → Prop}

/-- Everything accepted so far is recorded, or its deadline has passed. -/
def Retained (deadline : ι → τ) (recorded : ι → Prop) (clock : τ) (accepted : List (ι × τ)) : Prop :=
  ∀ a ∈ accepted, recorded a.1 ∨ deadline a.1 < clock

/-- Of two accepted items with one key, the second was accepted after the deadline of the first. -/
def Separated (key : ι → κ) (deadline : ι → τ) (accepted : List (ι × τ)) : Prop :=
  accepted.Pairwise fun a b => key a.1 = key b.1 → deadline a.1 < b.2

theorem retained_nil (deadline : ι → τ) (recorded : ι → Prop) (clock : τ) : Retained deadline recorded clock [] := by
  simp [Retained]

theorem separated_nil (key : ι → κ) (deadline : ι → τ) : Separated key deadline [] := .nil

section

variable {clock clock' : τ} {accepted : List (ι × τ)}

/-- The clock goes on. -/
theorem Retained.later (h : Retained deadline recorded clock accepted) (hle : clock ≤ clock') :
    Retained deadline recorded clock' accepted := by
  intro a ha
  exact (h a ha).imp_right fun hlt => hlt.trans_le hle

/-- Records are dropped after their deadline. -/
theorem Retained.drop (h : Retained deadline recorded clock accepted)
    (hdrop : ∀ a ∈ accepted, recorded a.1 → recorded' a.1 ∨ deadline a.1 < clock) :
    Retained deadline recorded' clock accepted := by
  intro a ha
  rcases h a ha with hrec | hlate
  · exact hdrop a ha hrec
  · exact .inr hlate

theorem Retained.accept (h : Retained deadline recorded clock accepted) {x : ι} (hx : recorded x) (t : τ) :
    Retained deadline recorded clock (accepted ++ [(x, t)]) := forall_mem_append.mpr ⟨h, forall_mem_singleton.mpr (.inl hx)⟩

/-- **The second item comes after the deadline of the first**, if the memory accepts no item whose key it has a record
    of. -/
theorem Separated.accept {key : ι → κ} (h : Separated key deadline accepted)
    (hret : Retained deadline recorded clock accepted) {x : ι}
    (hnew : ∀ a ∈ accepted, key a.1 = key x → recorded a.1 → deadline a.1 < clock) :
    Separated key deadline (accepted ++ [(x, clock)]) := by
  refine pairwise_append.mpr ⟨h, pairwise_singleton _ _, ?_⟩
  intro a ha b hb hkey
  rw [mem_singleton.mp hb] at hkey ⊢
  rcases hret a ha with hrec | hlate
  · exact hnew a ha hkey hrec
  · exact hlate

end

end Library
