import Mathlib.Tactic

/-!
# `Library.Ring` — a ring of slots as a bounded queue

A buffer of at most `n` slots that first grows and is then overwritten in place, oldest slot first, is a
queue of at most `n` entries whose oldest entry leaves when a new one comes. `Ring` relates the slots and the
head position to the queue they stand for; the two rules are one per way of adding an entry.
-/

namespace Library

open List

variable {α : Type*} {n head : Nat} {slots queue : List α}

/-- The slots, with the oldest entry at `head`, hold `queue` (oldest entry first). -/
structure Ring (n : Nat) (slots : List α) (head : Nat) (queue : List α) : Prop where
  size_le : slots.length ≤ n
  growing : slots.length < n → head = 0
  head_lt : head < n
  contents : queue = slots.drop head ++ slots.take head

theorem Ring.empty (h : 0 < n) : Ring n ([] : List α) 0 [] := ⟨Nat.zero_le _, fun _ => rfl, h, rfl⟩

theorem Ring.length_eq (h : Ring n slots head queue) : queue.length = slots.length := by
  rw [h.contents, length_append, length_drop, length_take]
  omega

theorem Ring.push (h : Ring n slots head queue) (hroom : slots.length < n) (x : α) :
    Ring n (slots ++ [x]) head (queue ++ [x]) := by
  have hhead := h.growing hroom
  refine ⟨?_, fun _ => hhead, h.head_lt, ?_⟩
  · rw [length_append, length_singleton]
    exact hroom
  · rw [h.contents, hhead]
    simp

/-- Afterwards the oldest entry is overwritten and the head moves on. -/
theorem Ring.replace (h : Ring n slots head queue) (hfull : ¬ slots.length < n) (x : α) :
    ∃ oldest r, queue = oldest :: r ∧ slots[head]? = some oldest ∧
      Ring n (slots.set head x) ((head + 1) % n) (r ++ [x]) := by
  have hlen : slots.length = n := le_antisymm h.size_le (not_lt.mp hfull)
  have hlt : head < slots.length := hlen ▸ h.head_lt
  refine ⟨slots[head], slots.drop (head + 1) ++ slots.take head, ?_, getElem?_eq_getElem hlt, ?_, ?_, ?_, ?_⟩
  · rw [h.contents, drop_eq_getElem_cons hlt, cons_append]
  · rw [length_set, hlen]
  · intro hroom
    rw [length_set] at hroom
    exact absurd hroom hfull
  · exact Nat.mod_lt _ (Nat.zero_lt_of_lt h.head_lt)
  rcases lt_or_ge (head + 1) n with hmore | hlast
  · rw [Nat.mod_eq_of_lt hmore, drop_set_of_lt (Nat.lt_succ_self head),
      take_add_one, getElem?_set_self hlt, take_set_of_le (le_refl head)]
    simp
  -- the head was the last slot and goes back to the first
  have hwrap : head + 1 = n := by have := h.head_lt; omega
  have hempty : slots.drop (head + 1) = [] := drop_eq_nil_of_le (by omega)
  rw [hwrap, Nat.mod_self, drop_zero, take_zero, append_nil, ← hwrap, hempty,
    nil_append, set_eq_take_append_cons_drop, if_pos hlt, hempty]

end Library
