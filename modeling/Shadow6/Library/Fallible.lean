import Mathlib.Tactic

/-!
# `Library.Fallible` — computations that may fail

A function of a program that raises is a computation in `Except`: it stops at the first check that fails. `refuseIf`
is one such check. A computation that returns has passed all of its checks, and the lemmas here take it apart, one
`bind` at a time. `FailsWith Q` says that it raises nothing but errors of a kind.
-/

namespace Library

variable {ε : Type*} {α β : Type} {x : Except ε α}

/-- `if c: raise e`. -/
def refuseIf (c : Prop) [Decidable c] (e : ε) : Except ε Unit := if c then .error e else .ok ()

theorem refuseIf_eq_ok {c : Prop} [Decidable c] {e : ε} {u : Unit} : refuseIf c e = .ok u ↔ ¬ c := by
  unfold refuseIf
  split <;> simp_all

/-- A sequence of two computations returns exactly if both do. -/
theorem bind_eq_ok {f : α → Except ε β} {r : β} : (x >>= f) = .ok r ↔ ∃ a, x = .ok a ∧ f a = .ok r := by
  cases x with
  | error e => exact ⟨nofun, fun ⟨_, h, _⟩ => nomatch h⟩
  | ok a => exact ⟨fun h => ⟨a, rfl, h⟩, fun ⟨_, h, hf⟩ => by cases h; exact hf⟩

/-- A sequence of two computations raises such an error exactly if one of them does. -/
theorem bind_raises {Q : ε → Prop} {f : α → Except ε β} : (∃ e, (x >>= f) = .error e ∧ Q e) ↔
    (∃ e, x = .error e ∧ Q e) ∨ ∃ a, x = .ok a ∧ ∃ e, f a = .error e ∧ Q e := by
  cases x <;> simp [bind, Except.bind]

/-- A result that is only wrapped. -/
theorem map_eq_ok {f : α → β} {r : β} : x.map f = .ok r ↔ ∃ a, x = .ok a ∧ f a = r := by
  cases x with
  | error e => exact ⟨nofun, fun ⟨_, h, _⟩ => nomatch h⟩
  | ok a => exact ⟨fun h => ⟨a, rfl, Except.ok.inj h⟩, fun ⟨_, h, hf⟩ => by cases h; exact congrArg _ hf⟩

/-- Whatever the computation fails with is such an error. -/
def FailsWith (Q : ε → Prop) (x : Except ε α) : Prop := ∀ e, x = .error e → Q e

section

variable {Q : ε → Prop}

theorem FailsWith.ok (a : α) : FailsWith Q (.ok a : Except ε α) := nofun

theorem FailsWith.error {e : ε} (h : Q e) : FailsWith Q (.error e : Except ε α) := by
  intro e' heq
  cases heq
  exact h

theorem FailsWith.refuseIf (c : Prop) [Decidable c] {e : ε} (h : Q e) : FailsWith Q (refuseIf c e) := by
  unfold Library.refuseIf
  split_ifs
  · exact .error h
  · exact .ok ()

/-- A sequence fails with what its parts fail with. -/
theorem FailsWith.bind {f : α → Except ε β} (hx : FailsWith Q x) (hf : ∀ a, x = .ok a → FailsWith Q (f a))
    : FailsWith Q (x >>= f) := by
  intro e h
  cases x with
  | error e' =>
    cases h
    exact hx e rfl
  | ok a => exact hf a rfl e h

end

end Library
