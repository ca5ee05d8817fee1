import Mathlib.Data.List.Basic

/-!
# `Library.Machine` — runs of a deterministic machine

A machine is a step function on states and events; a run folds it over a list of events. `Along ok` says
that every event of a run meets a condition in the state it is taken in. An invariant that is preserved by
the events that meet the condition holds at the end of such a run (`Along.invariant`).
-/

namespace Library

variable {σ ε : Type*}

/-- Every event of the run from `s` meets `ok` in the state in which it happens. -/
def Along (step : σ → ε → σ) (ok : σ → ε → Prop) : σ → List ε → Prop
  | _, [] => True
  | s, e :: es => ok s e ∧ Along step ok (step s e) es

instance decidableAlong (step : σ → ε → σ) (ok : σ → ε → Prop) [∀ s e, Decidable (ok s e)] :
    ∀ s es, Decidable (Along step ok s es)
  | _, [] => inferInstanceAs (Decidable True)
  | s, e :: es =>
    have := decidableAlong step ok (step s e) es
    inferInstanceAs (Decidable (ok s e ∧ Along step ok (step s e) es))

variable {stp : σ → ε → σ} {ok : σ → ε → Prop} {es : List ε} {s : σ}

/-- **The run rule.** What every admitted event preserves holds at the end of an admitted run. -/
theorem Along.invariant {I : σ → Prop} (hstep : ∀ s e, I s → ok s e → I (stp s e)) (h : Along stp ok s es) (hs : I s)
    : I (es.foldl stp s) := by
  induction es generalizing s with
  | nil => exact hs
  | cons e es ih => exact ih h.2 (hstep s e hs h.1)

theorem Along.mono {ok' : σ → ε → Prop} (h : Along stp ok s es) (himp : ∀ s e, ok s e → ok' s e)
    : Along stp ok' s es := by
  induction es generalizing s with
  | nil => trivial
  | cons e es ih => exact ⟨himp s e h.1, ih h.2⟩

/-- A run is admitted if its two parts are. -/
theorem Along.append {es es' : List ε} (h : Along stp ok s es) (h' : Along stp ok (es.foldl stp s) es') :
    Along stp ok s (es ++ es') := by
  induction es generalizing s with
  | nil => exact h'
  | cons e es ih => exact ⟨h.1, ih h.2 h'⟩

theorem Along.of_forall (h : ∀ e ∈ es, ∀ s, ok s e) (s : σ) : Along stp ok s es := by
  induction es generalizing s with
  | nil => trivial
  | cons e es ih => exact ⟨h e List.mem_cons_self s, ih (fun e' he' => h e' (List.mem_cons_of_mem e he')) _⟩

/-- Without a condition, every event is admitted. -/
theorem foldl_invariant {I : σ → Prop} (hstep : ∀ s e, I s → I (stp s e)) (hs : I s) (es : List ε) :
    I (es.foldl stp s) := by
  induction es generalizing s with
  | nil => exact hs
  | cons e es ih => exact ih (hstep s e hs)

end Library
