import Mathlib.Tactic

/-!
# `Library.Lockstep` — receivers that follow a script

A receiver takes inputs one after the other and releases output. A script is the list of inputs it expects, each with
what is released when it comes. A receiver follows the script (`Lockstep`) if it takes the expected input in each state
and is dead after any other one. Then whatever is fed to it, it releases what belongs to the inputs up to the first
deviation, and it is dead exactly if there was one (`Lockstep.feed`).

`allowed` says which inputs can be fed at all, and `last` what holds at the end of the script.
-/

namespace Library

open List

variable {σ ω β : Type*} {s : σ}

/-- Feed inputs to a receiver: its last state and all it has released. -/
def feed (step : σ → ω → σ × List β) : σ → List ω → σ × List β
  | s, [] => (s, [])
  | s, w :: ws => ((feed step (step s w).1 ws).1, (step s w).2 ++ (feed step (step s w).1 ws).2)

section

variable {stp : σ → ω → σ × List β}

@[simp] theorem feed_nil (s : σ) : feed stp s [] = (s, []) := rfl

theorem feed_append (s : σ) (ws ws' : List ω) :
    feed stp s (ws ++ ws') = ((feed stp (feed stp s ws).1 ws').1, (feed stp s ws).2 ++ (feed stp (feed stp s ws).1 ws').2) := by
  induction ws generalizing s with
  | nil => simp
  | cons w ws ih => simp [feed, ih]

/-- Nothing comes out of a dead receiver. -/
theorem feed_dead {dead : σ → Prop} (hdead : ∀ s w, dead s → dead (stp s w).1 ∧ (stp s w).2 = []) (hs : dead s)
    (ws : List ω) : dead (feed stp s ws).1 ∧ (feed stp s ws).2 = [] := by
  induction ws generalizing s with
  | nil => exact ⟨hs, rfl⟩
  | cons w ws ih =>
    obtain ⟨hnx, hout⟩ := hdead s w hs
    obtain ⟨hlast, hrs⟩ := ih hnx
    exact ⟨hlast, by rw [feed, hout, hrs, append_nil]⟩

end

/-- How many inputs two lists have in common at the front. -/
def commonLength [DecidableEq ω] : List ω → List ω → Nat
  | v :: vs, w :: ws => if v = w then commonLength vs ws + 1 else 0
  | _, _ => 0

theorem take_commonLength [DecidableEq ω] (vs ws : List ω) : ws.take (commonLength vs ws) <+: vs := by
  induction vs generalizing ws with
  | nil => simp [commonLength]
  | cons v vs ih =>
    cases ws with
    | nil => simp
    | cons w ws =>
      rw [commonLength]
      split_ifs with heq
      · rw [take_succ_cons, heq, prefix_cons_inj]
        exact ih ws
      · simp

theorem commonLength_of_isPrefix [DecidableEq ω] {vs ws : List ω} (h : vs <+: ws) : commonLength vs ws = vs.length := by
  obtain ⟨rest, rfl⟩ := h
  induction vs with
  | nil => simp [commonLength]
  | cons v vs ih => rw [cons_append, commonLength, if_pos rfl, ih, length_cons]

/-- What the first `n` steps of a script release. -/
def releases (script : List (ω × List β)) (n : Nat) : List β := ((script.take n).map Prod.snd).flatten

/-- The receiver is in lockstep with the script. -/
def Lockstep (step : σ → ω → σ × List β) (dead last : σ → Prop) (allowed : ω → Prop) : σ → List (ω × List β) → Prop
  | s, [] => ¬ dead s ∧ last s ∧ ∀ v, allowed v → dead (step s v).1 ∧ (step s v).2 = []
  | s, (w, out) :: rest =>
    ¬ dead s ∧ (∀ v, allowed v → v ≠ w → dead (step s v).1 ∧ (step s v).2 = []) ∧ (step s w).2 = out ∧
      Lockstep step dead last allowed (step s w).1 rest

section

variable {ste : σ → ω → σ × List β} {dd l : σ → Prop} {al : ω → Prop}

variable {sc : List (ω × List β)}

theorem Lockstep.alive (h : Lockstep ste dd l al s sc) : ¬ dd s := by
  cases sc with
  | nil | cons p rest => exact h.1

theorem Lockstep.last_feed (h : Lockstep ste dd l al s sc) : l (Library.feed ste s (sc.map Prod.fst)).1 := by
  induction sc generalizing s with
  | nil => exact h.2.1
  | cons p rest ih => exact ih h.2.2.2

/-- **A receiver in lockstep** releases what belongs to the inputs before the first deviation, and is dead exactly if
    there was a deviation. -/
theorem Lockstep.feed [DecidableEq ω] (hdead : ∀ s w, dd s → dd (ste s w).1 ∧ (ste s w).2 = [])
    (h : Lockstep ste dd l al s sc) {ws : List ω} (hws : ∀ w ∈ ws, al w) :
    (feed ste s ws).2 = releases sc (commonLength ws (sc.map Prod.fst)) ∧
      (dd (feed ste s ws).1 ↔ ¬ ws <+: sc.map Prod.fst) := by
  induction ws generalizing s sc with
  | nil => exact ⟨by simp [commonLength, releases], by simp [h.alive]⟩
  | cons v ws ih =>
    have hv := hws v mem_cons_self
    have hrs : ∀ w ∈ ws, al w := fun w hw => hws w (mem_cons_of_mem _ hw)
    cases sc with
    | nil =>
      obtain ⟨hlost, hout⟩ := h.2.2 v hv
      obtain ⟨hlast, hnone⟩ := feed_dead hdead hlost ws
      refine ⟨by rw [Library.feed, hout, hnone]; rfl, ?_⟩
      exact iff_of_true hlast (by simp)
    | cons p rest =>
      obtain ⟨w, out⟩ := p
      by_cases heq : v = w
      · subst heq
        obtain ⟨hrel, hfail⟩ := ih h.2.2.2 hrs
        constructor
        · rw [Library.feed, h.2.2.1, hrel]
          simp [commonLength, releases]
        · rw [Library.feed, hfail]
          simp
      obtain ⟨hlost, hout⟩ := h.2.1 v hv heq
      obtain ⟨hlast, hnone⟩ := feed_dead hdead hlost ws
      refine ⟨by rw [Library.feed, hout, hnone]; simp [commonLength, releases, heq], ?_⟩
      exact iff_of_true hlast (by simp [heq])

end

end Library
