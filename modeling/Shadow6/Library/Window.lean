import Mathlib.Tactic

/-!
# `Library.Window` — a sliding window of used sequence numbers

A receiver that must take every sequence number at most once cannot keep them all. It keeps a *frontier*
below which every number is used, the *highest* number used so far, and the set of numbers *seen* in
between; numbers that fall `width` behind the highest are given up and count as used.

A number is *covered* when one of the three says that it must not be taken. Every operation of the window
covers what was covered before (`Covers.accept`, `Covers.declare`, `Covers.cutTo`) and the numbers it was
called for, so a number that is covered once is covered for good.
-/

namespace Library

open List

/-- The used numbers: all below `frontier`, those in `seen`, and the old ones behind `highest`. -/
structure Window where
  highest : Int
  frontier : Int
  seen : Finset Int
deriving DecidableEq

namespace Window

variable {w : Window} {width n k : Int}

/-- Nothing is used. -/
def fresh : Window := ⟨-1, 0, ∅⟩

/-- `n` must not be taken any more. -/
def Covers (width : Int) (w : Window) (n : Int) : Prop :=
  n ≤ w.highest - width ∨ n ∈ w.seen ∨ n < w.frontier

/-! ## Moving the frontier over seen numbers -/

/-- `while frontier in seen: seen.remove(frontier); frontier += 1`; each round takes one number out, so the
    size of the set bounds the rounds. -/
def advanceLoop : Nat → Window → Window
  | 0, w => w
  | fuel + 1, w =>
    if w.frontier ∈ w.seen then
      advanceLoop fuel { w with seen := w.seen.erase w.frontier, frontier := w.frontier + 1 }
    else w

def advance (w : Window) : Window := advanceLoop w.seen.card w

@[simp] theorem advanceLoop_highest (fl : Nat) (w : Window) : (advanceLoop fl w).highest = w.highest := by
  induction fl generalizing w with
  | zero => rfl
  | succ fl ih =>
    unfold advanceLoop
    split
    · exact ih _
    · rfl

@[simp] theorem advance_highest (w : Window) : w.advance.highest = w.highest := advanceLoop_highest _ w

theorem le_advanceLoop_frontier (fl : Nat) (w : Window) : w.frontier ≤ (advanceLoop fl w).frontier := by
  induction fl generalizing w with
  | zero => exact le_refl _
  | succ fl ih =>
    unfold advanceLoop
    split
    · have hnext := ih { w with seen := w.seen.erase w.frontier, frontier := w.frontier + 1 }
      dsimp only at hnext
      omega
    · exact le_refl _

theorem le_advance_frontier (w : Window) : w.frontier ≤ w.advance.frontier := le_advanceLoop_frontier _ w

/-- A round moves one number from `seen` to below the frontier. -/
theorem covers_advanceLoop (fl : Nat) (w : Window) : Covers width (advanceLoop fl w) n ↔ Covers width w n := by
  induction fl generalizing w with
  | zero => exact Iff.rfl
  | succ fl ih =>
    unfold advanceLoop
    split
    · rename_i hmem
      rw [ih]
      simp only [Covers, Finset.mem_erase]
      by_cases hn : n = w.frontier
      · subst hn
        simp [hmem]
      · constructor <;> intro h <;> grind
    · exact Iff.rfl

/-- Advancing the frontier changes how the numbers are kept, not which are covered. -/
@[simp] theorem covers_advance : Covers width w.advance n ↔ Covers width w n := covers_advanceLoop _ w

/-! ## Operations -/

/-- Take `n`: numbers `width` behind the highest are given up, the frontier moves over `n` if it can. -/
def accept (width : Int) (w : Window) (n : Int) : Window :=
  let highest := max n w.highest
  advance { w with highest := highest, seen := insert n (w.seen.filter fun k => ¬ k ≤ highest - width) }

/-- Use `n` up without taking it; nothing is given up. -/
def declare (w : Window) (n : Int) : Window :=
  advance { w with highest := max w.highest n, seen := insert n w.seen }

/-- Use up everything below `count`. -/
def cutTo (w : Window) (count : Int) : Window where
  highest := max w.highest (count - 1)
  frontier := count
  seen := w.seen.filter fun k => ¬ k < count

theorem Covers.accept (h : Covers width w k) (n : Int) : Covers width (w.accept width n) k := by
  unfold Window.accept
  rw [covers_advance]
  simp only [Covers, Finset.mem_insert, Finset.mem_filter] at h ⊢
  grind

theorem covers_accept_self (width : Int) (w : Window) (n : Int) : Covers width (w.accept width n) n := by
  unfold Window.accept
  rw [covers_advance]
  exact .inr (.inl (Finset.mem_insert_self _ _))

theorem Covers.declare (h : Covers width w k) (n : Int) : Covers width (w.declare n) k := by
  unfold Window.declare
  rw [covers_advance]
  simp only [Covers, Finset.mem_insert] at h ⊢
  grind

theorem covers_declare_self (width : Int) (w : Window) (n : Int) : Covers width (w.declare n) n := by
  unfold Window.declare
  rw [covers_advance]
  exact .inr (.inl (Finset.mem_insert_self _ _))

variable {cnt : Int}

/-- The frontier must not move back. -/
theorem Covers.cutTo (h : Covers width w k) (hcnt : w.frontier ≤ cnt) : Covers width (w.cutTo cnt) k := by
  simp only [Covers, Window.cutTo, Finset.mem_filter] at h ⊢
  grind

theorem covers_cutTo_of_lt (h : n < cnt) : Covers width (w.cutTo cnt) n := .inr (.inr h)

/-! ## Windows of a given width -/

/-- The highest number is at most `width` beyond the frontier, and what is seen lies between them. -/
structure Sound (width : Int) (w : Window) : Prop where
  frontier_nonneg : 0 ≤ w.frontier
  frontier_le : w.frontier ≤ w.highest + 1
  highest_le : w.highest ≤ w.frontier + width
  seen : ∀ n ∈ w.seen, w.frontier ≤ n ∧ n ≤ w.highest

theorem sound_fresh (h : 0 ≤ width) : Sound width fresh where
  frontier_nonneg := le_refl 0
  frontier_le := le_refl 0
  highest_le := by
    show (-1 : Int) ≤ 0 + width
    omega
  seen := fun n hn => absurd hn (Finset.notMem_empty n)

theorem Sound.advanceLoop (fl : Nat) {w : Window} (h : Sound width w) : Sound width (advanceLoop fl w) := by
  induction fl generalizing w with
  | zero => exact h
  | succ fl ih =>
    unfold Window.advanceLoop
    split
    · rename_i hmem
      have hfron := h.frontier_nonneg
      have hhig := h.highest_le
      have hbnd := (h.seen w.frontier hmem).2
      refine ih ⟨?_, ?_, ?_, ?_⟩
      · show 0 ≤ w.frontier + 1
        omega
      · show w.frontier + 1 ≤ w.highest + 1
        omega
      · show w.highest ≤ w.frontier + 1 + width
        omega
      · intro n hn
        obtain ⟨hne, hn⟩ := Finset.mem_erase.mp hn
        obtain ⟨hlow, hhigh⟩ := h.seen n hn
        show w.frontier + 1 ≤ n ∧ n ≤ w.highest
        omega
    · exact h

theorem Sound.accept (h : Sound width w) (hlow : w.frontier ≤ n) (hhigh : n ≤ w.frontier + width) :
    Sound width (w.accept width n) := by
  have hbnd := h.highest_le
  refine Sound.advanceLoop _ ⟨h.frontier_nonneg, ?_, ?_, ?_⟩
  · show w.frontier ≤ max n w.highest + 1
    omega
  · show max n w.highest ≤ w.frontier + width
    omega
  · intro k hk
    show w.frontier ≤ k ∧ k ≤ max n w.highest
    rcases Finset.mem_insert.mp hk with rfl | hk
    · omega
    · obtain ⟨hlow', hhigh'⟩ := h.seen k (Finset.mem_filter.mp hk).1
      omega

theorem Sound.declare (h : Sound width w) (hlow : w.frontier ≤ n) (hhigh : n ≤ w.frontier + width) :
    Sound width (w.declare n) := by
  have hbnd := h.highest_le
  refine Sound.advanceLoop _ ⟨h.frontier_nonneg, ?_, ?_, ?_⟩
  · show w.frontier ≤ max w.highest n + 1
    omega
  · show max w.highest n ≤ w.frontier + width
    omega
  · intro k hk
    show w.frontier ≤ k ∧ k ≤ max w.highest n
    rcases Finset.mem_insert.mp hk with rfl | hk
    · omega
    · obtain ⟨hlow', hhigh'⟩ := h.seen k hk
      omega

theorem Sound.cutTo (h : Sound width w) (hcnt : w.frontier ≤ cnt) (hwidth : 0 ≤ width) :
    Sound width (w.cutTo cnt) := by
  have hnn := h.frontier_nonneg
  have hbnd := h.highest_le
  refine ⟨?_, ?_, ?_, ?_⟩
  · show 0 ≤ cnt
    omega
  · show cnt ≤ max w.highest (cnt - 1) + 1
    omega
  · show max w.highest (cnt - 1) ≤ cnt + width
    omega
  · intro k hk
    obtain ⟨hk, hcut⟩ := Finset.mem_filter.mp hk
    have hhigh := (h.seen k hk).2
    show cnt ≤ k ∧ k ≤ max w.highest (cnt - 1)
    omega

@[simp] theorem accept_highest (width : Int) (w : Window) (n : Int) :
    (w.accept width n).highest = max n w.highest := advance_highest _

@[simp] theorem declare_highest (w : Window) (n : Int) : (w.declare n).highest = max w.highest n := advance_highest _

theorem le_accept_frontier (width : Int) (w : Window) (n : Int) : w.frontier ≤ (w.accept width n).frontier :=
  le_advance_frontier { w with
    highest := max n w.highest, seen := insert n (w.seen.filter fun k => ¬ k ≤ max n w.highest - width) }

theorem le_declare_frontier (w : Window) (n : Int) : w.frontier ≤ (w.declare n).frontier :=
  le_advance_frontier { w with highest := max w.highest n, seen := insert n w.seen }

theorem advance_singleton (highest n : Int) : advance ⟨highest, n, {n}⟩ = ⟨highest, n + 1, ∅⟩ := by
  show advanceLoop (1 : Nat) ⟨highest, n, {n}⟩ = _
  unfold advanceLoop
  rw [if_pos (Finset.mem_singleton_self n)]
  show (⟨highest, n + 1, ({n} : Finset Int).erase n⟩ : Window) = _
  rw [Finset.erase_singleton]

theorem accept_next (width n : Int) : accept width ⟨n - 1, n, ∅⟩ n = ⟨n, n + 1, ∅⟩ := by
  unfold accept
  dsimp only
  rw [Finset.filter_empty, max_eq_left (by omega)]
  exact advance_singleton n n

theorem declare_next (n : Int) : declare ⟨n - 1, n, ∅⟩ n = ⟨n, n + 1, ∅⟩ := by
  unfold declare
  dsimp only
  rw [max_eq_right (by omega)]
  exact advance_singleton n n

/-! ## The numbers still missing below a bound -/

/-- The numbers from the frontier up to `count` that were not seen, in order. -/
def missing (w : Window) (count : Int) : List Int :=
  ((List.range (count - w.frontier).toNat).map fun (i : Nat) => w.frontier + i).filter fun n => n ∉ w.seen

theorem mem_missing : n ∈ w.missing cnt ↔ w.frontier ≤ n ∧ n < cnt ∧ n ∉ w.seen := by
  simp only [missing, mem_filter, mem_map, mem_range, decide_eq_true_eq]
  constructor
  · rintro ⟨⟨i, hi, rfl⟩, hseen⟩
    exact ⟨by omega, by omega, hseen⟩
  · rintro ⟨hlow, hhigh, hseen⟩
    exact ⟨⟨(n - w.frontier).toNat, by omega, by omega⟩, hseen⟩

/-- Their number is the width of the gap less the numbers seen in it. -/
theorem length_missing (h : w.frontier ≤ cnt) : ((w.missing cnt).length : Int) =
      cnt - w.frontier - (w.seen.filter fun n => w.frontier ≤ n ∧ n < cnt).card := by
  -- as a set, the gap splits into the missing and the seen numbers
  have hnd : (w.missing cnt).Nodup :=
    ((nodup_range).map fun i j hij => by simpa using hij).filter _
  have hmis : (w.missing cnt).length = (Finset.Ico w.frontier cnt \ w.seen).card := by
    rw [← toFinset_card_of_nodup hnd]
    congr 1
    ext n
    simp only [mem_toFinset, mem_missing, Finset.mem_sdiff, Finset.mem_Ico]
    tauto
  have hseen : (w.seen.filter fun n => w.frontier ≤ n ∧ n < cnt) = Finset.Ico w.frontier cnt ∩ w.seen := by
    ext n
    simp only [Finset.mem_filter, Finset.mem_inter, Finset.mem_Ico]
    tauto
  have hspl := Finset.card_sdiff_add_card_inter (Finset.Ico w.frontier cnt) w.seen
  rw [Int.card_Ico] at hspl
  rw [hmis, hseen]
  omega

/-! ## Why numbers are used -/

section Reasons

variable {A B A' B' : Int → Prop}

/-- What is seen has a reason `A`, what is below the frontier a reason `B`. Numbers start at zero. -/
structure Justified (A B : Int → Prop) (w : Window) : Prop where
  seen : ∀ n ∈ w.seen, A n
  below : ∀ n, 0 ≤ n → n < w.frontier → B n

theorem justified_fresh : Justified A B fresh where
  seen := fun n hn => absurd hn (Finset.notMem_empty n)
  below := fun _ hnn hlow => absurd hlow (not_lt.mpr hnn)

theorem Justified.mono (h : Justified A B w) (hA : ∀ n, A n → A' n) (hB : ∀ n, B n → B' n) : Justified A' B' w where
  seen := fun n hn => hA n (h.seen n hn)
  below := fun n hnn hlow => hB n (h.below n hnn hlow)

theorem Justified.advanceLoop (hAB : ∀ n, A n → B n) (fl : Nat) {w : Window} (h : Justified A B w) :
    Justified A B (advanceLoop fl w) := by
  induction fl generalizing w with
  | zero => exact h
  | succ fl ih =>
    unfold Window.advanceLoop
    split
    · rename_i hmem
      refine ih ⟨?_, ?_⟩
      · intro n hn
        exact h.seen n (Finset.mem_of_mem_erase hn)
      · intro n hnn hlow
        -- the number that the frontier passes was seen
        rcases lt_or_eq_of_le (Int.lt_add_one_iff.mp hlow) with hlt | rfl
        · exact h.below n hnn hlt
        · exact hAB _ (h.seen _ hmem)
    · exact h

theorem Justified.accept (h : Justified A B w) (hAB : ∀ n, A n → B n) (hn : A n) :
    Justified A B (w.accept width n) := by
  refine Justified.advanceLoop hAB _ ⟨?_, h.below⟩
  intro k hk
  rcases Finset.mem_insert.mp hk with rfl | hk
  · exact hn
  · exact h.seen k (Finset.mem_filter.mp hk).1

theorem Justified.declare (h : Justified A B w) (hAB : ∀ n, A n → B n) (hn : A n) : Justified A B (w.declare n) := by
  refine Justified.advanceLoop hAB _ ⟨?_, h.below⟩
  intro k hk
  rcases Finset.mem_insert.mp hk with rfl | hk
  · exact hn
  · exact h.seen k hk

/-- A cut needs a reason for what is still missing. -/
theorem Justified.cutTo (h : Justified A B w) (hAB : ∀ n, A n → B n) (hmis : ∀ n ∈ w.missing cnt, B n) :
    Justified A B (w.cutTo cnt) where
  seen := fun n hn => h.seen n (Finset.mem_filter.mp hn).1
  below := by
    intro n hnn hlow
    by_cases hfron : n < w.frontier
    · exact h.below n hnn hfron
    by_cases hseen : n ∈ w.seen
    · exact hAB n (h.seen n hseen)
    · exact hmis n (mem_missing.mpr ⟨not_lt.mp hfron, hlow, hseen⟩)

end Reasons

end Window

end Library
