import Shadow6.Library.JsonArrange

/-!
# `Library.JsonProper` — what a parser returns

Whatever the dialect, a parsed value is `Proper`: nothing foreign in it, and distinct keys in every object. So it can
be rendered and read back.
-/

namespace Library

open List

namespace Json

/-- A value of the format: no foreign part, distinct keys in every object. -/
inductive Proper : Json → Prop where
  | null : Proper .null
  | bool (b : Bool) : Proper (.bool b)
  | int (n : Int) : Proper (.int n)
  | str (s : Text) : Proper (.str s)
  | arr {xs : List Json} (hxs : ∀ x ∈ xs, Proper x) : Proper (.arr xs)
  | obj {ms : Members} (hnodup : (ms.map Prod.fst).Nodup) (hms : ∀ m ∈ ms, Proper m.2) : Proper (.obj ms)

/-! ## Parsed values -/

variable {v : Json} {ms : Members}

section

variable {D : Dialect}

/-- Read by `parseValue` with less fuel than `fuel`. -/
def Parsed (D : Dialect) (fuel : Nat) (v : Json) : Prop :=
  ∃ f < fuel, ∃ depth t rest, parseValue D f depth t = some (v, rest)

theorem Parsed.mono {fuel fuel' : Nat} (h : Parsed D fuel v) (hle : fuel ≤ fuel') : Parsed D fuel' v := by
  obtain ⟨f, hf, hrd⟩ := h
  exact ⟨f, lt_of_lt_of_le hf hle, hrd⟩

variable {fuel dp : Nat} {t rest : Text}

/-- An array holds the elements so far and elements read with less fuel. -/
theorem parseElements_some {xs : List Json} (h : parseElements D fuel dp xs t = some (v, rest)) :
    ∃ ys, v = .arr ys ∧ ∀ y ∈ ys, y ∈ xs ∨ Parsed D fuel y := by
  induction fuel generalizing xs t with
  | zero => rw [parseElements] at h; cases h
  | succ fuel ih =>
    rw [parseElements] at h
    split at h
    · cases h
    rename_i x rest' hx
    have hrd : Parsed D (fuel + 1) x := ⟨fuel, Nat.lt_succ_self _, _, _, _, hx⟩
    have hlast : ∀ y ∈ xs ++ [x], y ∈ xs ∨ Parsed D (fuel + 1) y :=
      forall_mem_append.mpr ⟨fun _ => .inl, forall_mem_singleton.mpr (.inr hrd)⟩
    split at h
    · cases h
      exact ⟨_, rfl, hlast⟩
    · obtain ⟨ys, rfl, hys⟩ := ih h
      refine ⟨ys, rfl, fun y hy => ?_⟩
      rcases hys y hy with hy | hy
      · exact hlast y hy
      · exact .inr (hy.mono (Nat.le_succ _))
    · cases h

theorem parseMembers_quote {t : Text} {r : Json × Text} (h : parseMembers D (fuel + 1) dp ms t = some r) :
    ∃ rest, t = '"' :: rest := by
  cases t with
  | nil => simp [parseMembers] at h
  | cons c t =>
    by_cases hc : c = '"'
    · exact ⟨t, by rw [hc]⟩
    · simp [parseMembers, hc] at h

/-- An object holds the members so far and members read with less fuel, under distinct keys. -/
theorem parseMembers_some (hms : (ms.map Prod.fst).Nodup) (h : parseMembers D fuel dp ms t = some (v, rest)) :
    ∃ ns, v = .obj ns ∧ (ns.map Prod.fst).Nodup ∧ ∀ n ∈ ns, n ∈ ms ∨ Parsed D fuel n.2 := by
  induction fuel generalizing ms t with
  | zero => rw [parseMembers] at h; cases h
  | succ fuel ih =>
    obtain ⟨rest₀, rfl⟩ := parseMembers_quote h
    rw [parseMembers] at h
    split at h
    · cases h
    rename_i key rest' hkey
    split at h
    · split_ifs at h with hnew
      split at h
      · cases h
      rename_i x rest'' hx
      have hrd : Parsed D (fuel + 1) x := ⟨fuel, Nat.lt_succ_self _, _, _, _, hx⟩
      have hnd : ((ms ++ [(key, x)]).map Prod.fst).Nodup := by
        rw [map_append, nodup_append]
        refine ⟨hms, by simp, fun a ha b hb hab => ?_⟩
        rw [map_singleton, mem_singleton] at hb
        rw [hab, hb] at ha
        exact hnew ha
      have hlast : ∀ n ∈ ms ++ [(key, x)], n ∈ ms ∨ Parsed D (fuel + 1) n.2 :=
        forall_mem_append.mpr ⟨fun _ => .inl, forall_mem_singleton.mpr (.inr hrd)⟩
      split at h
      · cases h
        exact ⟨_, rfl, hnd, hlast⟩
      · obtain ⟨ns, rfl, hns, hmem⟩ := ih hnd h
        refine ⟨ns, rfl, hns, fun n hn => ?_⟩
        rcases hmem n hn with hn | hn
        · exact hlast n hn
        · exact .inr (hn.mono (Nat.le_succ _))
      · cases h
    · cases h

theorem parseValue_proper (h : parseValue D fuel dp t = some (v, rest)) : Proper v := by
  induction fuel using Nat.strong_induction_on generalizing dp t rest v with
  | _ fuel ih =>
    cases fuel with
    | zero => rw [parseValue] at h; cases h
    | succ fuel =>
      have hpar : ∀ w, Parsed D fuel w → Proper w := by
        rintro w ⟨f, hf, d, t', r, hrd⟩
        exact ih f (by omega) hrd
      rw [parseValue] at h
      split_ifs at h
      split at h
      · rename_i rest' _
        cases hstg : D.string rest' with
        | none => simp [hstg] at h
        | some p =>
          rw [hstg] at h
          cases h
          exact .str _
      · split at h
        · cases h; exact .obj (by simp) (by simp)
        have hnil : (([] : Members).map Prod.fst).Nodup := nodup_nil
        obtain ⟨ns, rfl, hns, hmem⟩ := parseMembers_some hnil h
        exact .obj hns fun n hn => hpar _ ((hmem n hn).resolve_left not_mem_nil)
      · split at h
        · cases h; exact .arr (by simp)
        · obtain ⟨ys, rfl, hmem⟩ := parseElements_some h
          exact .arr fun y hy => hpar _ ((hmem y hy).resolve_left not_mem_nil)
      · cases h; exact .bool _
      · cases h; exact .bool _
      · cases h; exact .null
      · cases hnum : D.number (skipSpace t) with
        | none => simp [hnum] at h
        | some p =>
          rw [hnum] at h
          cases h
          exact .int _

theorem parseDocument_proper {t : Text} (h : parseDocument D t = some v) : Proper v := by
  unfold parseDocument at h
  split at h
  · rename_i hvl
    split_ifs at h
    cases h
    exact parseValue_proper hvl
  · cases h

/-- A parser without bounds of its own reads a proper value. -/
theorem Proper.readable {d : Nat} (h : Proper v) (hdeep : ∀ d, D.tooDeep d = false)
    (hnum : ∀ (n : Int) rest, Stops rest → D.number (decimal n ++ rest) = some (n, rest))
    (hstg : ∀ s, D.acceptString s = true) : Readable D d v := by
  induction h generalizing d with
  | null | bool => exact hdeep d
  | int n => exact ⟨hdeep d, hnum n⟩
  | str s => exact ⟨hdeep d, hstg s⟩
  | arr _ ih => exact ⟨hdeep d, readableAll_iff.mpr fun x hx => ih x hx⟩
  | obj hnd _ ih => exact ⟨hdeep d, hnd, readableMembers_iff.mpr fun m hm => ⟨hstg m.1, ih m hm⟩⟩

theorem Proper.distinct (h : Proper v) : ∀ ks ∈ keyLists v, ks.Nodup := by
  induction h with
  | null | bool | int | str => intro ks hks; simp [keyLists] at hks
  | arr _ ih =>
    intro ks hks
    obtain ⟨x, hx, hks⟩ := mem_keyListsAll.mp hks
    exact ih x hx ks hks
  | obj hnd _ ih =>
    intro ks hks
    rcases mem_cons.mp hks with rfl | hks
    · exact hnd
    · obtain ⟨m, hm, hks⟩ := mem_keyListsMembers.mp hks
      exact ih m hm ks hks

end

/-! ## Members by key -/

theorem lookup_eq_of_mem (h : (ms.map Prod.fst).Nodup) {k : Text} (hmem : (k, v) ∈ ms) : ms.lookup k = some v := by
  induction ms with
  | nil => cases hmem
  | cons m ms ih =>
    obtain ⟨k', v'⟩ := m
    rw [map_cons, nodup_cons] at h
    rcases mem_cons.mp hmem with heq | htail
    · cases heq
      exact lookup_cons_self
    have hne : k ≠ k' := by
      rintro rfl
      exact h.1 (mem_map.mpr ⟨(k, v), htail, rfl⟩)
    rw [lookup_cons, beq_eq_false_iff_ne.mpr hne]
    exact ih h.2 htail

theorem mem_of_lookup {k : Text} (h : ms.lookup k = some v) : (k, v) ∈ ms := by
  induction ms with
  | nil => cases h
  | cons m ms ih =>
    obtain ⟨k', v'⟩ := m
    rw [lookup_cons] at h
    cases hk : k == k' with
    | true =>
      rw [hk] at h
      cases h
      rw [eq_of_beq hk]
      exact mem_cons_self
    | false =>
      rw [hk] at h
      exact mem_cons_of_mem _ (ih h)

end Json

end Library
