import Shadow6.Library.JsonRoundTrip

/-!
# `Library.JsonArrange` — member order

A serializer that promises canonical bytes first puts the members of every object into an order that
depends only on the set of its keys. `Arrangement` is such an order, `arrange` applies it throughout a
value, and `arrange_eq_iff` says when two of them give the same tree. The module also has the induction
principle of `Json` that hides the nesting through lists.
-/

namespace Library

open List

namespace Json

/-- An object's members. -/
abbrev Members := List (Text × Json)

/-! ## Induction -/

/-- Induction over a value: the elements of an array and the values of an object's members. -/
@[elab_as_elim]
theorem inductionOn {P : Json → Prop} (v : Json) (null : P .null) (bool : ∀ b, P (.bool b))
    (int : ∀ n, P (.int n)) (str : ∀ s, P (.str s)) (arr : ∀ xs, (∀ x ∈ xs, P x) → P (.arr xs))
    (obj : ∀ ms : Members, (∀ m ∈ ms, P m.2) → P (.obj ms)) (foreign : P .foreign) : P v :=
  @Json.rec P (fun xs => ∀ x ∈ xs, P x) (fun ms => ∀ m ∈ ms, P m.2) (fun m => P m.2)
    null bool int str arr obj foreign
    (by simp) (fun _ _ hx hxs => forall_mem_cons.mpr ⟨hx, hxs⟩)
    (by simp) (fun _ _ hm hms => forall_mem_cons.mpr ⟨hm, hms⟩) (fun _ _ hv => hv) v

/-! ## The strings and the key lists of a value -/

mutual

/-- Every string and every key. -/
def strings : Json → List Text
  | .str s => [s]
  | .arr xs => stringsAll xs
  | .obj ms => stringsMembers ms
  | .null | .bool _ | .int _ | .foreign => []

def stringsAll : List Json → List Text
  | [] => []
  | x :: xs => strings x ++ stringsAll xs

def stringsMembers : Members → List Text
  | [] => []
  | (k, v) :: ms => k :: strings v ++ stringsMembers ms

end

mutual

/-- For every object the list of its keys. -/
def keyLists : Json → List (List Text)
  | .arr xs => keyListsAll xs
  | .obj ms => ms.map Prod.fst :: keyListsMembers ms
  | .null | .bool _ | .int _ | .str _ | .foreign => []

def keyListsAll : List Json → List (List Text)
  | [] => []
  | x :: xs => keyLists x ++ keyListsAll xs

def keyListsMembers : Members → List (List Text)
  | [] => []
  | (_, v) :: ms => keyLists v ++ keyListsMembers ms

end

variable {s : Text} {xs : List Json}

theorem mem_stringsAll : s ∈ stringsAll xs ↔ ∃ x ∈ xs, s ∈ strings x := by
  induction xs with
  | nil => simp [stringsAll]
  | cons x xs ih => simp [stringsAll, ih]

variable {ms : Members} {ks : List Text}

theorem mem_stringsMembers : s ∈ stringsMembers ms ↔ ∃ m ∈ ms, s = m.1 ∨ s ∈ strings m.2 := by
  induction ms with
  | nil => simp [stringsMembers]
  | cons m ms ih => simp [stringsMembers, ih, or_assoc]

theorem mem_keyListsAll : ks ∈ keyListsAll xs ↔ ∃ x ∈ xs, ks ∈ keyLists x := by
  induction xs with
  | nil => simp [keyListsAll]
  | cons x xs ih => simp [keyListsAll, ih]

theorem mem_keyListsMembers : ks ∈ keyListsMembers ms ↔ ∃ m ∈ ms, ks ∈ keyLists m.2 := by
  induction ms with
  | nil => simp [keyListsMembers]
  | cons m ms ih => simp [keyListsMembers, ih]

variable {v : Json} {dp : Nat} {D : Dialect}

theorem mem_strings_of_key {k : Text} (hks : ks ∈ keyLists v) (hk : k ∈ ks) : k ∈ strings v := by
  induction v using inductionOn with
  | null | bool | int | str | foreign => simp [keyLists] at hks
  | arr xs ih =>
    obtain ⟨x, hx, hmem⟩ := mem_keyListsAll.mp hks
    exact mem_stringsAll.mpr ⟨x, hx, ih x hx hmem⟩
  | obj ms ih =>
    rcases mem_cons.mp hks with rfl | hmem
    · obtain ⟨m, hm, rfl⟩ := mem_map.mp hk
      exact mem_stringsMembers.mpr ⟨m, hm, .inl rfl⟩
    · obtain ⟨m, hm, hmem⟩ := mem_keyListsMembers.mp hmem
      exact mem_stringsMembers.mpr ⟨m, hm, .inr (ih m hm hmem)⟩

/-! ## Rendering, member by member -/

theorem renderAll_eq_map (escape : Char → Text) (xs : List Json) : renderAll escape xs = xs.map (render escape) := by
  induction xs with
  | nil => rfl
  | cons x xs ih => rw [renderAll, ih, map_cons]

theorem renderMembers_eq_map (escape : Char → Text) (ms : Members) :
    renderMembers escape ms = ms.map fun m => quote escape m.1 ++ ':' :: render escape m.2 := by
  induction ms with
  | nil => rfl
  | cons m ms ih => rw [renderMembers, ih, map_cons]

theorem readableAll_iff : ReadableAll D dp xs ↔ ∀ x ∈ xs, Readable D dp x := by
  induction xs with
  | nil => simp [ReadableAll]
  | cons x xs ih => simp [ReadableAll, ih]

theorem readableMembers_iff : ReadableMembers D dp ms ↔ ∀ m ∈ ms, D.acceptString m.1 = true ∧ Readable D dp m.2 := by
  induction ms with
  | nil => simp [ReadableMembers]
  | cons m ms ih => simp [ReadableMembers, ih, and_assoc]

theorem quote_congr {e e' : Char → Text} (h : ∀ c ∈ s, e c = e' c) : quote e s = quote e' s := by
  unfold quote
  rw [flatMap_congr h]

/-- Two serializers that escape the characters of a value alike render it alike. -/
theorem render_congr {e e' : Char → Text} (h : ∀ s ∈ strings v, ∀ c ∈ s, e c = e' c) : render e v = render e' v := by
  induction v using inductionOn with
  | null | int | foreign => simp [render]
  | bool b => cases b <;> rfl
  | str s => exact quote_congr (h s (by simp [strings]))
  | arr xs ih =>
    have hmap : xs.map (render e) = xs.map (render e') :=
      map_congr_left fun x hx => ih x hx fun s hs => h s (mem_stringsAll.mpr ⟨x, hx, hs⟩)
    rw [render, render, renderAll_eq_map, renderAll_eq_map, hmap]
  | obj ms ih =>
    rw [render, render, renderMembers_eq_map, renderMembers_eq_map]
    congr 3
    refine map_congr_left fun m hm => ?_
    have hkey : quote e m.1 = quote e' m.1 := quote_congr (h m.1 (mem_stringsMembers.mpr ⟨m, hm, .inl rfl⟩))
    rw [hkey, ih m hm fun s hs => h s (mem_stringsMembers.mpr ⟨m, hm, .inr hs⟩)]

variable {c : Char} {e : Char → Text}

theorem mem_commaSep {ps : List Text} : c ∈ commaSep ps → c = ',' ∨ ∃ p ∈ ps, c ∈ p := by
  intro h
  induction ps with
  | nil => simp [commaSep, List.intercalate] at h
  | cons p ps ih =>
    cases ps with
    | nil => exact .inr ⟨p, mem_cons_self, by rwa [commaSep_singleton] at h⟩
    | cons q qs =>
      rw [commaSep_cons_cons, mem_append, mem_cons] at h
      rcases h with h | h | h
      · exact .inr ⟨p, mem_cons_self, h⟩
      · exact .inl h
      rcases ih h with h | ⟨r, hr, h⟩
      · exact .inl h
      · exact .inr ⟨r, mem_cons_of_mem _ hr, h⟩

theorem mem_commaSep_of_mem {p : Text} {ps : List Text} (hp : p ∈ ps) (hc : c ∈ p) : c ∈ commaSep ps := by
  induction ps with
  | nil => cases hp
  | cons q qs ih =>
    cases qs with
    | nil =>
      rw [mem_singleton] at hp
      rwa [commaSep_singleton, ← hp]
    | cons r rs =>
      rw [commaSep_cons_cons, mem_append, mem_cons]
      rcases mem_cons.mp hp with rfl | hp
      · exact .inl hc
      · exact .inr (.inr (ih hp))

theorem mem_quote {c d : Char} (hc : c ∈ s) (hd : d ∈ e c) : d ∈ quote e s := by
  unfold quote
  simp only [cons_append, mem_cons, mem_append, mem_flatMap]
  exact .inr (.inl ⟨c, hc, hd⟩)

theorem mem_render {c d : Char} (hs : s ∈ strings v) (hc : c ∈ s) (hd : d ∈ e c) : d ∈ render e v := by
  induction v using inductionOn with
  | null | bool | int | foreign => simp [strings] at hs
  | str t =>
    obtain rfl : s = t := by simpa [strings] using hs
    exact mem_quote hc hd
  | arr xs ih =>
    obtain ⟨x, hx, hs⟩ := mem_stringsAll.mp hs
    rw [render, renderAll_eq_map]
    exact mem_cons_of_mem _ (mem_append_left _ (mem_commaSep_of_mem (mem_map_of_mem hx) (ih x hx hs)))
  | obj ms ih =>
    obtain ⟨m, hm, hs⟩ := mem_stringsMembers.mp hs
    rw [render, renderMembers_eq_map]
    refine mem_cons_of_mem _ (mem_append_left _ (mem_commaSep_of_mem (mem_map_of_mem hm) ?_))
    rcases hs with rfl | hs
    · exact mem_append_left _ (mem_quote hc hd)
    · exact mem_append_right _ (mem_cons_of_mem _ (ih m hm hs))

theorem decimal_char {n : Int} (h : c ∈ decimal n) : c = '-' ∨ c.isDigit = true := by
  unfold decimal at h
  split_ifs at h
  · exact (mem_cons.mp h).imp id isDigit_toDigits
  · exact .inr (isDigit_toDigits h)

theorem toNat_decimal {n : Int} (h : c ∈ decimal n) : c.toNat < 0x7f := by
  rcases decimal_char h with rfl | hd
  · decide
  · simp only [Char.isDigit, Bool.and_eq_true, decide_eq_true_eq] at hd
    exact lt_of_le_of_lt hd.2 (by decide)

/-- A serializer that writes strings in ASCII writes everything in ASCII. -/
theorem toNat_render (he : ∀ c, ∀ d ∈ e c, d.toNat < 0x7f) (h : c ∈ render e v) : c.toNat < 0x7f := by
  have hquo : ∀ (s : Text) (c : Char), c ∈ quote e s → c.toNat < 0x7f := by
    intro s c hc
    simp only [quote, cons_append, mem_cons, mem_append, mem_flatMap, not_mem_nil, or_false] at hc
    rcases hc with rfl | ⟨d, -, hd⟩ | rfl
    · decide
    · exact he d c hd
    · decide
  -- the text between brackets is made of pieces and commas
  have hlist : ∀ {o q : Char} {ps : List Text}, o.toNat < 0x7f → q.toNat < 0x7f →
      (∀ p ∈ ps, ∀ c ∈ p, c.toNat < 0x7f) → ∀ c ∈ o :: (commaSep ps ++ [q]), c.toNat < 0x7f := by
    intro o q ps ho hq hps c hc
    simp only [mem_cons, mem_append, not_mem_nil, or_false] at hc
    rcases hc with rfl | hc | rfl
    · exact ho
    · rcases mem_commaSep hc with rfl | ⟨p, hp, hc⟩
      · decide
      · exact hps p hp c hc
    · exact hq
  induction v using inductionOn generalizing c with
  | null => exact (by simp : ∀ c ∈ ['n', 'u', 'l', 'l'], c.toNat < 0x7f) c h
  | bool b =>
    cases b with
    | false => exact (by simp : ∀ c ∈ ['f', 'a', 'l', 's', 'e'], c.toNat < 0x7f) c h
    | true => exact (by simp : ∀ c ∈ ['t', 'r', 'u', 'e'], c.toNat < 0x7f) c h
  | int n => exact toNat_decimal h
  | str s => exact hquo s c h
  | arr xs ih =>
    rw [render, renderAll_eq_map] at h
    refine hlist (by decide) (by decide) ?_ c h
    intro p hp d hd
    obtain ⟨x, hx, rfl⟩ := mem_map.mp hp
    exact ih x hx hd
  | obj ms ih =>
    rw [render, renderMembers_eq_map] at h
    refine hlist (by decide) (by decide) ?_ c h
    intro p hp d hd
    obtain ⟨m, hm, rfl⟩ := mem_map.mp hp
    rcases mem_append.mp hd with hd | hd
    · exact hquo m.1 d hd
    rcases mem_cons.mp hd with rfl | hd
    · decide
    · exact ih m hm hd
  | foreign => cases h

/-! ## Arrangements -/

/-- A member order that depends only on the members as a set. -/
structure Arrangement where
  order : Members → Members
  perm : ∀ ms, (order ms).Perm ms
  canonical : ∀ {ms ms' : Members}, ms.Perm ms' → (ms.map Prod.fst).Nodup → order ms = order ms'

theorem Arrangement.keys_perm (A : Arrangement) (ms : Members) :
    ((A.order ms).map Prod.fst).Perm (ms.map Prod.fst) := (A.perm ms).map _

mutual

/-- The value with the members of every object in the given order. -/
def arrange (A : Arrangement) : Json → Json
  | .arr xs => .arr (arrangeAll A xs)
  | .obj ms => .obj (A.order (arrangeMembers A ms))
  | .null => .null
  | .bool b => .bool b
  | .int n => .int n
  | .str s => .str s
  | .foreign => .foreign

def arrangeAll (A : Arrangement) : List Json → List Json
  | [] => []
  | x :: xs => arrange A x :: arrangeAll A xs

def arrangeMembers (A : Arrangement) : Members → Members
  | [] => []
  | (k, v) :: ms => (k, arrange A v) :: arrangeMembers A ms

end

section

variable (A : Arrangement)

theorem arrangeAll_eq_map (xs : List Json) : arrangeAll A xs = xs.map (arrange A) := by
  induction xs with
  | nil => rfl
  | cons x xs ih => rw [arrangeAll, ih, map_cons]

theorem arrangeMembers_eq_map (ms : Members) : arrangeMembers A ms = ms.map fun m => (m.1, arrange A m.2) := by
  induction ms with
  | nil => rfl
  | cons m ms ih => rw [arrangeMembers, ih, map_cons]

@[simp] theorem arrangeMembers_keys (ms : Members) : (arrangeMembers A ms).map Prod.fst = ms.map Prod.fst := by
  rw [arrangeMembers_eq_map, map_map]
  rfl

variable {A}

theorem mem_order_arrangeMembers {p : Text × Json} :
    p ∈ A.order (arrangeMembers A ms) ↔ ∃ m ∈ ms, (m.1, arrange A m.2) = p := by
  rw [(A.perm _).mem_iff, arrangeMembers_eq_map, mem_map]

theorem forall_mem_order {p : Text × Json → Prop} (h : ∀ m ∈ ms, p (m.1, arrange A m.2)) :
    ∀ m ∈ A.order (arrangeMembers A ms), p m := by
  simp only [mem_order_arrangeMembers]
  rintro _ ⟨m, hm, rfl⟩
  exact h m hm

@[simp] theorem mem_strings_arrange : s ∈ strings (arrange A v) ↔ s ∈ strings v := by
  induction v using inductionOn with
  | null | bool | int | str | foreign => simp [arrange]
  | arr xs ih =>
    simp only [arrange, strings, mem_stringsAll, arrangeAll_eq_map, mem_map]
    constructor
    · rintro ⟨-, ⟨x, hx, rfl⟩, hs⟩
      exact ⟨x, hx, (ih x hx).mp hs⟩
    · rintro ⟨x, hx, hs⟩
      exact ⟨_, ⟨x, hx, rfl⟩, (ih x hx).mpr hs⟩
  | obj ms ih =>
    simp only [arrange, strings, mem_stringsMembers, mem_order_arrangeMembers]
    constructor
    · rintro ⟨-, ⟨m, hm, rfl⟩, hs⟩
      exact ⟨m, hm, hs.imp id (ih m hm).mp⟩
    · rintro ⟨m, hm, hs⟩
      exact ⟨_, ⟨m, hm, rfl⟩, hs.imp id (ih m hm).mpr⟩

theorem Readable.arrange (h : Readable D dp v) : Readable D dp (Json.arrange A v) := by
  induction v using inductionOn generalizing dp with
  | null | bool | int | str | foreign => simpa only [Json.arrange] using h
  | arr xs ih =>
    simp only [Json.arrange, Readable, readableAll_iff, arrangeAll_eq_map, mem_map] at h ⊢
    refine ⟨h.1, ?_⟩
    rintro - ⟨x, hx, rfl⟩
    exact ih x hx (h.2 x hx)
  | obj ms ih =>
    simp only [Json.arrange, Readable, readableMembers_iff, mem_order_arrangeMembers] at h ⊢
    refine ⟨h.1, ?_, ?_⟩
    · rw [(A.keys_perm _).nodup_iff, arrangeMembers_keys]
      exact h.2.1
    · rintro - ⟨m, hm, rfl⟩
      exact ⟨(h.2.2 m hm).1, ih m hm (h.2.2 m hm).2⟩

theorem arrange_congr {B : Arrangement} (h : ∀ ms, A.order ms = B.order ms) (v : Json) : arrange A v = arrange B v := by
  induction v using inductionOn with
  | null | bool | int | str | foreign => simp [arrange]
  | arr xs ih =>
    rw [arrange, arrange, arrangeAll_eq_map, arrangeAll_eq_map, map_congr_left ih]
  | obj ms ih =>
    have hval : arrangeMembers A ms = arrangeMembers B ms := by
      rw [arrangeMembers_eq_map, arrangeMembers_eq_map]
      exact map_congr_left fun m hm => Prod.ext rfl (ih m hm)
    rw [arrange, arrange, hval, h]

/-- An arrangement does not see how the members stood before. -/
theorem arrange_arrange {B : Arrangement} (h : ∀ ks ∈ keyLists v, ks.Nodup) :
    arrange A (arrange B v) = arrange A v := by
  induction v using inductionOn with
  | null | bool | int | str | foreign => simp [arrange]
  | arr xs ih =>
    simp only [arrange, arrangeAll_eq_map, map_map, arr.injEq]
    exact map_congr_left fun x hx => ih x hx fun ks hks => h ks (mem_keyListsAll.mpr ⟨x, hx, hks⟩)
  | obj ms ih =>
    have hval : arrangeMembers A (arrangeMembers B ms) = arrangeMembers A ms := by
      rw [arrangeMembers_eq_map, arrangeMembers_eq_map, arrangeMembers_eq_map, map_map]
      refine map_congr_left fun m hm => Prod.ext rfl (ih m hm fun ks hks => ?_)
      exact h ks (mem_cons_of_mem _ (mem_keyListsMembers.mpr ⟨m, hm, hks⟩))
    have hperm : (arrangeMembers A (B.order (arrangeMembers B ms))).Perm (arrangeMembers A ms) := by
      rw [← hval, arrangeMembers_eq_map, arrangeMembers_eq_map A (arrangeMembers B ms)]
      exact (B.perm _).map _
    refine congrArg Json.obj (A.canonical hperm ?_)
    rw [(hperm.map Prod.fst).nodup_iff, arrangeMembers_keys]
    exact h _ mem_cons_self

end

/-- **When two arrangements agree.** If on member lists with usable keys they agree exactly when the keys
    satisfy `P`, then on a value they agree exactly when the keys of every object in it do. -/
theorem arrange_eq_iff {A B : Arrangement} {P : List Text → Prop} (usable : List Text → Prop)
    (hAB : ∀ ms : Members, (ms.map Prod.fst).Nodup → usable (ms.map Prod.fst) →
      (A.order ms = B.order ms ↔ P (ms.map Prod.fst))) (hv : ∀ ks ∈ keyLists v, ks.Nodup ∧ usable ks) :
    arrange A v = arrange B v ↔ ∀ ks ∈ keyLists v, P ks := by
  induction v using inductionOn with
  | null | bool | int | str | foreign => simp [arrange, keyLists]
  | arr xs ih =>
    have ih' := fun x hx => ih x hx fun ks hks => hv ks (mem_keyListsAll.mpr ⟨x, hx, hks⟩)
    simp only [arrange, arrangeAll_eq_map, arr.injEq, map_inj_left, keyLists, mem_keyListsAll]
    constructor
    · rintro h ks ⟨x, hx, hks⟩
      exact (ih' x hx).mp (h x hx) ks hks
    · intro h x hx
      exact (ih' x hx).mpr fun ks hks => h ks ⟨x, hx, hks⟩
  | obj ms ih =>
    have ih' := fun m hm => ih m hm fun ks hks =>
      hv ks (mem_cons_of_mem _ (mem_keyListsMembers.mpr ⟨m, hm, hks⟩))
    obtain ⟨hnodup, husab⟩ := hv _ mem_cons_self
    have hAB' := hAB (arrangeMembers A ms) (by rwa [arrangeMembers_keys]) (by rwa [arrangeMembers_keys])
    rw [arrangeMembers_keys] at hAB'
    -- the values agree one by one, in both directions
    have hval : arrangeMembers A ms = arrangeMembers B ms ↔ ∀ ks ∈ keyListsMembers ms, P ks := by
      simp only [arrangeMembers_eq_map, map_inj_left, Prod.mk.injEq, true_and, mem_keyListsMembers]
      constructor
      · rintro h ks ⟨m, hm, hks⟩
        exact (ih' m hm).mp (h m hm) ks hks
      · intro h m hm
        exact (ih' m hm).mpr fun ks hks => h ks ⟨m, hm, hks⟩
    simp only [arrange, obj.injEq, keyLists, forall_mem_cons, ← hval, ← hAB']
    constructor
    · intro h
      have hsm : arrangeMembers A ms = arrangeMembers B ms := by
        rw [arrangeMembers_eq_map, arrangeMembers_eq_map, map_inj_left]
        intro m hm
        have hmem : (m.1, arrange A m.2) ∈ B.order (arrangeMembers B ms) :=
          h ▸ mem_order_arrangeMembers.mpr ⟨m, hm, rfl⟩
        obtain ⟨m', hm', heq⟩ := mem_order_arrangeMembers.mp hmem
        have hkey : m' = m := inj_on_of_nodup_map hnodup hm' hm (Prod.ext_iff.mp heq).1
        rw [← hkey] at heq ⊢
        exact heq.symm
      exact ⟨hsm ▸ h, hsm⟩
    · rintro ⟨h, hsm⟩
      rw [h, hsm]

/-! ## Sorting by key -/

section

variable {ρ : Type} [LinearOrder ρ] (rank : Text → ρ)

/-- Members in ascending order of their keys' ranks. -/
def sortBy (ms : Members) : Members := ms.insertionSort fun a b => rank a.1 ≤ rank b.1

theorem sortBy_perm (ms : Members) : (sortBy rank ms).Perm ms := perm_insertionSort _ ms

theorem sortBy_pairwise (ms : Members) : (sortBy rank ms).Pairwise fun a b => rank a.1 ≤ rank b.1 :=
  haveI : Std.Total fun a b : Text × Json => rank a.1 ≤ rank b.1 := ⟨fun a b => le_total (rank a.1) (rank b.1)⟩
  haveI : IsTrans (Text × Json) fun a b => rank a.1 ≤ rank b.1 := ⟨fun _ _ _ => le_trans⟩
  pairwise_insertionSort _ ms

variable {rank}

theorem sortBy_strict (hrank : Function.Injective rank) (hms : (ms.map Prod.fst).Nodup) :
    (sortBy rank ms).Pairwise fun a b => rank a.1 < rank b.1 := by
  have hkeys : ((sortBy rank ms).map Prod.fst).Nodup := (((sortBy_perm rank ms).map _).nodup_iff).mpr hms
  rw [List.Nodup, pairwise_map] at hkeys
  refine ((sortBy_pairwise rank ms).and hkeys).imp ?_
  rintro a b ⟨hle, hne⟩
  exact lt_of_le_of_ne hle fun h => hne (hrank h)

theorem sortBy_canonical (hrank : Function.Injective rank) {ms ms' : Members} (h : ms.Perm ms')
    (hms : (ms.map Prod.fst).Nodup) : sortBy rank ms = sortBy rank ms' := by
  have hperm : (sortBy rank ms).Perm (sortBy rank ms') :=
    (sortBy_perm rank ms).trans (h.trans (sortBy_perm rank ms').symm)
  have hms' : (ms'.map Prod.fst).Nodup := ((h.map _).nodup_iff).mp hms
  refine hperm.eq_of_pairwise ?_ (sortBy_strict hrank hms) (sortBy_strict hrank hms')
  intro a b _ _ hab hba
  exact absurd hab (lt_asymm hba)

theorem sortBy_congr {σ : Type} [LinearOrder σ] {rank' : Text → σ}
    (h : ∀ a ∈ ms, ∀ b ∈ ms, rank a.1 ≤ rank b.1 ↔ rank' a.1 ≤ rank' b.1) : sortBy rank ms = sortBy rank' ms := by
  have hmap := map_insertionSort (fun a b : Text × Json => rank a.1 ≤ rank b.1)
    (fun a b => rank' a.1 ≤ rank' b.1) id ms h
  rwa [map_id, map_id] at hmap

/-- **When two orders of the keys sort alike.** -/
theorem sortBy_eq_iff {σ : Type} [LinearOrder σ] {rank' : Text → σ} (hrank : Function.Injective rank)
    (hrank' : Function.Injective rank') (hms : (ms.map Prod.fst).Nodup) : sortBy rank ms = sortBy rank' ms ↔
      ∀ k ∈ ms.map Prod.fst, ∀ k' ∈ ms.map Prod.fst, rank k < rank k' → rank' k < rank' k' := by
  constructor
  · intro h
    -- of two members of the common list the first one has the smaller rank in both orders
    have hfirst : (sortBy rank ms).Pairwise fun a b => rank a.1 < rank b.1 → rank' a.1 < rank' b.1 := by
      rw [h]
      refine (sortBy_strict hrank' hms).imp ?_
      exact fun hlt' _ => hlt'
    have hsecond : (sortBy rank ms).Pairwise fun a b => rank b.1 < rank a.1 → rank' b.1 < rank' a.1 :=
      (sortBy_strict hrank hms).imp fun hlt hgt => absurd hgt (lt_asymm hlt)
    have hboth := Pairwise.forall_of_forall_of_flip (fun _ _ hlt => absurd hlt (lt_irrefl _)) hfirst hsecond
    rintro k hk k' hk' hlt
    obtain ⟨a, ha, rfl⟩ := mem_map.mp hk
    obtain ⟨b, hb, rfl⟩ := mem_map.mp hk'
    exact hboth ((sortBy_perm rank ms).mem_iff.mpr ha) ((sortBy_perm rank ms).mem_iff.mpr hb) hlt
  · intro h
    refine sortBy_congr fun a ha b hb => ?_
    have hkey := fun m (hm : m ∈ ms) => mem_map_of_mem (f := Prod.fst) hm
    rcases lt_trichotomy (rank a.1) (rank b.1) with hlt | heq | hgt
    · exact iff_of_true hlt.le (h _ (hkey a ha) _ (hkey b hb) hlt).le
    · rw [hrank heq]
      exact iff_of_true le_rfl le_rfl
    · exact iff_of_false hgt.not_ge (h _ (hkey b hb) _ (hkey a ha) hgt).not_ge

theorem sortBy_mapValues (f : Json → Json) (ms : Members) :
    sortBy rank (ms.map fun m => (m.1, f m.2)) = (sortBy rank ms).map fun m => (m.1, f m.2) :=
  (map_insertionSort (fun a b : Text × Json => rank a.1 ≤ rank b.1)
    (fun a b : Text × Json => rank a.1 ≤ rank b.1) (fun m => (m.1, f m.2)) ms fun _ _ _ _ => Iff.rfl).symm

theorem sortBy_eq_self (h : ms.Pairwise fun a b => rank a.1 ≤ rank b.1) : sortBy rank ms = ms := h.insertionSort_eq

end

end Json

end Library
