import Shadow6.Library.JsonProper
import Shadow6.Portable.Admission

/-!
# `Portable.Documents` — documents of the Python tools

The Python tools sign and hash a document as the bytes of `json.dumps` with sorted keys (`Python.canonical`). What
`strict_json` reads is `Proper`, and of proper documents the bytes determine everything but the order of the keys: two
documents with the same bytes have the same scalar under each key.
-/

namespace Shadow6.Portable.Python

open Library Json List

/-- `json.dumps(value, sort_keys=True, separators=(",", ":"), ensure_ascii=True, allow_nan=False).encode()`. -/
def canonical (value : Json) : Bytes := utf8 (dumps value)

/-- `d[name] == text` for a key of the dictionary. -/
def hasText (ms : Members) (name text : Text) : Bool :=
  match ms.lookup name with
  | some (.str s) => decide (s = text)
  | _ => false

/-- `set(d) == set(names)`. -/
def sameKeys (ms : Members) (names : List Text) : Bool :=
  (ms.map Prod.fst).all names.contains && names.all (ms.map Prod.fst).contains

/-- `{k: v for k, v in d.items() if k != name}`. -/
def without (ms : Members) (name : Text) : Members := ms.filter fun m => decide (m.1 ≠ name)

variable {ms : Members}

theorem lookup_without {nm k : Text} (hk : k ≠ nm) : (without ms nm).lookup k = ms.lookup k := by
  induction ms with
  | nil => rfl
  | cons m ms ih =>
    by_cases hm : m.1 = nm
    · have hne : (k == m.1) = false := by rw [hm]; exact beq_eq_false_iff_ne.mpr hk
      rw [without, filter_cons_of_neg (by simpa using hm), lookup_cons, hne]
      exact ih
    rw [without, filter_cons_of_pos (by simpa using hm), lookup_cons, lookup_cons]
    cases k == m.1 with
    | true => rfl
    | false => exact ih

theorem without_proper (h : Proper (.obj ms)) (nm : Text) : Proper (.obj (without ms nm)) := by
  cases h with
  | obj hnd hms =>
    refine .obj ((filter_sublist.map Prod.fst).nodup hnd) ?_
    intro m hm
    exact hms m (mem_of_mem_filter hm)

variable {v : Json}

theorem strictJson_proper {nfc : Text → Text} {l sl : Nat} {dt : Bytes}
    (h : strictJson nfc l sl dt = .ok v) : Proper v := by
  unfold strictJson at h
  split_ifs at h
  split at h
  · cases h
  split_ifs at h
  split at h
  · cases h
  rename_i hprs
  split at h
  · cases h
  · cases h
    exact parseDocument_proper hprs

theorem Proper.readable_dialect (h : Proper v) : Readable dialect 0 v := by
  refine h.readable (fun _ => rfl) (fun n rest hrs => ?_) fun _ => rfl
  simp [dialect, scanInt_decimal n hrs.not_digit, floatTail_stops hrs]

/-- The bytes determine a document up to the order of its keys. -/
theorem canonical_arrange {v w : Json} (hv : Proper v) (hw : Proper w) (h : canonical v = canonical w) :
    arrange sortKeys v = arrange sortKeys w :=
  render_injective escapeAscii_escapes (Proper.readable_dialect hv).arrange (Proper.readable_dialect hw).arrange
    (utf8_injective h)

/-- A value without members. -/
def Scalar : Json → Prop
  | .arr _ | .obj _ => False
  | .null | .bool _ | .int _ | .str _ | .foreign => True

theorem Scalar.arrange_eq {A : Arrangement} (h : Scalar v) : arrange A v = v := by
  cases v with
  | arr | obj => exact h.elim
  | null | bool | int | str | foreign => rfl

theorem Scalar.of_arrange_eq {A : Arrangement} {v w : Json} (h : Scalar v) (heq : arrange A w = v) : w = v := by
  cases w with
  | arr | obj => subst heq; exact h.elim
  | null | bool | int | str | foreign => exact heq

theorem Proper.nodup (h : Proper (.obj ms)) : (ms.map Prod.fst).Nodup := by
  cases h with
  | obj hnd _ => exact hnd

/-- **The bytes determine the scalar members.** -/
theorem canonical_lookup {ms ms' : Members} (hms : Proper (.obj ms)) (hms' : Proper (.obj ms'))
    (h : canonical (.obj ms) = canonical (.obj ms')) {k : Text} (hv : Scalar v) (hk : ms.lookup k = some v) :
    ms'.lookup k = some v := by
  have harr := canonical_arrange hms hms' h
  rw [arrange, arrange, Json.obj.injEq] at harr
  have hmem : (k, v) ∈ sortKeys.order (arrangeMembers sortKeys ms') := by
    rw [← harr]
    refine mem_order_arrangeMembers.mpr ⟨(k, v), mem_of_lookup hk, ?_⟩
    rw [hv.arrange_eq]
  obtain ⟨⟨k', v'⟩, hm, heq⟩ := mem_order_arrangeMembers.mp hmem
  obtain ⟨rfl, hv'⟩ := Prod.mk.inj heq
  rw [← hv.of_arrange_eq hv']
  exact lookup_eq_of_mem (Proper.nodup hms') hm

/-- What was written is read back, if its keys are in order. -/
theorem strictJson_canonical {nfc : Text → Text} {l sl : Nat} (hv : Proper (.obj ms))
    (hmemb : arrangeMembers sortKeys ms = ms) (hsort : (ms.map fun m => codePoints m.1).Pairwise (· ≤ ·))
    (hstg : 1 ≤ sl ∧ sl ≤ 16 * 1024 * 1024)
    (hsz : 1 ≤ (canonical (.obj ms)).length ∧ (canonical (.obj ms)).length ≤ l)
    (hdep : depthWithin (dumps (.obj ms)) 0 false false = true)
    (hbdd : bounded nfc sl 0 (.obj ms) = .ok ()) :
    strictJson nfc l sl (canonical (.obj ms)) = .ok (.obj ms) := by
  have harr : arrange sortKeys (.obj ms) = .obj ms := by
    rw [arrange, hmemb]
    exact congrArg Json.obj (List.Pairwise.insertionSort_eq (pairwise_map.mp hsort))
  have hprs : parseDocument dialect (dumps (.obj ms)) = some (arrange sortKeys (.obj ms)) :=
    parseDocument_render escapeAscii_escapes (Proper.readable_dialect hv).arrange
  rw [harr] at hprs
  rw [strictJson, if_neg (by omega), if_neg (by simpa using hstg), if_neg (by omega), canonical, utf8Decode_utf8]
  simp [hdep, hprs, hbdd]

end Shadow6.Portable.Python
