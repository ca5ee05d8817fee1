import Shadow6.Portable.Documents

/-!
# `Portable.Operators` — `==` and `in` on documents

Python's operators on the values that `strict_json` returns. `==` does not look at the order of keys, and a bool is the
number 0 or 1. What `x in v` means depends on the type of `v`: part of a string, element of a list, key of a
dictionary; for the other types it raises `TypeError`.
-/

namespace Shadow6.Portable.Python

open Library Json

/-- `v == text`. -/
def isText (text : Text) : Json → Bool
  | .str s => decide (s = text)
  | _ => false

/-- The number that a value is for `==` and `<`. -/
def number? : Json → Option Int
  | .int n => some n
  | .bool b => some (if b then 1 else 0)
  | _ => none

mutual

/-- `v == w`. -/
def equal : Json → Json → Bool
  | .null, .null => true
  | .str s, .str s' => decide (s = s')
  | .arr xs, .arr xs' => equalAll xs xs'
  | .obj ms, .obj ms' => decide (ms.length = ms'.length) && equalMembers ms ms'
  | .int n, w => decide (number? w = some n)
  | .bool b, w => decide (number? w = some (if b then 1 else 0))
  | _, _ => false

def equalAll : List Json → List Json → Bool
  | [], [] => true
  | x :: xs, x' :: xs' => equal x x' && equalAll xs xs'
  | _, _ => false

/-- Every member is a member of the other dictionary. -/
def equalMembers : Members → Members → Bool
  | [], _ => true
  | (k, v) :: ms, ms' =>
    (match ms'.lookup k with
      | none => false
      | some v' => equal v v') && equalMembers ms ms'

end

/-- `entry in v` for a string `entry`. -/
def contains (entry : Text) : Json → Except PyError Bool
  | .str s => .ok (decide (entry <:+: s))
  | .arr xs => .ok (xs.any (isText entry))
  | .obj ms => .ok (decide (entry ∈ ms.map Prod.fst))
  | .null | .bool _ | .int _ | .foreign => .error ⟨.typeError, "argument is not iterable"⟩

/-- A value of a type that `in` knows. -/
def Container : Json → Prop
  | .str _ | .arr _ | .obj _ => True
  | .null | .bool _ | .int _ | .foreign => False

/-- What `in` looks for: part of a string, an element of a list, a key of a dictionary. -/
def Names (entry : Text) : Json → Prop
  | .str s => entry <:+: s
  | .arr xs => .str entry ∈ xs
  | .obj ms => entry ∈ ms.map Prod.fst
  | .null | .bool _ | .int _ | .foreign => False

theorem isText_iff {text : Text} {v : Json} : isText text v = true ↔ v = .str text := by
  cases v with
  | str s | null | bool | int | arr | obj | foreign => simp [isText]

theorem Names.container {en : Text} {v : Json} (h : Names en v) : Container v := by
  cases v with
  | str | arr | obj => trivial
  | null | bool | int | foreign => exact h.elim

/-- **What `in` returns.** -/
theorem contains_cases (entry : Text) (v : Json) : (Names entry v ∧ contains entry v = .ok true) ∨
    (Container v ∧ ¬ Names entry v ∧ contains entry v = .ok false) ∨
    (¬ Container v ∧ contains entry v = .error ⟨.typeError, "argument is not iterable"⟩) := by
  cases v with
  | str s => by_cases h : entry <:+: s <;> simp [contains, Names, Container, h]
  | arr xs =>
    by_cases h : Json.str entry ∈ xs
    · simp [contains, Names, isText_iff, h]
    · have hother : ∀ x ∈ xs, ¬ x = .str entry := fun x hx heq => h (heq ▸ hx)
      simpa [contains, Names, Container, isText_iff, h] using hother
  | obj ms =>
    by_cases h : entry ∈ ms.map Prod.fst
    · exact .inl ⟨h, by rw [contains, decide_eq_true h]⟩
    · exact .inr (.inl ⟨trivial, h, by rw [contains, decide_eq_false h]⟩)
  | null | bool | int | foreign => exact .inr (.inr ⟨id, rfl⟩)

end Shadow6.Portable.Python
