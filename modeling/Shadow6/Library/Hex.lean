import Shadow6.Library.JsonRoundTrip

/-!
# `Library.Hex` — hexadecimal numbers and lines of text

`toHex w n` writes the `w` low-order hexadecimal digits of `n` in lower case; `ofHex` reads digits of either case, and
gives the number back when it fits (`ofHex_toHex_of_lt`). A written number consists of lower-case digits, so that it
contains no blank and no line break. A file of lines, each with a break at its end, is split into the lines again.
`hexText` writes a byte string as text, two digits a byte, and `readHexText` reads it back.
-/

namespace Library

open List

/-! ## Digits -/

/-- The digit with a value below sixteen. -/
def hexChar (d : Nat) : UInt8 := UInt8.ofNat (if d < 10 then 48 + d else 87 + d)

/-- The value of a digit, either case. -/
def hexValue (b : UInt8) : Option Nat :=
  if 48 ≤ b ∧ b ≤ 57 then some (b.toNat - 48)
  else if 97 ≤ b ∧ b ≤ 102 then some (b.toNat - 87)
  else if 65 ≤ b ∧ b ≤ 70 then some (b.toNat - 55)
  else none

/-- A lower-case digit. -/
def isHexDigit (b : UInt8) : Bool := (48 ≤ b && b ≤ 57) || (97 ≤ b && b ≤ 102)

theorem hexValue_hexChar {d : Nat} (h : d < 16) : hexValue (hexChar d) = some d := by
  interval_cases d <;> rfl

theorem isHexDigit_hexChar {d : Nat} (h : d < 16) : isHexDigit (hexChar d) = true := by
  interval_cases d <;> rfl

theorem isHexDigit_ne {b : UInt8} (h : isHexDigit b = true) : b ≠ 10 ∧ b ≠ 32 ∧ b ≠ 95 := by
  refine ⟨?_, ?_, ?_⟩ <;>
  · rintro rfl
    cases h

/-! ## Numbers -/

/-- The `w` low-order digits of `n`. -/
def toHex : Nat → Nat → Bytes
  | 0, _ => []
  | w + 1, n => hexChar (n / 16 ^ w % 16) :: toHex w n

/-- Read digits after those with the value `acc`. -/
def ofHex (acc : Nat) : Bytes → Option Nat
  | [] => some acc
  | b :: bs => (hexValue b).bind fun d => ofHex (acc * 16 + d) bs

@[simp] theorem length_toHex (w n : Nat) : (toHex w n).length = w := by
  induction w with
  | zero => rfl
  | succ w ih => simp [toHex, ih]

theorem isHexDigit_toHex (w n : Nat) : ∀ b ∈ toHex w n, isHexDigit b = true := by
  induction w with
  | zero => exact fun b hb => absurd hb not_mem_nil
  | succ w ih => exact forall_mem_cons.mpr ⟨isHexDigit_hexChar (Nat.mod_lt _ (by decide)), ih⟩

theorem ofHex_toHex (w n acc : Nat) : ofHex acc (toHex w n) = some (acc * 16 ^ w + n % 16 ^ w) := by
  induction w generalizing acc with
  | zero => simp [toHex, ofHex, Nat.mod_one]
  | succ w ih =>
    rw [toHex, ofHex, hexValue_hexChar (Nat.mod_lt _ (by decide)), Option.bind_some, ih, Nat.mod_pow_succ]
    congr 1
    ring

theorem ofHex_toHex_of_lt {w n : Nat} (h : n < 16 ^ w) : ofHex 0 (toHex w n) = some n := by
  rw [ofHex_toHex, Nat.mod_eq_of_lt h, zero_mul, zero_add]

theorem toHex_inj {w m n : Nat} (hm : m < 16 ^ w) (hn : n < 16 ^ w) (h : toHex w m = toHex w n) : m = n := by
  have hrd := congrArg (ofHex 0) h
  rw [ofHex_toHex_of_lt hm, ofHex_toHex_of_lt hn] at hrd
  exact Option.some.inj hrd

/-! ## Byte strings as text -/

/-- Two lower-case digits for each byte. -/
def hexText (bs : Bytes) : Text :=
  bs.flatMap fun b => [Nat.digitChar (b.toNat / 16), Nat.digitChar (b.toNat % 16)]

/-- Read pairs of digits of either case. -/
def readHexText : Text → Option Bytes
  | [] => some []
  | [_] => none
  | a :: b :: rest => do
      let hi ← Json.hexDigit a
      let lo ← Json.hexDigit b
      let bs ← readHexText rest
      some (UInt8.ofNat (hi * 16 + lo) :: bs)

/-! ## Lines -/

/-- Lines with a break at the end of each are split into the lines and what follows the last break. -/
theorem splitOn_lines {sep : UInt8} (ls : List Bytes) (h : ∀ l ∈ ls, sep ∉ l) :
    (ls.flatMap (· ++ [sep])).splitOn sep = ls ++ [[]] := by
  induction ls with
  | nil => rfl
  | cons l ls ih =>
    rw [forall_mem_cons] at h
    rw [flatMap_cons, append_assoc, singleton_append, splitOn_append_cons_self_of_not_mem h.1, ih h.2, cons_append]

theorem splitOn_fields {sep : UInt8} {front rest : Bytes} (hfront : sep ∉ front) (hrest : sep ∉ rest) :
    (front ++ sep :: rest).splitOn sep = [front, rest] := by
  rw [splitOn_append_cons_self_of_not_mem hfront, splitOn_eq_singleton hrest]

/-- A word that begins with the separator is not found in a text without it. -/
theorem infix_skip {sep : UInt8} {word front rest : Bytes} (h : sep ∉ front) :
    sep :: word <:+: front ++ rest ↔ sep :: word <:+: rest := by
  induction front with
  | nil => rfl
  | cons b front ih =>
    rw [mem_cons, not_or] at h
    rw [cons_append, infix_cons_iff, cons_prefix_cons, ih h.2]
    simp [h.1]

theorem prefix_field {sep : UInt8} {field front rest : Bytes} (hfield : sep ∉ field) (h : sep ∉ front) :
    field ++ [sep] <+: front ++ sep :: rest ↔ field = front := by
  induction field generalizing front with
  | nil => cases front <;> simp_all
  | cons b field ih =>
    rw [mem_cons, not_or] at hfield
    cases front with
    | nil => simp [Ne.symm hfield.1]
    | cons c front =>
      rw [mem_cons, not_or] at h
      rw [cons_append, cons_append, cons_prefix_cons, ih hfield.2 h.2, cons.injEq]

/-- **The fields of a line** are the words without a separator that a search finds between two separators. -/
theorem mem_splitOn_iff {sep : UInt8} {field : Bytes} (line : Bytes) :
    field ∈ line.splitOn sep ↔ sep ∉ field ∧ sep :: (field ++ [sep]) <:+: sep :: (line ++ [sep]) := by
  induction hlen : line.length using Nat.strong_induction_on generalizing line with
  | _ n ih =>
  subst hlen
  -- the pattern starts at the first separator, or after the first field
  have hstep : ∀ front rest : Bytes, sep ∉ front →
      (sep ∉ field ∧ sep :: (field ++ [sep]) <:+: sep :: (front ++ sep :: rest) ↔
        field = front ∨ sep ∉ field ∧ sep :: (field ++ [sep]) <:+: sep :: rest) := by
    intro front rest hfront
    by_cases hfield : sep ∈ field
    · have hne : field ≠ front := fun heq => hfront (heq ▸ hfield)
      simp [hfield, hne]
    rw [infix_cons_iff, cons_prefix_cons, prefix_field hfield hfront, infix_skip hfront]
    simp [hfield]
  by_cases hsep : sep ∈ line
  · obtain ⟨front, rest, rfl, hfront⟩ := eq_append_cons_of_mem hsep
    rw [splitOn_append_cons_self_of_not_mem hfront, append_assoc, cons_append, hstep _ _ hfront, mem_cons,
      ih _ (by simp; omega) _ rfl]
  · have hshort : ¬ sep :: (field ++ [sep]) <:+: [sep] := fun h => by simpa using h.length_le
    rw [splitOn_eq_singleton hsep, hstep line [] hsep, mem_singleton, or_iff_left fun h => hshort h.2]

end Library
