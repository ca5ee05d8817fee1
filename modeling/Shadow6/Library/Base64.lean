import Shadow6.Library.Json

/-!
# `Library.Base64` — base64 text

The encoding of RFC 4648 with either of its alphabets. `decode` is the strict decoder of the scripting languages:
whole groups of four, padding only in the last one, nothing after it. The bits of the last group that carry no data
are not looked at, so several texts can stand for the same bytes.
-/

namespace Library.Base64

/-- The two characters in which the alphabets differ. -/
structure Alphabet where
  char62 : Char
  char63 : Char

def standard : Alphabet := ⟨'+', '/'⟩

def urlSafe : Alphabet := ⟨'-', '_'⟩

variable (A : Alphabet)

/-- The six bits a character stands for. -/
def value (c : Char) : Option Nat :=
  if c.isUpper then some (c.toNat - 65)
  else if c.isLower then some (c.toNat - 71)
  else if c.isDigit then some (c.toNat + 4)
  else if c = A.char62 then some 62
  else if c = A.char63 then some 63
  else none

/-- The character for six bits. -/
def digit (n : Nat) : Char :=
  if n < 26 then Char.ofNat (n + 65)
  else if n < 52 then Char.ofNat (n + 71)
  else if n < 62 then Char.ofNat (n - 4)
  else if n = 62 then A.char62
  else A.char63

/-- The bytes of a last group: two or three characters before the padding. -/
def decodeLast : Text → Option Bytes
  | [a, b, '=', '='] => do
      let a ← value A a
      let b ← value A b
      some [UInt8.ofNat (a * 4 + b / 16)]
  | [a, b, c, '='] => do
      let a ← value A a
      let b ← value A b
      let c ← value A c
      some [UInt8.ofNat (a * 4 + b / 16), UInt8.ofNat (b % 16 * 16 + c / 4)]
  | [a, b, c, d] => do
      let a ← value A a
      let b ← value A b
      let c ← value A c
      let d ← value A d
      some [UInt8.ofNat (a * 4 + b / 16), UInt8.ofNat (b % 16 * 16 + c / 4), UInt8.ofNat (c % 4 * 64 + d)]
  | _ => none

/-- The bytes a text stands for. -/
def decode : Text → Option Bytes
  | [] => some []
  | a :: b :: c :: d :: e :: rest => do
      let group ← decodeLast A [a, b, c, d]
      -- a group with padding is the last one
      if group.length = 3 then (decode (e :: rest)).map (group ++ ·) else none
  | last => decodeLast A last

/-- The text of some bytes, with padding. -/
def encode : Bytes → Text
  | [] => []
  | [a] => [digit A (a.toNat / 4), digit A (a.toNat % 4 * 16), '=', '=']
  | [a, b] =>
    [digit A (a.toNat / 4), digit A (a.toNat % 4 * 16 + b.toNat / 16), digit A (b.toNat % 16 * 4), '=']
  | a :: b :: c :: rest =>
    digit A (a.toNat / 4) :: digit A (a.toNat % 4 * 16 + b.toNat / 16) ::
      digit A (b.toNat % 16 * 4 + c.toNat / 64) :: digit A (c.toNat % 64) :: encode rest

example : decode standard ['T', 'W', 'E', '='] = some [77, 97] := by decide

end Library.Base64
