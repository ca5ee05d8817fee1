import Shadow6.Library.Bytes

/-!
# `Library.Json` — integer-only JSON: values, string escapes, a bounded parser

The part of JSON that programs in different languages can agree on: no floating point, object keys that
are text, distinct within an object. The module has the value type, the pieces a serializer is made of
(escapes, decimal integers, comma-separated lists) and a recursive-descent parser. What differs between
hosts (the number rule, which strings are accepted, a depth bound) is a parameter of the parser
(`Dialect`); the grammar is written once.

The parser runs on fuel. Every call consumes a character, so a fuel above the length of the text is never
used up (`parseDocument` starts with that much).
-/

namespace Library

/-- Text as a list of Unicode scalar values. -/
abbrev Text := List Char

/-- Literals stand for their characters. -/
instance : Coe String Text := ⟨String.toList⟩

instance Text.decidableMem (s : Text) (ts : List Text) : Decidable (s ∈ ts) := inferInstance

/-- Integer-only JSON values. `foreign` stands for any host value outside the format (a float, a byte
    string, …) that a program can hold but not serialize. -/
inductive Json where
  | null
  | bool (b : Bool)
  | int (n : Int)
  | str (s : Text)
  | arr (xs : List Json)
  | obj (ms : List (Text × Json))
  | foreign

namespace Json

/-- `text.encode()`: UTF-8. -/
def utf8 (t : Text) : Bytes := t.flatMap String.utf8EncodeChar

/-- Strict UTF-8 decoding. -/
def utf8Decode (bs : Bytes) : Option Text := bs.toByteArray.utf8Decode?.map Array.toList

/-! ## Serializer pieces -/

/-- The two-character escapes of JSON strings. -/
def shortEscape (c : Char) : Option Char :=
  match c.toNat with
  | 0x22 => some '"'
  | 0x5c => some '\\'
  | 0x08 => some 'b'
  | 0x0c => some 'f'
  | 0x0a => some 'n'
  | 0x0d => some 'r'
  | 0x09 => some 't'
  | _ => none

/-- Four lower-case hexadecimal digits. -/
def hex4 (n : Nat) : Text :=
  [n / 4096 % 16, n / 256 % 16, n / 16 % 16, n % 16].map Nat.digitChar

/-- A `\uXXXX` escape of one UTF-16 code unit. -/
def unicodeEscape (n : Nat) : Text := '\\' :: 'u' :: hex4 n

/-- A quoted string, given the host's rendering of a single character. -/
def quote (escape : Char → Text) (s : Text) : Text := '"' :: s.flatMap escape ++ ['"']

/-- An integer in decimal. -/
def decimal (n : Int) : Text :=
  if n < 0 then '-' :: Nat.toDigits 10 n.natAbs else Nat.toDigits 10 n.natAbs

/-- Pieces separated by commas. -/
def commaSep (pieces : List Text) : Text := [','].intercalate pieces

mutual

/-- A value in compact form, members in the order they have; `foreign` has no text. -/
def render (escape : Char → Text) : Json → Text
  | .null => ['n', 'u', 'l', 'l']
  | .bool true => ['t', 'r', 'u', 'e']
  | .bool false => ['f', 'a', 'l', 's', 'e']
  | .int n => decimal n
  | .str s => quote escape s
  | .arr xs => '[' :: (commaSep (renderAll escape xs) ++ [']'])
  | .obj ms => '\x7b' :: (commaSep (renderMembers escape ms) ++ ['\x7d'])
  | .foreign => []

def renderAll (escape : Char → Text) : List Json → List Text
  | [] => []
  | x :: xs => render escape x :: renderAll escape xs

def renderMembers (escape : Char → Text) : List (Text × Json) → List Text
  | [] => []
  | (k, v) :: ms => (quote escape k ++ ':' :: render escape v) :: renderMembers escape ms

end

/-! ## Scanning -/

/-- `[ \t\r\n]*` -/
def isSpace (c : Char) : Bool := c == ' ' || c == '\t' || c == '\r' || c == '\n'

def skipSpace (t : Text) : Text := t.dropWhile isSpace

/-- The text up to the first quote that no backslash escapes, and what follows that quote. -/
def closingQuote : Text → Option (Text × Text)
  | [] => none
  | ['\\'] => none
  | '\\' :: c :: rest => (closingQuote rest).map fun p => ('\\' :: c :: p.1, p.2)
  | c :: rest => if c = '"' then some ([], rest) else (closingQuote rest).map fun p => (c :: p.1, p.2)

/-- Value of a hexadecimal digit, either case. -/
def hexDigit (c : Char) : Option Nat :=
  let n := c.toNat
  if 0x30 ≤ n ∧ n ≤ 0x39 then some (n - 0x30)
  else if 0x61 ≤ n ∧ n ≤ 0x66 then some (n - 0x61 + 10)
  else if 0x41 ≤ n ∧ n ≤ 0x46 then some (n - 0x41 + 10)
  else none

/-- Four hexadecimal digits. -/
def readHex4 : Text → Option (Nat × Text)
  | a :: b :: c :: d :: rest => do
      let a ← hexDigit a
      let b ← hexDigit b
      let c ← hexDigit c
      let d ← hexDigit d
      some (((a * 16 + b) * 16 + c) * 16 + d, rest)
  | _ => none

/-- The character a two-character escape stands for. -/
def unescapeShort (c : Char) : Option Char :=
  match c.toNat with
  | 0x22 => some '"'
  | 0x5c => some '\\'
  | 0x2f => some '/'
  | 0x62 => some (Char.ofNat 0x08)
  | 0x66 => some (Char.ofNat 0x0c)
  | 0x6e => some '\n'
  | 0x72 => some '\r'
  | 0x74 => some '\t'
  | _ => none

/-- The scalar value of one or two `\u` escapes (`t` follows the first `\u`). An unpaired surrogate has
    none: a host that lets it through here refuses the string later, since it has no UTF-8 form. -/
def readUnicode (t : Text) : Option (Char × Text) := do
  let (hi, rest) ← readHex4 t
  if 0xd800 ≤ hi ∧ hi < 0xdc00 then
    match rest with
    | '\\' :: 'u' :: rest => do
        let (lo, rest) ← readHex4 rest
        if 0xdc00 ≤ lo ∧ lo < 0xe000 then
          some (Char.ofNat (0x10000 + (hi - 0xd800) * 0x400 + (lo - 0xdc00)), rest)
        else none
    | _ => none
  else if 0xdc00 ≤ hi ∧ hi < 0xe000 then none
  else some (Char.ofNat hi, rest)

/-- The characters of a string body; control characters must be escaped. -/
def unescape : Nat → Text → Option Text
  | _, [] => some []
  | 0, _ => none
  | fuel + 1, '\\' :: 'u' :: rest => do
      let (c, rest) ← readUnicode rest
      let s ← unescape fuel rest
      some (c :: s)
  | fuel + 1, '\\' :: e :: rest => do
      let c ← unescapeShort e
      let s ← unescape fuel rest
      some (c :: s)
  | _, ['\\'] => none
  | fuel + 1, c :: rest =>
    if c.toNat < 0x20 then none else (unescape fuel rest).map (c :: ·)

/-- A string literal, the opening quote already read. -/
def scanString (t : Text) : Option (Text × Text) := do
  let (body, rest) ← closingQuote t
  let s ← unescape body.length body
  some (s, rest)

/-- `(?:0|[1-9][0-9]*)` -/
def scanNat (t : Text) : Option (Nat × Text) :=
  match t with
  | '0' :: rest => some (0, rest)
  | _ =>
    let digits := t.takeWhile Char.isDigit
    if digits = [] then none else some (Nat.ofDigitChars 10 digits 0, t.dropWhile Char.isDigit)

/-- `-?(?:0|[1-9][0-9]*)` -/
def scanInt (t : Text) : Option (Int × Text) :=
  match t with
  | '-' :: rest => (scanNat rest).map fun p => (-(p.1 : Int), p.2)
  | _ => (scanNat t).map fun p => ((p.1 : Int), p.2)

/-! ## The parser -/

/-- What a host fixes about its parser. -/
structure Dialect where
  /-- the number rule, at the first character that starts no other value -/
  number : Text → Option (Int × Text)
  /-- which strings (keys included) are accepted -/
  acceptString : Text → Bool
  /-- nesting bound checked on entry to a value -/
  maxDepth : Option Nat

/-- Is `depth` beyond the host's bound? -/
def Dialect.tooDeep (D : Dialect) (depth : Nat) : Bool :=
  match D.maxDepth with
  | none => false
  | some m => decide (m < depth)

/-- A string literal the host accepts. -/
def Dialect.string (D : Dialect) (t : Text) : Option (Text × Text) :=
  (scanString t).filter fun p => D.acceptString p.1

mutual

/-- One value, leading white space allowed. -/
def parseValue (D : Dialect) : Nat → Nat → Text → Option (Json × Text)
  | 0, _, _ => none
  | fuel + 1, depth, t =>
    if D.tooDeep depth then none
    else match skipSpace t with
    | '"' :: rest => (D.string rest).map fun p => (.str p.1, p.2)
    | '\x7b' :: rest =>
      match skipSpace rest with
      | '\x7d' :: rest => some (.obj [], rest)
      | rest => parseMembers D fuel depth [] rest
    | '[' :: rest =>
      match skipSpace rest with
      | ']' :: rest => some (.arr [], rest)
      | rest => parseElements D fuel depth [] rest
    | 't' :: 'r' :: 'u' :: 'e' :: rest => some (.bool true, rest)
    | 'f' :: 'a' :: 'l' :: 's' :: 'e' :: rest => some (.bool false, rest)
    | 'n' :: 'u' :: 'l' :: 'l' :: rest => some (.null, rest)
    | rest => (D.number rest).map fun p => (.int p.1, p.2)

/-- The members of an object after its opening brace; `ms` are those already read. A repeated key is
    refused. -/
def parseMembers (D : Dialect) : Nat → Nat → List (Text × Json) → Text → Option (Json × Text)
  | 0, _, _, _ => none
  | fuel + 1, depth, ms, '"' :: rest =>
    match D.string rest with
    | none => none
    | some (key, rest) =>
      match skipSpace rest with
      | ':' :: rest =>
        if key ∈ ms.map Prod.fst then none
        else match parseValue D fuel (depth + 1) rest with
        | none => none
        | some (v, rest) =>
          match skipSpace rest with
          | '\x7d' :: rest => some (.obj (ms ++ [(key, v)]), rest)
          | ',' :: rest => parseMembers D fuel depth (ms ++ [(key, v)]) (skipSpace rest)
          | _ => none
      | _ => none
  | _, _, _, _ => none

/-- The elements of an array after its opening bracket. -/
def parseElements (D : Dialect) : Nat → Nat → List Json → Text → Option (Json × Text)
  | 0, _, _, _ => none
  | fuel + 1, depth, xs, t =>
    match parseValue D fuel (depth + 1) t with
    | none => none
    | some (v, rest) =>
      match skipSpace rest with
      | ']' :: rest => some (.arr (xs ++ [v]), rest)
      | ',' :: rest => parseElements D fuel depth (xs ++ [v]) (skipSpace rest)
      | _ => none

end

/-- A whole document: one value, then nothing but white space. -/
def parseDocument (D : Dialect) (t : Text) : Option Json :=
  match parseValue D (t.length + 1) 0 t with
  | some (v, rest) => if skipSpace rest = [] then some v else none
  | none => none

end Json

end Library
