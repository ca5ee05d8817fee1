import Shadow6.Portable.Python

/-!
# `Portable.Node` — canonical extension values, Node.js side

`strictJSON`, `portable`, `canonical` and the check of an extension payload in
`Network-Adapter/shadow6_network.mjs`, with the parts of the language they rest on: `Array.prototype.sort` on
strings, the order in which an object lists its own properties, and `JSON.stringify`. Unicode normalization
(`value.normalize('NFC')`) is a parameter.

A JavaScript object is modelled by the list of its members. Where the source enumerates an object that was
just parsed (`portable`), the members stand in the order of the text; only the choice among several reasons
to refuse a value depends on that.
-/

namespace Shadow6

open Library List

/-- The `code` the adapter puts on some of its errors. -/
inductive JsCode where
  | closed
  | backpressure
  | retryExhausted
deriving DecidableEq, Repr

/-- A thrown `Error`: its `code`, if it has one, and its message. -/
structure JsError where
  code : Option JsCode
  text : String
deriving DecidableEq, Repr

/-- `Error(text)`. -/
def JsError.plain (text : String) : JsError := ⟨none, text⟩

namespace Portable.Node

open Json

/-! ## Strings and property order -/

/-- The UTF-16 code units of a character. -/
def codeUnits (c : Char) : List Nat :=
  if c.toNat < 0x10000 then [c.toNat]
  else [0xd800 + (c.toNat - 0x10000) / 0x400, 0xdc00 + (c.toNat - 0x10000) % 0x400]

/-- The code units of a string, by which `sort` orders strings and `length` measures them. -/
def utf16 (s : Text) : List Nat := s.flatMap codeUnits

theorem codeUnits_ne_nil (c : Char) : codeUnits c ≠ [] := by
  unfold codeUnits
  split_ifs <;> simp

theorem codeUnits_append_inj {c d : Char} {s t : List Nat} (h : codeUnits c ++ s = codeUnits d ++ t) :
    c = d ∧ s = t := by
  have hc := toNat_scalar c
  have hd := toNat_scalar d
  unfold codeUnits at h
  rw [← Char.toNat_inj]
  -- a basic character is no surrogate, so its unit differs from the first unit of a pair
  split_ifs at h with h₁ h₂ h₂ <;>
    simp only [cons_append, nil_append, List.cons.injEq] at h
  · exact h
  · omega
  · omega
  · exact ⟨by omega, h.2.2⟩

theorem utf16_injective : Function.Injective utf16 := by
  intro s
  induction s with
  | nil =>
    intro t h
    cases t with
    | nil => rfl
    | cons d t => exact absurd (append_eq_nil_iff.mp h.symm).1 (codeUnits_ne_nil d)
  | cons c s ih =>
    intro t h
    cases t with
    | nil => exact absurd (append_eq_nil_iff.mp h).1 (codeUnits_ne_nil c)
    | cons d t =>
      obtain ⟨rfl, hrest⟩ := codeUnits_append_inj (show codeUnits c ++ utf16 s = codeUnits d ++ utf16 t from h)
      rw [ih hrest]

/-- An array index: a canonical decimal below `2^32 - 1`. -/
def arrayIndex (key : Text) : Option Nat :=
  match scanNat key with
  | some (n, []) => if n < 2 ^ 32 - 1 then some n else none
  | _ => none

/-- The order in which an object created with these members lists them: array indices ascending, then the
    other keys as they were created. -/
def ownOrder (ms : Members) : Members :=
  sortBy (fun k => (arrayIndex k).getD 0) (ms.filter fun m => (arrayIndex m.1).isSome)
    ++ ms.filter fun m => !(arrayIndex m.1).isSome

theorem ownOrder_perm (ms : Members) : (ownOrder ms).Perm ms :=
  ((sortBy_perm _ _).append_right _).trans (filter_append_perm _ ms)

/-- `sort`: members as `Object.fromEntries(Object.keys(x).sort().map(…))` lists them. -/
def sort : Arrangement where
  order := fun ms => ownOrder (sortBy utf16 ms)
  perm := fun ms => (ownOrder_perm _).trans (sortBy_perm utf16 ms)
  canonical := fun h hms => congrArg ownOrder (sortBy_canonical utf16_injective h hms)

/-! ## `portable` and `canonical` -/

/-- One character under `JSON.stringify`: only quotes, backslashes and control characters are escaped. -/
def escape (c : Char) : Text :=
  match shortEscape c with
  | some e => ['\\', e]
  | none => if c.toNat < 0x20 then unicodeEscape c.toNat else [c]

theorem escape_escapes : Escapes escape where
  closing := by
    intro c r
    unfold escape
    split
    · exact closingQuote_escape _ r
    rename_i hsh
    split_ifs
    · exact closingQuote_unicodeEscape _ r
    · exact closingQuote_char (shortEscape_none hsh).1 (shortEscape_none hsh).2 r
  unescape := by
    intro c fuel r
    unfold escape
    split
    · rename_i hsh
      exact unescape_short fuel hsh r
    rename_i hsh
    split_ifs with hctl
    · exact unescape_unicode fuel (readUnicode_basic (lt_trans hctl (by decide)) r)
    · exact unescape_char (shortEscape_none hsh).2 (not_lt.mp hctl) fuel r

/-- The string case of `portable`, for values and for keys. -/
def portableString (depth : Nat) (s : Text) : Except JsError Unit :=
  if 8 < depth then .error (.plain "extension nesting exceeds 8")
  else if 1024 < (utf8 s).length then .error (.plain "extension string is oversized")
  else .ok ()

mutual

/-- `portable(value, depth)`. -/
def portable (depth : Nat) : Json → Except JsError Unit
  | .null | .bool _ =>
    if 8 < depth then .error (.plain "extension nesting exceeds 8") else .ok ()
  | .str s => portableString depth s
  | .int n =>
    if 8 < depth then .error (.plain "extension nesting exceeds 8")
    else if n.natAbs ≤ 2 ^ 53 - 1 then .ok ()
    else .error (.plain "extension integer is not portable")
  | .arr xs =>
    if 8 < depth then .error (.plain "extension nesting exceeds 8")
    else if 64 < xs.length then .error (.plain "extension array is oversized")
    else portableAll (depth + 1) xs
  | .obj ms =>
    if 8 < depth then .error (.plain "extension nesting exceeds 8")
    else if 64 < ms.length then .error (.plain "extension object is oversized")
    else portableMembers (depth + 1) ms
  | .foreign =>
    if 8 < depth then .error (.plain "extension nesting exceeds 8")
    else .error (.plain "extension contains a nonportable value")

def portableAll (depth : Nat) : List Json → Except JsError Unit
  | [] => .ok ()
  | x :: xs =>
    match portable depth x with
    | .error e => .error e
    | .ok () => portableAll depth xs

def portableMembers (depth : Nat) : Members → Except JsError Unit
  | [] => .ok ()
  | (k, v) :: ms =>
    match portableString depth k with
    | .error e => .error e
    | .ok () =>
      match portable depth v with
      | .error e => .error e
      | .ok () => portableMembers depth ms

end

/-- `canonical(value)`: the canonical bytes of an extension value. -/
def canonical (value : Json) : Except JsError Bytes :=
  match portable 0 value with
  | .error e => .error e
  | .ok () =>
    let out := utf8 (render escape (arrange sort value))
    if 4096 < out.length then .error (.plain "extension payload exceeds 4 KiB") else .ok out

/-! ## `strictJSON` -/

variable (nfc : Text → Text)

/-- The string check of `strictJSON`. -/
def acceptString (s : Text) : Bool :=
  decide ((utf8 s).length ≤ 65536) && decide (Char.ofNat 0 ∉ s) && decide (nfc s = s)

/-- The grammar `strictJSON` implements by hand. -/
def dialect : Dialect where
  number := fun t => (scanInt t).filter fun p => decide (p.1.natAbs ≤ 2 ^ 53 - 1)
  acceptString := acceptString nfc
  maxDepth := some 16

/-- `strictJSON(input, maximum)`. -/
def strictJSON (maximum : Nat) (input : Bytes) : Except JsError Json :=
  if maximum < input.length then .error (.plain "JSON input size limit")
  else match utf8Decode input with
  | none => .error (.plain "The encoded data was not valid for encoding utf-8")
  | some text =>
    match parseDocument (dialect nfc) text with
    | none => .error (.plain "invalid JSON")
    | some value => .ok value

/-! ## The payload of a received extension -/

/-- `Object.keys(value).sort().join(',')` for an object. -/
def joinedKeys (ms : Members) : Text := commaSep ((sortBy utf16 ms).map Prod.fst)

/-- The extension in a payload, if it is canonical and enabled. A missing property reads as `undefined`,
    which is in no allowlist. -/
def readExtension (extensions : List Text) (payload : Bytes) : Except JsError (Text × Json) :=
  match strictJSON nfc 65536 payload with
  | .error e => .error e
  | .ok value =>
    match portable 0 value with
    | .error e => .error e
    | .ok () =>
      match canonical value with
      | .error e => .error e
      | .ok bytes =>
        if bytes ≠ payload then .error (.plain "received extension is not enabled")
        else match value with
        | .null => .error (.plain "Cannot convert undefined or null to object")
        | .obj ms =>
          if joinedKeys ms ≠ nameField ++ ',' :: valueField then
            .error (.plain "received extension is not enabled")
          else match ms.lookup nameField with
          | some (.str name) =>
            if name ∈ extensions then .ok (name, (ms.lookup valueField).getD .foreign)
            else .error (.plain "received extension is not enabled")
          | _ => .error (.plain "received extension is not enabled")
        | _ => .error (.plain "received extension is not enabled")

end Portable.Node

end Shadow6
