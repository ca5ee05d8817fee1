import Shadow6.Library.JsonArrange

/-!
# `Portable.Python` — canonical extension values, Python side

`strict_json` of `Deployment/service_storage.py`, `_portable` of `Network-Adapter/shadow6_network.py` and the
check its `receive` makes of an extension payload, with the parts of Python's `json` module they rest on: `json.dumps` with sorted keys, compact separators
and `ensure_ascii`, and `json.loads` with the hooks that refuse floats and repeated keys. Unicode
normalization (`unicodedata.normalize('NFC', ·)`) is a parameter.
-/

namespace Shadow6

open Library

/-- The exception classes the modelled Python code raises. -/
inductive PyErrorKind where
  | valueError
  | jsonDecodeError
  | permissionError
  | typeError
  | overflowError
  | keyError
  | indexError
  | adapterBackpressure
  | adapterClosed
  | adapterRetryLimit
deriving DecidableEq, Repr

/-- A raised exception: its class and its text. -/
structure PyError where
  kind : PyErrorKind
  text : String
deriving DecidableEq, Repr

/-- `raise ValueError(text)`. -/
def PyError.value (text : String) : PyError := ⟨.valueError, text⟩

namespace Portable

/-- `"name"`. -/
def nameField : Text := ['n', 'a', 'm', 'e']

/-- `"value"`. -/
def valueField : Text := ['v', 'a', 'l', 'u', 'e']

/-- `{"name": name, "value": value}`. -/
def extensionValue (name : Text) (value : Json) : Json := .obj [(nameField, .str name), (valueField, value)]

namespace Python

open Json

/-! ## `json.dumps(value, sort_keys=True, separators=(",", ":"), ensure_ascii=True)` -/

/-- One character under `ensure_ascii`: printable ASCII stands for itself, the rest is escaped, above the
    basic plane as a surrogate pair. -/
def escapeAscii (c : Char) : Text :=
  match shortEscape c with
  | some e => ['\\', e]
  | none =>
    let n := c.toNat
    if 0x20 ≤ n ∧ n ≤ 0x7e then [c]
    else if n < 0x10000 then unicodeEscape n
    else unicodeEscape (0xd800 + (n - 0x10000) / 0x400) ++ unicodeEscape (0xdc00 + (n - 0x10000) % 0x400)

theorem escapeAscii_escapes : Escapes escapeAscii where
  closing := by
    intro c r
    unfold escapeAscii
    split
    · exact closingQuote_escape _ r
    rename_i hsh
    dsimp only
    split_ifs
    · exact closingQuote_char (shortEscape_none hsh).1 (shortEscape_none hsh).2 r
    · exact closingQuote_unicodeEscape _ r
    · rw [List.append_assoc, closingQuote_unicodeEscape, closingQuote_unicodeEscape]
      cases closingQuote r <;> simp
  unescape := by
    intro c fuel r
    unfold escapeAscii
    split
    · rename_i hsh
      exact unescape_short fuel hsh r
    rename_i hsh
    dsimp only
    split_ifs with hprint hbasic
    · exact unescape_char (shortEscape_none hsh).2 hprint.1 fuel r
    · exact unescape_unicode fuel (readUnicode_basic hbasic r)
    · exact unescape_unicode fuel (readUnicode_pair (not_lt.mp hbasic) r)

/-- The code points of a string, by which Python orders strings. -/
def codePoints (s : Text) : List Nat := s.map Char.toNat

theorem codePoints_injective : Function.Injective codePoints :=
  List.map_injective_iff.mpr fun _ _ h => Char.toNat_inj.mp h

/-- `sort_keys=True`. -/
def sortKeys : Arrangement where
  order := sortBy codePoints
  perm := sortBy_perm codePoints
  canonical := sortBy_canonical codePoints_injective

/-- `json.dumps`; a value outside the format is refused before (`validate`) and renders as nothing. -/
def dumps (value : Json) : Text := render escapeAscii (arrange sortKeys value)

/-! ## `_portable` -/

/-- The bounds shared by strings and keys. -/
def validateString (depth : Nat) (s : Text) : Except PyError Unit :=
  if 8 < depth then .error (.value "extension nesting exceeds 8")
  else if 1024 < (utf8 s).length then .error (.value "extension string is oversized")
  else .ok ()

mutual

/-- `_portable.validate(item, depth)`. -/
def validate (depth : Nat) : Json → Except PyError Unit
  | .null | .bool _ =>
    if 8 < depth then .error (.value "extension nesting exceeds 8") else .ok ()
  | .str s => validateString depth s
  | .int n =>
    if 8 < depth then .error (.value "extension nesting exceeds 8")
    else if -(2 ^ 53 - 1) ≤ n ∧ n ≤ 2 ^ 53 - 1 then .ok ()
    else .error (.value "extension integer is not portable")
  | .arr xs =>
    if 8 < depth then .error (.value "extension nesting exceeds 8")
    else if 64 < xs.length then .error (.value "extension array is oversized")
    else validateAll (depth + 1) xs
  | .obj ms =>
    if 8 < depth then .error (.value "extension nesting exceeds 8")
    else if 64 < ms.length then .error (.value "extension object is invalid")
    else validateMembers (depth + 1) ms
  | .foreign =>
    if 8 < depth then .error (.value "extension nesting exceeds 8")
    else .error (.value "extension contains a nonportable value")

def validateAll (depth : Nat) : List Json → Except PyError Unit
  | [] => .ok ()
  | x :: xs =>
    match validate depth x with
    | .error e => .error e
    | .ok () => validateAll depth xs

def validateMembers (depth : Nat) : List (Text × Json) → Except PyError Unit
  | [] => .ok ()
  | (k, v) :: ms =>
    match validateString depth k with
    | .error e => .error e
    | .ok () =>
      match validate depth v with
      | .error e => .error e
      | .ok () => validateMembers depth ms

end

/-- `_portable(value)`: the canonical bytes of an extension value. -/
def portable (value : Json) : Except PyError Bytes :=
  match validate 0 value with
  | .error e => .error e
  | .ok () =>
    let raw := utf8 (dumps value)
    if 4096 < raw.length then .error (.value "extension payload exceeds 4 KiB") else .ok raw

variable {e : PyError}

theorem validateString_error {dp : Nat} {s : Text} (h : validateString dp s = .error e) : e.kind = .valueError := by
  unfold validateString at h
  split_ifs at h <;> cases h <;> rfl

mutual

theorem validate_error {dp : Nat} : (v : Json) → validate dp v = .error e → e.kind = .valueError
  | .null, h | .bool _, h | .int _, h | .foreign, h => by
    unfold validate at h
    split_ifs at h <;> cases h <;> rfl
  | .str s, h => validateString_error (by rwa [validate] at h)
  | .arr xs, h => by
    unfold validate at h
    split_ifs at h
    · cases h; rfl
    · cases h; rfl
    · exact validateAll_error xs h
  | .obj ms, h => by
    unfold validate at h
    split_ifs at h
    · cases h; rfl
    · cases h; rfl
    · exact validateMembers_error ms h

theorem validateAll_error {dp : Nat} : (xs : List Json) → validateAll dp xs = .error e → e.kind = .valueError
  | [], h => by cases h
  | x :: xs, h => by
    unfold validateAll at h
    split at h
    · rename_i hx
      cases h
      exact validate_error x hx
    · exact validateAll_error xs h

theorem validateMembers_error {dp : Nat} :
    (ms : List (Text × Json)) → validateMembers dp ms = .error e → e.kind = .valueError
  | [], h => by cases h
  | (k, v) :: ms, h => by
    unfold validateMembers at h
    split at h
    · rename_i hk
      cases h
      exact validateString_error hk
    split at h
    · rename_i hv
      cases h
      exact validate_error v hv
    · exact validateMembers_error ms h

end

theorem portable_error {v : Json} (h : portable v = .error e) : e.kind = .valueError := by
  unfold portable at h
  split at h
  · rename_i hv
    cases h
    exact validate_error v hv
  dsimp only at h
  split_ifs at h
  cases h
  rfl

/-! ## `strict_json` -/

/-- The container-depth scan that runs before `json.loads`: brackets outside string literals. -/
def depthWithin : Text → Int → Bool → Bool → Bool
  | [], _, _, _ => true
  | c :: cs, depth, quoted, escaped =>
    if quoted then
      if escaped then depthWithin cs depth true false
      else if c = '\\' then depthWithin cs depth true true
      else depthWithin cs depth (c ≠ '"') false
    else if c = '"' then depthWithin cs depth true escaped
    else if c = '[' ∨ c = '\x7b' then
      if 17 < depth + 1 then false else depthWithin cs (depth + 1) false escaped
    else if c = ']' ∨ c = '\x7d' then depthWithin cs (depth - 1) false escaped
    else depthWithin cs depth false escaped

/-- A fraction or an exponent after the integer part makes the number a float. -/
def floatTail : Text → Bool
  | '.' :: c :: _ => c.isDigit
  | e :: c :: d :: _ => (e = 'e' || e = 'E') && (c.isDigit || ((c = '+' || c = '-') && d.isDigit))
  | [e, c] => (e = 'e' || e = 'E') && c.isDigit
  | _ => false

/-- `json.loads` with the `pairs` and `reject` hooks. Floats and the constants `NaN`, `Infinity` and
    `-Infinity` are refused, and so is a repeated key. -/
def dialect : Dialect where
  number := fun t => (scanInt t).filter fun p => !floatTail p.2
  acceptString := fun _ => true
  maxDepth := none

/-- Is a string within the limits of `bounded`? -/
def stringBounded (nfc : Text → Text) (stringLimit : Nat) (s : Text) : Bool :=
  decide ((utf8 s).length ≤ stringLimit) && decide (Char.ofNat 0 ∉ s) && decide (nfc s = s)

/-- The bounds on a string (value or key) at `depth`. -/
def boundedString (nfc : Text → Text) (stringLimit depth : Nat) (s : Text) : Except PyError Unit :=
  if 16 < depth then .error (.value "JSON nesting limit")
  else if stringBounded nfc stringLimit s then .ok ()
  else .error (.value "JSON string limit")

mutual

/-- `bounded(v, depth)`. -/
def bounded (nfc : Text → Text) (stringLimit depth : Nat) : Json → Except PyError Unit
  | .str s => boundedString nfc stringLimit depth s
  | .int n =>
    if 16 < depth then .error (.value "JSON nesting limit")
    else if -(2 ^ 53 - 1) ≤ n ∧ n ≤ 2 ^ 53 - 1 then .ok ()
    else .error (.value "JSON integer limit")
  | .arr xs =>
    if 16 < depth then .error (.value "JSON nesting limit")
    else boundedAll nfc stringLimit (depth + 1) xs
  | .obj ms =>
    if 16 < depth then .error (.value "JSON nesting limit")
    else boundedMembers nfc stringLimit (depth + 1) ms
  | .null | .bool _ | .foreign =>
    if 16 < depth then .error (.value "JSON nesting limit") else .ok ()

def boundedAll (nfc : Text → Text) (stringLimit depth : Nat) : List Json → Except PyError Unit
  | [] => .ok ()
  | x :: xs =>
    match bounded nfc stringLimit depth x with
    | .error e => .error e
    | .ok () => boundedAll nfc stringLimit depth xs

def boundedMembers (nfc : Text → Text) (stringLimit depth : Nat) : List (Text × Json) → Except PyError Unit
  | [] => .ok ()
  | (k, v) :: ms =>
    match boundedString nfc stringLimit depth k with
    | .error e => .error e
    | .ok () =>
      match bounded nfc stringLimit depth v with
      | .error e => .error e
      | .ok () => boundedMembers nfc stringLimit depth ms

end

variable {nfc : Text → Text} {l : Nat}

theorem boundedString_error {dp : Nat} {s : Text} (h : boundedString nfc l dp s = .error e) : e.kind = .valueError := by
  unfold boundedString at h
  split_ifs at h <;> cases h <;> rfl

mutual

theorem bounded_error {dp : Nat} : (v : Json) → bounded nfc l dp v = .error e → e.kind = .valueError
  | .null, h | .bool _, h | .int _, h | .foreign, h => by
    unfold bounded at h
    split_ifs at h <;> cases h <;> rfl
  | .str s, h => boundedString_error (by rwa [bounded] at h)
  | .arr xs, h => by
    unfold bounded at h
    split_ifs at h
    · cases h; rfl
    · exact boundedAll_error xs h
  | .obj ms, h => by
    unfold bounded at h
    split_ifs at h
    · cases h; rfl
    · exact boundedMembers_error ms h

theorem boundedAll_error {dp : Nat} : (xs : List Json) → boundedAll nfc l dp xs = .error e → e.kind = .valueError
  | [], h => by cases h
  | x :: xs, h => by
    unfold boundedAll at h
    split at h
    · rename_i hx
      cases h
      exact bounded_error x hx
    · exact boundedAll_error xs h

theorem boundedMembers_error {dp : Nat} : (ms : List (Text × Json)) → boundedMembers nfc l dp ms = .error e → e.kind = .valueError
  | [], h => by cases h
  | (k, v) :: ms, h => by
    unfold boundedMembers at h
    split at h
    · rename_i hk
      cases h
      exact boundedString_error hk
    split at h
    · rename_i hv
      cases h
      exact bounded_error v hv
    · exact boundedMembers_error ms h

end

/-- `strict_json(data, limit=limit, string_limit=stringLimit)` on a byte string. -/
def strictJson (nfc : Text → Text) (limit stringLimit : Nat) (data : Bytes) : Except PyError Json :=
  if limit < 1 then .error (.value "invalid JSON input limit")
  else if ¬ (1 ≤ stringLimit ∧ stringLimit ≤ 16 * 1024 * 1024) then
    .error (.value "invalid JSON string limit")
  else if limit < data.length then .error (.value "JSON input size limit")
  else match utf8Decode data with
  | none => .error (.value "JSON must be UTF-8")
  | some text =>
    if ! depthWithin text 0 false false then .error (.value "JSON nesting limit")
    else match parseDocument dialect text with
    | none => .error ⟨.jsonDecodeError, "json.loads"⟩
    | some value =>
      match bounded nfc stringLimit 0 value with
      | .error e => .error e
      | .ok () => .ok value

/-- Every refusal of `strict_json` is a `ValueError` or its subclass `JSONDecodeError`. -/
theorem strictJson_error {lim sl : Nat} {dt : Bytes} (h : strictJson nfc lim sl dt = .error e) :
    e.kind = .valueError ∨ e.kind = .jsonDecodeError := by
  unfold strictJson at h
  split at h
  · cases h; exact .inl rfl
  split at h
  · cases h; exact .inl rfl
  split at h
  · cases h; exact .inl rfl
  split at h
  · cases h; exact .inl rfl
  split at h
  · cases h; exact .inl rfl
  split at h
  · cases h; exact .inr rfl
  split at h
  · rename_i hv
    cases h
    exact .inl (bounded_error _ hv)
  · cases h

/-! ## The payload of a received extension -/

/-- `set(value) == {"name", "value"}` and both lookups, for a value that is a dictionary. -/
def extensionMembers : Json → Option (Json × Json)
  | .obj ms =>
    match ms.lookup nameField, ms.lookup valueField with
    | some name, some value => if ms.length = 2 then some (name, value) else none
    | _, _ => none
  | _ => none

/-- The extension in a payload, if it is canonical and enabled. A list or a dictionary is not hashable, so
    asking whether it is in the allowlist raises. -/
def readExtension (nfc : Text → Text) (extensions : List Text) (payload : Bytes) : Except PyError (Text × Json) :=
  match strictJson nfc 65536 65536 payload with
  | .error e => .error e
  | .ok value =>
    match portable value with
    | .error e => .error e
    | .ok canonical =>
      if canonical ≠ payload then .error ⟨.permissionError, "received extension is not enabled"⟩
      else match extensionMembers value with
      | some (.str name, v) =>
        if name ∈ extensions then .ok (name, v)
        else .error ⟨.permissionError, "received extension is not enabled"⟩
      | some (.arr _, _) => .error ⟨.typeError, "unhashable type: 'list'"⟩
      | some (.obj _, _) => .error ⟨.typeError, "unhashable type: 'dict'"⟩
      | _ => .error ⟨.permissionError, "received extension is not enabled"⟩

/-- The classes a refused extension is reported with. -/
theorem readExtension_error {xs : List Text} {p : Bytes}
    (h : readExtension nfc xs p = .error e) :
    e.kind ∈ [.valueError, .jsonDecodeError, .permissionError, .typeError] := by
  unfold readExtension at h
  split at h
  · rename_i hjson
    cases h
    rcases strictJson_error hjson with hk | hk <;> simp [hk]
  split at h
  · rename_i hport
    cases h
    simp [portable_error hport]
  split at h
  · cases h
    simp
  split at h
  · split at h
    · cases h
    · cases h
      simp
  all_goals
    cases h
    simp

end Python

end Portable

end Shadow6
