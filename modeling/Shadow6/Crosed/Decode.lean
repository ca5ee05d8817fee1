import Shadow6.Library.Hex
import Shadow6.Library.Signature
import Shadow6.Crosed.Canonical

/-!
# `Crosed.Decode` — Core-Go reads a Crosed request

`validateStrictJSON` of `Core-Go/strict_json.go`, `decodeStrict` of `Core-Go/config.go` at the two types it is used
with here (`CrosedRequest` and `CrosedTrust`), and `crosedSignedPayload` of `Core-Go/crosed.go`.

`encoding/json` is the parser of `Library.Json`. That parser has no value for a repeated key or an unpaired surrogate,
which the source refuses in the walk over the tokens and in the scan before it. A `json.RawMessage` is the value its
text stands for, and `nil` where the field is absent.
-/

namespace Shadow6.Crosed

open Library Json Portable

namespace Go

/-! ## `validateStrictJSON` -/

/-- What the walk looks at in a `reflect.Type`. -/
inductive GoType where
  | struct (fields : List (Text × GoType))
  | map (elem : GoType)
  | slice (elem : GoType)
  | other

/-- The grammar of `encoding/json` with integers only: any other number is refused as nonportable. -/
def dialect : Dialect where
  number := fun t => (scanInt t).filter fun p => !Python.floatTail p.2
  acceptString := fun _ => true
  maxDepth := none

/-- The bounds on a string, a value or a key. -/
def strictString (nfc : Text → Text) (s : Text) : Bool :=
  decide ((utf8 s).length ≤ 65536) && decide (Char.ofNat 0 ∉ s) && decide (nfc s = s)

/-- The type of a member: the struct's field, the map's element, or none. -/
def memberType (target : Option GoType) (key : Text) : Except String (Option GoType) :=
  match target with
  | some (.struct fields) =>
    match fields.lookup key with
    | some child => .ok (some child)
    | none => .error "unknown JSON field"
  | some (.map elem) => .ok (some elem)
  | _ => .ok none

/-- The type of an element. -/
def elementType : Option GoType → Option GoType
  | some (.slice elem) => some elem
  | _ => none

mutual

/-- `strictJSONValue(decoder, target, depth)`. -/
def strictJSONValue (nfc : Text → Text) (target : Option GoType) (depth : Nat) (value : Json) : Except String Unit :=
  if 16 < depth then .error "JSON nesting exceeds 16 levels"
  else match value with
  | .null | .bool _ => .ok ()
  | .str s => if strictString nfc s then .ok () else .error "invalid bounded NFC string"
  | .int n =>
    if n < -9007199254740991 ∨ 9007199254740991 < n then .error "nonportable JSON number" else .ok ()
  | .arr xs => strictItems nfc (elementType target) (depth + 1) xs
  | .obj ms => strictMembers nfc target (depth + 1) ms
  | .foreign => .error "nonportable JSON number"

def strictItems (nfc : Text → Text) (child : Option GoType) (depth : Nat) : List Json → Except String Unit
  | [] => .ok ()
  | x :: xs =>
    match strictJSONValue nfc child depth x with
    | .error e => .error e
    | .ok () => strictItems nfc child depth xs

def strictMembers (nfc : Text → Text) (target : Option GoType) (depth : Nat) : Members → Except String Unit
  | [] => .ok ()
  | (k, v) :: ms =>
    if strictString nfc k then
      match memberType target k with
      | .error e => .error e
      | .ok child =>
        match strictJSONValue nfc child depth v with
        | .error e => .error e
        | .ok () => strictMembers nfc target depth ms
    else .error "duplicate or invalid JSON field"

end

/-- The walk over the tokens of a text, with the value it has walked over. -/
def validateText (nfc : Text → Text) (target : Option GoType) (text : Text) : Except String Json :=
  match parseDocument dialect text with
  | none => .error "invalid JSON"
  | some value =>
    match strictJSONValue nfc target 0 value with
    | .error e => .error e
    | .ok () => .ok value

/-- `validateStrictJSON(data, target)`. -/
def validateStrictJSON (nfc : Text → Text) (target : Option GoType) (data : Bytes) : Except String Json :=
  if 1048576 < data.length then .error "oversized or non-UTF-8 JSON"
  else match utf8Decode data with
  | none => .error "oversized or non-UTF-8 JSON"
  | some text => validateText nfc target text

theorem validateStrictJSON_utf8 {nfc : Text → Text} {t : Option GoType} {text : Text}
    (h : (utf8 text).length ≤ 1048576) : validateStrictJSON nfc t (utf8 text) = validateText nfc t text := by
  rw [validateStrictJSON, if_neg (not_lt.mpr h), utf8Decode_utf8]

/-! ## The two documents -/

/-- `CrosedRequest`. -/
structure CrosedRequest where
  version : Int := 0
  modId : Text := []
  nonce : Text := []
  issuedAt : Int := 0
  requestedLevel : Int := 0
  capabilities : List Text := []
  sourceDomain : Text := []
  targetDomain : Text := []
  payload : Option Json := none
  signature : Text := []

/-- `CrosedTrustEntry`. -/
structure CrosedTrustEntry where
  pubKey : Text := []
  maxLevel : Int := 0
  capabilities : List Text := []
  allowedDomains : List Text := []

/-- `CrosedTrust`: the map `Mods`. -/
structure CrosedTrust where
  mods : List (Text × CrosedTrustEntry) := []

/-- `reflect.TypeOf(CrosedRequest{})`; `json.RawMessage` is a slice of bytes. -/
def requestType : GoType := .struct [("version", .other), ("mod_id", .other), ("nonce", .other), ("issued_at", .other),
  ("requested_level", .other), ("capabilities", .slice .other), ("source_domain", .other), ("target_domain", .other),
  ("payload", .slice .other), ("signature", .other)]

/-- `reflect.TypeOf(CrosedTrust{})`. -/
def trustType : GoType := .struct [("mods", .map (.struct [("pubkey", .other), ("max_level", .other),
  ("capabilities", .slice .other), ("allowed_domains", .slice .other)]))]

/-- The error of a member of the wrong type. -/
def unmarshalError : String := "json: cannot unmarshal"

/-- An integer field; `null` leaves it as it is. -/
def intField (ms : Members) (name : Text) : Except String Int :=
  match ms.lookup name with
  | none | some .null => .ok 0
  | some (.int n) => .ok n
  | some _ => .error unmarshalError

/-- A string, or `null` for the empty one. -/
def asString : Json → Except String Text
  | .null => .ok []
  | .str s => .ok s
  | _ => .error unmarshalError

def stringField (ms : Members) (name : Text) : Except String Text :=
  match ms.lookup name with
  | none => .ok []
  | some v => asString v

def stringsField (ms : Members) (name : Text) : Except String (List Text) :=
  match ms.lookup name with
  | none | some .null => .ok []
  | some (.arr xs) => xs.mapM asString
  | some _ => .error unmarshalError

/-- `decoder.Decode(&request)`. -/
def decodeRequest : Json → Except String CrosedRequest
  | .null => .ok {}
  | .obj ms => do
      let version ← intField ms "version"
      let modId ← stringField ms "mod_id"
      let nonce ← stringField ms "nonce"
      let issuedAt ← intField ms "issued_at"
      let requestedLevel ← intField ms "requested_level"
      let capabilities ← stringsField ms "capabilities"
      let sourceDomain ← stringField ms "source_domain"
      let targetDomain ← stringField ms "target_domain"
      let signature ← stringField ms "signature"
      .ok { version, modId, nonce, issuedAt, requestedLevel, capabilities, sourceDomain, targetDomain, signature
            payload := ms.lookup "payload".toList }
  | _ => .error unmarshalError

def decodeEntry : Json → Except String CrosedTrustEntry
  | .null => .ok {}
  | .obj ms => do
      let pubKey ← stringField ms "pubkey"
      let maxLevel ← intField ms "max_level"
      let capabilities ← stringsField ms "capabilities"
      let allowedDomains ← stringsField ms "allowed_domains"
      .ok { pubKey, maxLevel, capabilities, allowedDomains }
  | _ => .error unmarshalError

/-- `decoder.Decode(&trust)`. -/
def decodeTrust : Json → Except String CrosedTrust
  | .null => .ok {}
  | .obj ms =>
    match ms.lookup "mods".toList with
    | none | some .null => .ok {}
    | some (.obj mods) => do
        let entries ← mods.mapM fun m => (decodeEntry m.2).map fun entry => (m.1, entry)
        .ok { mods := entries }
    | some _ => .error unmarshalError
  | _ => .error unmarshalError

/-- `decodeStrict(data, &destination)`. -/
def decodeStrict {α : Type} (nfc : Text → Text) (target : GoType) (decode : Json → Except String α) (data : Bytes) :
    Except String α :=
  match validateStrictJSON nfc (some target) data with
  | .error e => .error e
  | .ok value => decode value

/-! ## What is signed -/

/-- The lines that are signed, in the tool and in the Core. -/
def signedLines (version : Int) (modId nonce : Text) (issuedAt requestedLevel : Int) (capabilities : List Text)
    (digest : Bytes) (sourceDomain targetDomain : Text) : Bytes :=
  utf8 (['\n'].intercalate [decimal version, modId, nonce, decimal issuedAt, decimal requestedLevel,
    commaSep capabilities, hexText digest, sourceDomain, targetDomain])

/-- `values[j-1] > values[j]`. -/
def stringAfter (s t : Text) : Bool := decide (byteCodes t < byteCodes s)

/-- `crosedSignedPayload(request)`; `none` for `nil`. -/
def crosedSignedPayload (nfc : Text → Text) (sha256 : Bytes → Bytes) (request : CrosedRequest) : Option Bytes :=
  match request.payload with
  | none => none
  | some payload =>
    match strictJSONValue nfc none 0 payload with
    | .error _ => none
    | .ok () =>
      match writePortableJSON nfc [] payload 0 with
      | .error _ => none
      | .ok canonical =>
        some (signedLines request.version request.modId request.nonce request.issuedAt request.requestedLevel
          (sortDown stringAfter request.capabilities) (sha256 canonical) request.sourceDomain request.targetDomain)

end Go

end Shadow6.Crosed
