import Shadow6.Library.Aead
import Shadow6.Library.Fallible
import Shadow6.Library.Hex
import Shadow6.Portable.Node

/-!
# `NodeIpc.Wire` — requests of the local component transports

`canonical`, `parseCanonical`, `authenticate`, `verifyRpc` up to the reservation of the nonce, and `decodeRaw`, of
`Node-IPC/shadow6_ipc.mjs`. A FastRPC request is a canonical JSON text with a MAC, a RawIPC request a binary frame
sealed with AES-256-GCM. Both carry a nonce and the instant at which they were issued, and are refused outside a
window of 60 seconds around it.

HMAC-SHA-256, the cipher and Unicode normalization are parameters. Clock readings are arguments: `authenticate` reads
the clock twice, once for each end of the window, `decodeRaw` once.
-/

namespace Shadow6.NodeIpc

open Library Json Portable

/-- The third-party functions. -/
structure Crypto where
  hmac : (key message : Bytes) → Bytes
  gcm : Aead
  nfc : Text → Text

/-- `fail(message)`. -/
def typeError (message : String) : JsError := .plain message

/-! ## Canonical JSON -/

/-- The bounds on a string, value or key, and the count of nodes behind it. -/
def walkString (nfc : Text → Text) (depth nodes : Nat) (s : Text) : Except JsError Nat :=
  if 16 < depth ∨ 32768 < nodes + 1 then .error (typeError "IPC JSON complexity limit exceeded")
  else if 262144 < (Node.utf16 s).length ∨ nfc s ≠ s ∨ s.contains (Char.ofNat 0) then .error (typeError "invalid IPC string")
  else .ok (nodes + 1)

mutual

/-- `walk(v, depth)`, with the count of the nodes visited before and after. Members are visited in the order of the
    text and not of the keys; only the choice among several reasons to refuse depends on that. -/
def walk (nfc : Text → Text) (depth nodes : Nat) : Json → Except JsError Nat
  | .null | .bool _ =>
    if 16 < depth ∨ 32768 < nodes + 1 then .error (typeError "IPC JSON complexity limit exceeded") else .ok (nodes + 1)
  | .int n =>
    if 16 < depth ∨ 32768 < nodes + 1 then .error (typeError "IPC JSON complexity limit exceeded")
    else if n.natAbs ≤ 2 ^ 53 - 1 then .ok (nodes + 1)
    else .error (typeError "IPC JSON requires safe integers")
  | .str s => walkString nfc depth nodes s
  | .arr xs =>
    if 16 < depth ∨ 32768 < nodes + 1 then .error (typeError "IPC JSON complexity limit exceeded")
    else if 4096 < xs.length then .error (typeError "IPC array limit exceeded")
    else walkAll nfc (depth + 1) (nodes + 1) xs
  | .obj ms =>
    if 16 < depth ∨ 32768 < nodes + 1 then .error (typeError "IPC JSON complexity limit exceeded")
    else if 1024 < ms.length then .error (typeError "IPC object limit exceeded")
    else walkMembers nfc (depth + 1) (nodes + 1) ms
  | .foreign =>
    if 16 < depth ∨ 32768 < nodes + 1 then .error (typeError "IPC JSON complexity limit exceeded")
    else .error (typeError "nonportable IPC JSON value")

def walkAll (nfc : Text → Text) (depth nodes : Nat) : List Json → Except JsError Nat
  | [] => .ok nodes
  | x :: xs =>
    match walk nfc depth nodes x with
    | .error e => .error e
    | .ok nodes => walkAll nfc depth nodes xs

def walkMembers (nfc : Text → Text) (depth nodes : Nat) : Members → Except JsError Nat
  | [] => .ok nodes
  | (k, v) :: ms =>
    match walkString nfc depth nodes k with
    | .error e => .error e
    | .ok nodes =>
      match walk nfc depth nodes v with
      | .error e => .error e
      | .ok nodes => walkMembers nfc depth nodes ms

end

/-- `canonical(value)`: `JSON.stringify` of the sorted value, everything from `DEL` on escaped. -/
def canonical (nfc : Text → Text) (value : Json) : Except JsError Bytes :=
  match walk nfc 0 0 value with
  | .error e => .error e
  | .ok _ => .ok (utf8 (render Python.escapeAscii (arrange Node.sort value)))

/-- The texts `JSON.parse` reads, without those that no canonical text can be: fractions, exponents, repeated keys
    and lone surrogates. `parseCanonical` refuses them all by its comparison. -/
def dialect : Dialect where
  number := fun t => (scanInt t).filter fun p => !Python.floatTail p.2
  acceptString := fun _ => true
  maxDepth := none

/-- `parseCanonical(bytes)`. -/
def parseCanonical (nfc : Text → Text) (bytes : Bytes) : Except JsError Json :=
  if bytes.length < 2 ∨ 1048576 < bytes.length then .error (typeError "invalid IPC JSON size")
  else match utf8Decode bytes with
  | none => .error (typeError "The encoded data was not valid for encoding utf-8")
  | some text =>
    match parseDocument dialect text with
    | none => .error (.plain "JSON.parse")
    | some value =>
      match canonical nfc value with
      | .error e => .error e
      | .ok expected =>
        if bytes ≠ expected then .error (typeError "noncanonical IPC JSON (duplicates or ambiguous values)") else .ok value

/-! ## FastRPC -/

/-- `id(v)`. -/
def isId : Option Json → Bool
  | some (.str s) =>
    decide (1 ≤ s.length ∧ s.length ≤ 128) &&
      s.all fun c => c.isUpper || c.isLower || c.isDigit || c == '.' || c == '_' || c == ':' || c == '-'
  | _ => false

/-- `v === text`. -/
def isText (text : Text) : Option Json → Bool
  | some (.str s) => decide (s = text)
  | _ => false

/-- `integer(v, lo, hi)`, and the number. -/
def isInteger (lo hi : Int) : Option Json → Option Int
  | some (.int n) => if n.natAbs ≤ 2 ^ 53 - 1 ∧ lo ≤ n ∧ n ≤ hi then some n else none
  | _ => none

mutual

/-- `String(v)`. -/
def toText : Json → Text
  | .null => "null"
  | .bool true => "true"
  | .bool false => "false"
  | .int n => decimal n
  | .str s => s
  | .arr xs => commaSep (elementTexts xs)
  | .obj _ => "[object Object]"
  | .foreign => []

/-- The elements as `Array.prototype.join` writes them: `null` is empty. -/
def elementTexts : List Json → List Text
  | [] => []
  | .null :: xs => [] :: elementTexts xs
  | x :: xs => toText x :: elementTexts xs

end

/-- `/^[0-9a-f]{n}$/.test(v ?? '')`: a pattern is tested on the text of whatever it is given. -/
def hexPattern (n : Nat) (v : Option Json) : Bool :=
  let text := match v with
    | none | some .null => []
    | some v => toText v
  decide (text.length = n) && text.all fun c => c.isDigit || (decide ('a' ≤ c) && decide (c ≤ 'f'))

variable (C : Crypto)

/-- `derived(key, name)`. -/
def derived (key : Bytes) (name : String) : Bytes :=
  C.hmac key (utf8 ("shadow6-ipc-v1:" ++ name).toList)

/-- `signRpc(message, key, direction)`. -/
def signRpc (message : Members) (key : Bytes) (direction : String) : Except JsError Text :=
  match canonical C.nfc (.obj (message.filter fun m => m.1 ≠ "mac")) with
  | .error e => .error e
  | .ok bytes => .ok (hexText (C.hmac (derived C key ("fastrpc:" ++ direction)) bytes))

/-- What the replay cache is asked about: the nonce as it stands in the request, and the instant of issue. -/
structure Request where
  nonce : Json
  issuedAt : Int

/-- `authenticate(message, key, direction)`; `lower` and `upper` are the two readings of the clock. A MAC that is not
    a string passes its pattern if it is an array, and then `timingSafeEqual` throws. -/
def authenticate (lower upper : Int) (message : Members) (key : Bytes) (direction : String) : Except JsError Request :=
  match message.lookup "nonce".toList, isInteger (lower - 60) (upper + 60) (message.lookup "issued_at".toList) with
  | some nonce, some issuedAt => do
      refuseIf (!isText "2.0".toList (message.lookup "jsonrpc".toList) || !isId (message.lookup "id".toList) ||
        !hexPattern 32 (some nonce) || !hexPattern 64 (message.lookup "mac".toList))
        (typeError "invalid IPC authentication")
      let expected ← signRpc C message key direction
      match message.lookup "mac".toList with
      | some (.str mac) =>
        if mac = expected then return ⟨nonce, issuedAt⟩ else throw (typeError "IPC authentication failed")
      | _ => throw (.plain "Input buffers must have the same byte length")
  | _, _ => .error (typeError "invalid IPC authentication")

/-- `exact(message, [...])` for a FastRPC request. -/
def requestKeys : Text := "id,issued_at,jsonrpc,mac,method,nonce,params"

def isObject : Option Json → Bool
  | some (.obj _) => true
  | _ => false

/-- A FastRPC body up to the reservation of its nonce: `parseCanonical` and `verifyRpc`. -/
def fastRpcCheck (key : Bytes) (lower upper : Int) (body : Bytes) : Except JsError Request :=
  match parseCanonical C.nfc body with
  | .error e => .error e
  | .ok (.obj message) =>
    if Node.joinedKeys message ≠ requestKeys ∨ !isId (message.lookup "method".toList) ∨
        !isObject (message.lookup "params".toList) then .error (typeError "invalid FastRPC request")
    else authenticate C lower upper message key "request"
  | .ok _ => .error (typeError "invalid FastRPC request")

/-! ## RawIPC -/

/-- `MAGIC`. -/
def magic : Bytes := [83, 54, 82, 73]

/-- The checks of the header. -/
def rawHeader (bytes : Bytes) : Prop :=
  bytes.take 4 = magic ∧ bytes[4]? = some 1 ∧ bytes[5]? ≠ some 0 ∧ ofBE ((bytes.drop 6).take 2) = 0 ∧
    ofBE ((bytes.drop 8).take 4) = bytes.length - 24

instance (bytes : Bytes) : Decidable (rawHeader bytes) := inferInstanceAs (Decidable (_ ∧ _))

/-- What `decodeRaw` returns. -/
structure RawMessage where
  type : UInt8
  payload : Bytes
  nonce : Text
  issuedAt : Int

/-- `decodeRaw(bytes, key, now)` for requests. `Number` keeps an integer up to `2^53 - 1`; above, `integer` refuses
    it. -/
def decodeRaw (bytes key : Bytes) (now : Int) : Except JsError RawMessage :=
  if bytes.length < 48 ∨ 1048576 < bytes.length then .error (typeError "invalid RawIPC frame")
  else if ¬ rawHeader bytes then .error (typeError "invalid RawIPC header")
  else
    let header := bytes.take 24
    match C.gcm.decrypt (derived C key "rawipc:request") (header.drop 12) header (bytes.drop 24) with
    | none => .error (typeError "RawIPC authentication failed")
    | some plain =>
      if plain.length < 8 then .error (.plain "Attempt to access memory outside buffer bounds")
      else
        match isInteger (now - 60) (now + 60) (some (.int (ofBE (plain.take 8)))) with
        | none => .error (typeError "RawIPC timestamp outside clock window")
        | some issuedAt => .ok ⟨bytes.getD 5 0, plain.drop 8, hexText (header.drop 12), issuedAt⟩

/-- A RawIPC body up to the reservation of its nonce. -/
def rawCheck (key : Bytes) (now : Int) (body : Bytes) : Except JsError Request :=
  (decodeRaw C body key now).map fun message => ⟨.str message.nonce, message.issuedAt⟩

/-! ## What a request that passes says -/

theorem isInteger_eq_some {lo hi n : Int} {v : Option Json} (h : isInteger lo hi v = some n) :
    v = some (.int n) ∧ lo ≤ n ∧ n ≤ hi := by
  unfold isInteger at h
  split at h
  · split_ifs at h with hrg
    cases h
    exact ⟨rfl, hrg.2⟩
  · cases h

/-- `authenticate` hands on what stands in the message, inside the window. -/
theorem authenticate_ok {C : Crypto} {l u : Int} {m : Members} {key : Bytes} {dr : String}
    {r : Request} (h : authenticate C l u m key dr = .ok r) :
    m.lookup "nonce".toList = some r.nonce ∧ m.lookup "issued_at".toList = some (.int r.issuedAt) ∧
      l ≤ r.issuedAt + 60 := by
  unfold authenticate at h
  split at h
  · rename_i nonce ia hnon hiss
    obtain ⟨-, -, h⟩ := bind_eq_ok.mp h
    obtain ⟨expected, -, h⟩ := bind_eq_ok.mp h
    obtain ⟨hvl, hlower, -⟩ := isInteger_eq_some hiss
    split at h
    · split_ifs at h
      cases h
      refine ⟨hnon, hvl, ?_⟩
      dsimp only
      omega
    · cases h
  · cases h

theorem fastRpcCheck_ok {C : Crypto} {key bd : Bytes} {l u : Int} {r : Request}
    (h : fastRpcCheck C key l u bd = .ok r) :
    ∃ message, parseCanonical C.nfc bd = .ok (.obj message) ∧ message.lookup "nonce".toList = some r.nonce ∧
      message.lookup "issued_at".toList = some (.int r.issuedAt) ∧ l ≤ r.issuedAt + 60 := by
  unfold fastRpcCheck at h
  split at h
  · cases h
  · rename_i message hprs
    split_ifs at h
    exact ⟨message, hprs, authenticate_ok h⟩
  · cases h

theorem rawCheck_ok {C : Crypto} {key bd : Bytes} {now : Int} {r : Request} (h : rawCheck C key now bd = .ok r) :
    r.nonce = .str (hexText ((bd.take 24).drop 12)) ∧ now ≤ r.issuedAt + 60 ∧
      ∃ plain, C.gcm.decrypt (derived C key "rawipc:request") ((bd.take 24).drop 12) (bd.take 24) (bd.drop 24)
        = some plain ∧ r.issuedAt = ofBE (plain.take 8) := by
  unfold rawCheck at h
  cases hdec : decodeRaw C bd key now with
  | error e =>
    rw [hdec] at h
    cases h
  | ok message =>
    rw [hdec] at h
    cases h
    unfold decodeRaw at hdec
    split_ifs at hdec
    dsimp only at hdec
    split at hdec
    · cases hdec
    rename_i plain hpl
    split_ifs at hdec
    split at hdec
    · cases hdec
    rename_i ia hiss
    cases hdec
    obtain ⟨hvl, hlower, -⟩ := isInteger_eq_some hiss
    refine ⟨rfl, ?_, plain, hpl, ?_⟩
    · dsimp only
      omega
    · exact (Json.int.inj (Option.some.inj hvl)).symm

end Shadow6.NodeIpc
