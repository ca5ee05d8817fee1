import Mathlib.Data.List.DropRight
import Shadow6.Library.Base64
import Shadow6.Library.Fallible
import Shadow6.Library.Hex
import Shadow6.Library.Signature
import Shadow6.Portable.Operators

/-!
# `Public6.JoinCode` — protocol envelopes, passports and visas

`resolve_protocol_envelope` of `Public6/join_code.py` with what it calls: `unpack_protocol`, `pack_protocol`,
`verify_passport_visa`, `verify_credential`, `resolve_credentials` and `require_credential_scope`. A protocol envelope
is a document in base64; its credentials may hold a passport, which says for which components and roles it was issued,
and a visa derived from it. The caller names a component and a role, and the passport must cover both.

`verify_credential` checks which fields a passport has, but not the types of `components` and `roles`, and
`require_credential_scope` looks into them with `in`. So a passport whose fields are lists of strings is read as it was
meant (`admits_strings`); a string covers every component that is part of it, a dictionary its keys, and
a number raises `TypeError`. `passport_scope` says for which calls that makes a difference.

`unpack_invitation`, the signature scheme, SHA-256 and Unicode normalization are parameters.
-/

namespace Shadow6.Public6.JoinCode

open Library Json Portable List Python

/-- What the functions here call and do not define. -/
structure Suite where
  scheme : SignatureScheme
  sha256 : Bytes → Bytes
  nfc : Text → Text
  unpackInvitation : Json → Except PyError Json

/-! ## Tokens -/

/-- `PROTOCOL_PREFIX`. -/
def protocolPrefix : Text := "S6P1."

/-- `PROTOCOL_MAX_BYTES`. -/
def protocolMaxBytes : Nat := 262144

/-- `MAX_CREDENTIAL_BYTES`. -/
def maxCredentialBytes : Nat := 32768

/-- `base64.urlsafe_b64encode(raw).decode().rstrip('=')`. -/
def urlsafe (raw : Bytes) : Text := (Base64.encode Base64.urlSafe raw).rdropWhile (· == '=')

/-- `[A-Za-z0-9_-]`. -/
def tokenChar (c : Char) : Bool := c.isAlphanum || c == '_' || c == '-'

/-- `_token_bytes(token, prefix)`; both callers make a `ValueError` of whatever it raises. -/
def tokenBytes (token start : Text) : Option Bytes :=
  let payload := token.drop start.length
  if payload = [] ∨ !payload.all tokenChar then none
  else
    match Base64.decode Base64.urlSafe (payload ++ replicate ((4 - payload.length % 4) % 4) '=') with
    | none => none
    | some raw => if urlsafe raw ≠ payload then none else some raw

/-- `portable_json(_token_bytes(token, prefix), limit=limit)`. -/
def tokenValue (nfc : Text → Text) (limit : Nat) (token start : Text) : Option Json :=
  (tokenBytes token start).bind fun raw =>
    match strictJson nfc limit 65536 raw with
    | .error _ => none
    | .ok value => some value

/-! ## Envelopes -/

/-- `required`. -/
def envelopeKeys : List Text :=
  ["schema", "version", "purpose", "core", "role", "identity", "routes", "components", "credentials"]

/-- `[A-Za-z0-9][A-Za-z0-9._:-]{0,63}`. -/
def coreName : Text → Bool
  | [] => false
  | c :: rest =>
    c.isAlphanum && decide (rest.length ≤ 63) &&
      rest.all fun d => d.isAlphanum || d == '.' || d == '_' || d == ':' || d == '-'

/-- `envelope['core']`: one name, or up to sixteen distinct ones other than `all`. -/
def coreScope : Json → Bool
  | .arr ids =>
    let names := ids.filterMap fun | .str s => some s | _ => none
    decide (1 ≤ ids.length ∧ ids.length ≤ 16) && decide (names.length = ids.length) && names.all coreName &&
      decide names.Nodup && !names.contains "all"
  | .str s => coreName s
  | _ => false

def envelopeRoles : List Text :=
  ["broker", "agent", "client", "gate", "relay", "plugin", "all"]

/-- An envelope that `pack_protocol` accepts, with the sections that are read from it. -/
structure Envelope where
  value : Members
  purpose : Text
  role : Text
  components : Members
  credentials : Members

/-- `type(envelope["version"]) is int and envelope["version"] == 1`. -/
def versionOne (ms : Members) : Bool :=
  match ms.lookup "version".toList with
  | some (.int n) => decide (n = 1)
  | _ => false

/-- `envelope["purpose"]`. -/
def purposeField (ms : Members) : Except PyError Text :=
  match ms.lookup "purpose".toList with
  | some (.str s) => if 1 ≤ s.length ∧ s.length ≤ 64 then .ok s else .error (.value "invalid envelope purpose")
  | _ => .error (.value "invalid envelope purpose")

/-- `envelope["role"]`. -/
def roleField (ms : Members) : Except PyError Text :=
  match ms.lookup "role".toList with
  | some (.str s) => if s ∈ envelopeRoles then .ok s else .error (.value "invalid envelope role")
  | _ => .error (.value "invalid envelope role")

/-- The checks of `pack_protocol(envelope)`. -/
def checkEnvelope : Json → Except PyError Envelope
  | .obj ms => do
    refuseIf (!(ms.map Prod.fst).all envelopeKeys.contains) (.value "invalid Shadow6 protocol envelope")
    refuseIf (!(sameKeys ms envelopeKeys &&
        hasText ms "schema" "shadow6.protocol-envelope.v1" && versionOne ms))
      (.value "invalid Shadow6 protocol envelope schema")
    let purpose ← purposeField ms
    refuseIf (!coreScope ((ms.lookup "core".toList).getD .null)) (.value "invalid envelope Core scope")
    let role ← roleField ms
    match ms.lookup "identity".toList, ms.lookup "routes".toList, ms.lookup "components".toList,
        ms.lookup "credentials".toList with
    | some (.obj _), some (.arr _), some (.obj components), some (.obj credentials) =>
      return ⟨ms, purpose, role, components, credentials⟩
    | _, _, _, _ => .error (.value "invalid envelope sections")
  | _ => .error (.value "invalid Shadow6 protocol envelope")

variable (S : Suite)

/-- `pack_protocol(envelope)`. -/
def packProtocol (envelope : Json) : Except PyError Text := do
  let _ ← checkEnvelope envelope
  let raw := canonical envelope
  let _ ← strictJson S.nfc protocolMaxBytes 65536 raw
  let token := protocolPrefix ++ urlsafe raw
  refuseIf (protocolMaxBytes < token.length) (.value "protocol envelope is oversized")
  return token

/-- `unpack_protocol(token)`. -/
def unpackProtocol : Json → Except PyError Envelope
  | .str token =>
    if ¬ (protocolPrefix <+: token) ∨ protocolMaxBytes < token.length then
      .error (.value "invalid Shadow6 protocol envelope")
    else
      match tokenValue S.nfc protocolMaxBytes token protocolPrefix with
      | none => .error (.value "invalid Shadow6 protocol envelope encoding")
      | some value => do
        let _ ← packProtocol S value
        checkEnvelope value
  | _ => .error (.value "invalid Shadow6 protocol envelope")

/-! ## Credentials -/

/-- The two kinds of credential. -/
inductive Kind where
  | passport
  | visa
deriving DecidableEq, Repr

/-- `PASSPORT_PREFIX` and `VISA_PREFIX`. -/
def Kind.start : Kind → Text
  | .passport => "S6PASS1."
  | .visa => "S6VISA1."

/-- `PASSPORT_SCHEMA` and `VISA_SCHEMA`. -/
def Kind.schema : Kind → Text
  | .passport => "shadow6.passport.v1"
  | .visa => "shadow6.visa.v1"

/-- `required`. -/
def Kind.required : Kind → List Text
  | .passport =>
    ["schema", "subject", "components", "roles", "issued_at", "expires_at"]
  | .visa =>
    ["schema", "subject", "audience", "component", "passport_expires_at", "passport_digest", "issued_at", "expires_at"]

/-- `d.get(name)`, where `None` is `null` or no such key. -/
def get (ms : Members) (name : Text) : Option Json :=
  match ms.lookup name with
  | none | some .null => none
  | some v => some v

/-- A token that is decoded to a dictionary with the schema of its kind. -/
def readCredential (kind : Kind) : Json → Except PyError Members
  | .str token =>
    if ¬ (kind.start <+: token) ∨ maxCredentialBytes < token.length then .error (.value "invalid credential")
    else
      match tokenValue S.nfc maxCredentialBytes token kind.start with
      | none => .error (.value "invalid credential encoding")
      | some (.obj ms) =>
        if hasText ms "schema" kind.schema then .ok ms else .error (.value "invalid credential schema")
      | some _ => .error (.value "invalid credential schema")
  | _ => .error (.value "invalid credential")

/-- `set(value) - allowed` is empty and `required <= set(value)`. -/
def credentialFields (kind : Kind) (ms : Members) : Bool :=
  (ms.map Prod.fst).all (kind.required ++ ["issuer".toList, "signature".toList]).contains &&
    kind.required.all (ms.map Prod.fst).contains

/-- The instant of expiry, if it is not reached. -/
def checkTimes (now : Int) (ms : Members) : Except PyError Int :=
  match ms.lookup "issued_at".toList, ms.lookup "expires_at".toList with
  | some (.int issued), some (.int expires) =>
    if expires < issued ∨ expires ≤ now then .error (.value "expired credential") else .ok expires
  | _, _ => .error (.value "expired credential")

/-- A text of `digits` lower-case hexadecimal digits, as bytes. -/
def hexBytes (digits : Nat) (s : Text) : Option Bytes :=
  if s.length = digits ∧ s.all fun c => c.isDigit || ('a' ≤ c && c ≤ 'f') then readHexText s else none

/-- `{k: v for k, v in value.items() if k != "signature"}`. -/
def unsigned (ms : Members) : Members := without ms "signature"

/-- The signature of a credential, if it has one or must have one. -/
def checkSignature (requireSignature : Bool) (ms : Members) : Except PyError Unit :=
  match get ms "signature", get ms "issuer" with
  | none, none => refuseIf (requireSignature = true) (.value "unsigned credential is not accepted")
  | some (.str signature), some (.str issuer) =>
    match hexBytes 64 issuer, hexBytes 128 signature with
    | some pub, some sig =>
      refuseIf (!S.scheme.verify pub (canonical (.obj (unsigned ms))) sig) (.value "invalid credential signature")
    | _, _ => .error (.value "invalid credential signature")
  | _, _ => .error (.value "incomplete credential signature")

/-- `value["expires_at"] > value["passport_expires_at"]`. -/
def outlives (expires : Int) (ms : Members) : Except PyError Bool :=
  match (ms.lookup "passport_expires_at".toList).bind number? with
  | some limit => .ok (decide (limit < expires))
  | none => .error ⟨.typeError, "'>' not supported"⟩

/-- `verify_credential(token, prefix, now=now, require_signature=require_signature)`. -/
def verifyCredential (kind : Kind) (now : Int) (requireSignature : Bool) (token : Json) : Except PyError Members := do
  let ms ← readCredential S kind token
  refuseIf (!credentialFields kind ms) (.value "invalid credential fields")
  let expires ← checkTimes now ms
  checkSignature S requireSignature ms
  match kind with
  | .passport => return ms
  | .visa => do
    let late ← outlives expires ms
    refuseIf (late = true) (.value "Visa outlives Passport")
    return ms

/-! ## Admission to a community -/

/-- The arguments that say what a caller admits. -/
structure Options where
  audience : Option Text
  allowedCommunities : List Text
  visaFree : Bool
  requireSignature : Bool
  now : Int

/-- `"community:"`. -/
def communityPrefix : Text := "community:"

/-- `verify_passport_visa(envelope, …)`. -/
def verifyPassportVisa (o : Options) (e : Envelope) : Except PyError Bool := do
  let _ ← packProtocol S (.obj e.value)
  if ¬ (communityPrefix <+: e.purpose) then return true
  match e.credentials.lookup "admission".toList with
  | some (.str admission) =>
    if admission = "visa-free" then return o.visaFree
    else if e.purpose.drop communityPrefix.length ∉ o.allowedCommunities ∨
        ¬ (1 ≤ admission.length ∧ admission.length ≤ maxCredentialBytes) then return false
    else if Kind.start .passport <+: admission then do
      let _ ← verifyCredential S .passport o.now o.requireSignature (.str admission)
      return true
    else if Kind.start .visa <+: admission then do
      let _ ← verifyCredential S .visa o.now o.requireSignature (.str admission)
      return true
    else return !o.requireSignature
  | _ => return false

/-- `claims`. -/
structure Claims where
  passport : Option Members
  visa : Option Members
  invitation : Option Json

/-- A credential, verified if it is there. -/
def verified {α : Type} (verify : Json → Except PyError α) : Option Json → Except PyError (Option α)
  | none => .ok none
  | some token => (verify token).map some

/-- `resolve_credentials(credentials, now=now, require_signature=require_signature)`. -/
def resolveCredentials (o : Options) (credentials : Members) : Except PyError Claims := do
  let passport ← verified (verifyCredential S .passport o.now o.requireSignature) (get credentials "passport")
  let visa ← verified (verifyCredential S .visa o.now o.requireSignature) (get credentials "visa")
  let invitation ← verified S.unpackInvitation (get credentials "public6_invitation")
  return ⟨passport, visa, invitation⟩

/-! ## Scope -/

/-- `claim.get(field, ())`. -/
def scopeField (claim : Members) (field : Text) : Json := (claim.lookup field).getD (.arr [])

/-- `if entry not in claim.get(field, ()) and "all" not in claim.get(field, ()): raise ValueError(refusal)`. -/
def requireEntry (claim : Members) (field entry : Text) (refusal : String) : Except PyError Unit := do
  if (← contains entry (scopeField claim field)) then return ()
  else refuseIf ((← contains "all" (scopeField claim field)) = false) (.value refusal)

/-- A check of an argument that may be left out. -/
def whenGiven (argument : Option Text) (check : Text → Except PyError Unit) : Except PyError Unit :=
  match argument with
  | none => .ok ()
  | some a => check a

/-- `require_credential_scope(claim, component=component, role=role, audience=audience)`. -/
def requireCredentialScope (claim : Members) (component role audience : Option Text) : Except PyError Unit := do
  let direct := (claim.map Prod.fst).contains "component"
  whenGiven component fun c =>
    if direct then .ok ()
    else requireEntry claim "components" c "credential does not authorize this component"
  whenGiven role fun r => requireEntry claim "roles" r "credential does not authorize this role"
  whenGiven audience fun a =>
    refuseIf ((get claim "audience").isSome ∧ !hasText claim "audience" a)
      (.value "credential audience mismatch")
  whenGiven component fun c =>
    refuseIf (direct ∧ !hasText claim "component" c) (.value "credential component mismatch")

/-! ## `resolve_protocol_envelope` -/

/-- `envelope["components"].get(component)` is absent, `None` or `True`. -/
def advertises (e : Envelope) (component : Text) : Bool :=
  match get e.components component with
  | none => true
  | some (.bool b) => b
  | some _ => false

/-- What `resolve_protocol_envelope` does before it looks at the scope of the credentials. -/
def examine (token : Json) (component role : Option Text) (o : Options) : Except PyError (Envelope × Claims) := do
  let e ← unpackProtocol S token
  whenGiven component fun c =>
    refuseIf (!advertises e c) (.value "S6P1 envelope does not advertise this component")
  whenGiven role fun r => refuseIf (e.role ≠ r ∧ e.role ≠ "all") (.value "S6P1 envelope role mismatch")
  let admitted ← verifyPassportVisa S o e
  refuseIf (admitted = false) (.value "S6P1 community admission was rejected")
  let claims ← resolveCredentials S o e.credentials
  return (e, claims)

/-- `a.get(name) == b.get(name)`. -/
def sameField (a b : Members) (name : Text) : Bool := equal ((get a name).getD .null) ((get b name).getD .null)

/-- `hashlib.sha256(_credential_bytes(parent)).hexdigest()` of a passport. -/
def passportDigest (passport : Members) : Text := hexText (S.sha256 (canonical (.obj (unsigned passport))))

/-- The checks of a visa against its passport. -/
def checkVisa (component audience : Option Text) (passport : Option Members) (visa : Members) : Except PyError Unit := do
  requireCredentialScope visa component none audience
  match passport with
  | none => .error (.value "Visa requires its parent Passport")
  | some p => do
    refuseIf (!sameField visa p "subject") (.value "Visa subject does not match Passport")
    refuseIf (!sameField visa p "issuer") (.value "Visa issuer does not match Passport")
    refuseIf (!hasText visa "passport_digest" (passportDigest S p))
      (.value "Visa is not derived from this Passport")

/-- `resolve_protocol_envelope(token, component=component, role=role, …)`. -/
def resolveProtocolEnvelope (token : Json) (component role : Option Text) (o : Options) :
    Except PyError (Envelope × Claims) := do
  let (e, claims) ← examine S token component role o
  match claims.passport with
  | none => .ok ()
  | some p => requireCredentialScope p component role none
  match claims.visa with
  | none => .ok ()
  | some v => checkVisa S component o.audience claims.passport v
  return (e, claims)

/-! ## What the other checks raise -/

/-- `ValueError` or a subclass. -/
def IsValueError (e : PyError) : Prop := e.kind = .valueError ∨ e.kind = .jsonDecodeError

theorem isValueError_value (t : String) : IsValueError (.value t) := .inl rfl

theorem whenGiven_failsWith {Q : PyError → Prop} {ar : Option Text} {ch : Text → Except PyError Unit}
    (h : ∀ a, FailsWith Q (ch a)) : FailsWith Q (whenGiven ar ch) := by
  cases ar with
  | none => exact .ok ()
  | some a => exact h a

/-! ## What the scope check reads -/

/-- The field covers the entry, in the eyes of `in`. -/
def Admits (entry : Text) (v : Json) : Prop := Python.Names entry v ∨ Python.Names "all" v

section

variable {cl : Members} {fd en c r : Text} {rf : String}

theorem Admits.container {v : Json} (h : Admits en v) : Python.Container v := h.elim Python.Names.container Python.Names.container

theorem requireEntry_cases (clm : Members) (fl ent : Text) (re : String) :
    (Admits ent (scopeField clm fl) ∧ requireEntry clm fl ent re = .ok ()) ∨
    (Python.Container (scopeField clm fl) ∧ ¬ Admits ent (scopeField clm fl) ∧
      requireEntry clm fl ent re = .error (.value re)) ∨ (¬ Python.Container (scopeField clm fl) ∧
      requireEntry clm fl ent re = .error ⟨.typeError, "argument is not iterable"⟩) := by
  unfold requireEntry
  generalize scopeField clm fl = v
  rcases contains_cases ent v with ⟨hnamed, heq⟩ | ⟨hcon, hnamed, heq⟩ | ⟨hcon, heq⟩
  · exact .inl ⟨.inl hnamed, by rw [heq]; rfl⟩
  · rcases contains_cases "all" v with ⟨hall, hall'⟩ | ⟨-, hall, hall'⟩ | ⟨hnot, -⟩
    · exact .inl ⟨.inr hall, by rw [heq, hall']; rfl⟩
    · exact .inr (.inl ⟨hcon, by rintro (h | h) <;> contradiction, by rw [heq, hall']; rfl⟩)
    · exact absurd hcon hnot
  · exact .inr (.inr ⟨hcon, by rw [heq]; rfl⟩)

theorem requireEntry_eq_ok {u : Unit} : requireEntry cl fd en rf = .ok u ↔ Admits en (scopeField cl fd) := by
  rcases requireEntry_cases cl fd en rf with ⟨h, heq⟩ | ⟨-, h, heq⟩ | ⟨h, heq⟩
  · exact iff_of_true heq h
  · exact iff_of_false (by rw [heq]; nofun) h
  · exact iff_of_false (by rw [heq]; nofun) fun hadmt => h hadmt.container

theorem requireEntry_raises : (∃ e, requireEntry cl fd en rf = .error e ∧ IsValueError e) ↔
    Python.Container (scopeField cl fd) ∧ ¬ Admits en (scopeField cl fd) := by
  rcases requireEntry_cases cl fd en rf with ⟨h, heq⟩ | ⟨hcon, h, heq⟩ | ⟨h, heq⟩
  · exact iff_of_false (by rw [heq]; nofun) fun hnot => hnot.2 h
  · exact iff_of_true ⟨_, heq, isValueError_value _⟩ ⟨hcon, h⟩
  · refine iff_of_false ?_ fun hyes => h hyes.1
    rw [heq]
    rintro ⟨e, ⟨⟩, hkd | hkd⟩ <;> cases hkd

end

/-! ## Reading a token -/

theorem tokenValue_eq {nfc : Text → Text} {limit : Nat} {token start : Text} {raw : Bytes} {value : Json}
    (hby : tokenBytes token start = some raw) (hrd : strictJson nfc limit 65536 raw = .ok value) :
    tokenValue nfc limit token start = some value := by
  rw [tokenValue, hby, Option.bind_some, hrd]

/-! ## The scope of a verified credential -/

variable {claims : Claims} {tk : Json}

section

variable {S : Suite} {c r : Text} {o : Options} {p v : Members} {ms : Members} {k : Kind}

theorem verifyCredential_fields {now : Int} {rs : Bool}
    (h : verifyCredential S k now rs tk = .ok ms) : credentialFields k ms = true := by
  obtain ⟨ms', -, h⟩ := bind_eq_ok.mp h
  obtain ⟨_, hfs, h⟩ := bind_eq_ok.mp h
  obtain ⟨_, -, h⟩ := bind_eq_ok.mp h
  obtain ⟨_, -, h⟩ := bind_eq_ok.mp h
  have hfs' : credentialFields k ms' = true := by simpa using refuseIf_eq_ok.mp hfs
  cases k with
  | passport =>
    cases h
    exact hfs'
  | visa =>
    obtain ⟨_, -, h⟩ := bind_eq_ok.mp h
    obtain ⟨_, -, h⟩ := bind_eq_ok.mp h
    cases h
    exact hfs'

/-- A passport names no single component, a visa does. -/
theorem direct_component (h : credentialFields k ms = true) :
    (ms.map Prod.fst).contains "component" = decide (k = .visa) := by
  rw [credentialFields, Bool.and_eq_true] at h
  cases k with
  | visa => exact all_eq_true.mp h.2 _ (by decide)
  | passport =>
    by_contra hdir
    have hmem : "component".toList ∈ ms.map Prod.fst := by simpa using hdir
    exact absurd (all_eq_true.mp h.1 _ hmem) (by decide)

/-- For a passport the check is one of `components` and one of `roles`. -/
theorem requireCredentialScope_passport (h : credentialFields .passport p = true) :
    requireCredentialScope p (some c) (some r) none = (do
      requireEntry p "components" c "credential does not authorize this component"
      requireEntry p "roles" r "credential does not authorize this role") := by
  unfold requireCredentialScope whenGiven
  rw [direct_component h]
  show (requireEntry p "components" c _ >>= fun _ => requireEntry p "roles" r _ >>= fun _ => .ok ()) = _
  cases requireEntry p "components" c "credential does not authorize this component" with
  | error e => rfl
  | ok _ =>
    cases requireEntry p "roles" r "credential does not authorize this role" <;> rfl

/-- The visa is for the component and the audience, and derived from the passport. -/
structure VisaBelongs (S : Suite) (c : Text) (o : Options) (p v : Members) : Prop where
  audience : ∀ a, o.audience = some a → get v "audience" = none ∨ hasText v "audience" a = true
  component : hasText v "component" c = true
  subject : sameField v p "subject" = true
  issuer : sameField v p "issuer" = true
  digest : hasText v "passport_digest" (passportDigest S p) = true

/-- **The scope of a visa** is checked without `in`, so only a `ValueError` can come of it. -/
theorem requireCredentialScope_visa_failsWith (h : credentialFields .visa v = true) (cm au : Option Text) :
    FailsWith IsValueError (requireCredentialScope v cm none au) := by
  unfold requireCredentialScope
  rw [direct_component h]
  refine .bind (whenGiven_failsWith fun c => .ok ()) fun _ _ => ?_
  refine .bind (.ok ()) fun _ _ => ?_
  refine .bind (whenGiven_failsWith fun a => .refuseIf _ (isValueError_value _)) fun _ _ => ?_
  exact whenGiven_failsWith fun c => .refuseIf _ (isValueError_value _)

theorem requireCredentialScope_visa (h : credentialFields .visa v = true) :
    requireCredentialScope v (some c) none o.audience = .ok () ↔
      (∀ a, o.audience = some a → get v "audience" = none ∨ hasText v "audience" a = true) ∧
        hasText v "component" c = true := by
  unfold requireCredentialScope
  rw [direct_component h]
  cases o.audience with
  | none => simp [whenGiven, bind_eq_ok, refuseIf_eq_ok]
  | some a => cases get v "audience" <;> simp [whenGiven, bind_eq_ok, refuseIf_eq_ok]

theorem checkVisa_eq_ok (h : credentialFields .visa v = true) {u : Unit} :
    checkVisa S (some c) o.audience (some p) v = .ok u ↔ VisaBelongs S c o p v := by
  unfold checkVisa
  simp only [bind_eq_ok, refuseIf_eq_ok, Bool.not_eq_true', Bool.not_eq_false, requireCredentialScope_visa h]
  constructor
  · rintro ⟨_, ⟨haud, hcom⟩, _, hsub, _, hiss, hdig⟩
    exact ⟨haud, hcom, hsub, hiss, hdig⟩
  · intro hv
    exact ⟨(), ⟨hv.audience, hv.component⟩, (), hv.subject, (), hv.issuer, hv.digest⟩

/-- **The checks of a visa**: it belongs to the passport, or a `ValueError` is raised. -/
theorem checkVisa_raises (h : credentialFields .visa v = true) :
    (∃ e, checkVisa S (some c) o.audience (some p) v = .error e ∧ IsValueError e) ↔ ¬ VisaBelongs S c o p v := by
  have hfails : FailsWith IsValueError (checkVisa S (some c) o.audience (some p) v) := by
    refine .bind (requireCredentialScope_visa_failsWith h _ _) fun _ _ => ?_
    refine .bind (.refuseIf _ (isValueError_value _)) fun _ _ => ?_
    exact .bind (.refuseIf _ (isValueError_value _)) fun _ _ => .refuseIf _ (isValueError_value _)
  rw [← checkVisa_eq_ok h (u := ())]
  cases hrsl : checkVisa S (some c) o.audience (some p) v with
  | ok u => simp
  | error e => simpa using hfails e hrsl

/-! ## The scope of a passport -/

/-- `components` and `roles` are lists of strings. -/
def Typed (p : Members) (components roles : List Text) : Prop :=
  p.lookup "components".toList = some (.arr (components.map .str)) ∧ p.lookup "roles".toList = some (.arr (roles.map .str))

/-- The scope check turns the passport away, or the visa. -/
def Refuses (S : Suite) (c r : Text) (o : Options) (p : Members) (visa : Option Members) : Prop :=
  (Python.Container (scopeField p "components") ∧ ¬ Admits c (scopeField p "components")) ∨
  (Admits c (scopeField p "components") ∧ Python.Container (scopeField p "roles") ∧
    ¬ Admits r (scopeField p "roles")) ∨
  (Admits c (scopeField p "components") ∧ Admits r (scopeField p "roles") ∧
    ∃ v, visa = some v ∧ ¬ VisaBelongs S c o p v)

theorem examine_ok {cm ro : Option Text} {e : Envelope}
    (h : examine S tk cm ro o = .ok (e, claims)) :
    unpackProtocol S tk = .ok e ∧ resolveCredentials S o e.credentials = .ok claims := by
  obtain ⟨e', hunp, h⟩ := bind_eq_ok.mp h
  obtain ⟨_, -, h⟩ := bind_eq_ok.mp h
  obtain ⟨_, -, h⟩ := bind_eq_ok.mp h
  obtain ⟨_, -, h⟩ := bind_eq_ok.mp h
  obtain ⟨_, -, h⟩ := bind_eq_ok.mp h
  obtain ⟨claims', hclm, h⟩ := bind_eq_ok.mp h
  cases h
  exact ⟨hunp, hclm⟩

theorem verified_eq_ok {α : Type} {vf : Json → Except PyError α} {token : Option Json} {res : Option α}
    (h : verified vf token = .ok res) :
    (token = none ∧ res = none) ∨ ∃ t a, token = some t ∧ vf t = .ok a ∧ res = some a := by
  cases token with
  | none =>
    cases h
    exact .inl ⟨rfl, rfl⟩
  | some t =>
    rw [verified] at h
    cases hver : vf t with
    | error e => rw [hver] at h; cases h
    | ok a =>
      rw [hver] at h
      cases h
      exact .inr ⟨t, a, rfl, hver, rfl⟩

/-- A credential that was verified has the fields of its kind. -/
theorem verified_fields {now : Int} {rs : Bool} {token : Option Json} {res : Option Members}
    (h : verified (verifyCredential S k now rs) token = .ok res) (hms : res = some ms)
    : credentialFields k ms = true := by
  rcases verified_eq_ok h with ⟨-, hnone⟩ | ⟨_, a, -, hver, hsome⟩
  · rw [hms] at hnone
    cases hnone
  rw [hms] at hsome
  cases hsome
  exact verifyCredential_fields hver

theorem resolveCredentials_ok {cs : Members} (h : resolveCredentials S o cs = .ok claims) :
    verified (verifyCredential S .passport o.now o.requireSignature) (get cs "passport") = .ok claims.passport ∧
    verified (verifyCredential S .visa o.now o.requireSignature) (get cs "visa") = .ok claims.visa := by
  obtain ⟨passport, hpas, h⟩ := bind_eq_ok.mp h
  obtain ⟨visa, hvisa, h⟩ := bind_eq_ok.mp h
  obtain ⟨invitation, -, h⟩ := bind_eq_ok.mp h
  cases h
  exact ⟨hpas, hvisa⟩

/-- Once the other checks have passed, the passport's two fields are looked into in turn, then the visa. -/
theorem resolve_eq {e : Envelope} (h : examine S tk (some c) (some r) o = .ok (e, claims))
    (hp : claims.passport = some p) : resolveProtocolEnvelope S tk (some c) (some r) o = (do
      requireEntry p "components" c "credential does not authorize this component"
      requireEntry p "roles" r "credential does not authorize this role"
      (match claims.visa with
        | none => .ok ()
        | some v => checkVisa S (some c) o.audience (some p) v)
      return (e, claims)) := by
  have hfs := verified_fields (resolveCredentials_ok (examine_ok h).2).1 hp
  unfold resolveProtocolEnvelope
  rw [h, ← hp]
  show (match claims.passport with | none => _ | some p => _) = _
  rw [hp]
  show (requireCredentialScope p (some c) (some r) none >>= _) = _
  rw [requireCredentialScope_passport hfs, bind_assoc]
  cases claims.visa <;> rfl

end

/-! ## For which calls the scope is respected -/

/-- The envelope of a token, and the passport in it. -/
def Carries (S : Suite) (token : Json) (o : Options) (e : Envelope) (p : Members) : Prop :=
  unpackProtocol S token = .ok e ∧
    ∃ t, get e.credentials "passport" = some t ∧ verifyCredential S .passport o.now o.requireSignature t = .ok p

/-- A call that succeeds has a passport with lists of strings that cover the component and the role; and a passport with
    fields of any other type is refused with a `ValueError`. -/
def ScopeRespected (S : Suite) (token : Json) (c r : Text) (o : Options) : Prop :=
  ∀ e p, Carries S token o e p →
    (∀ result, resolveProtocolEnvelope S token (some c) (some r) o = .ok result →
      ∃ components roles, Typed p components roles ∧ (c ∈ components ∨ "all".toList ∈ components) ∧
        (r ∈ roles ∨ "all".toList ∈ roles)) ∧
    ((¬ ∃ components roles, Typed p components roles) →
      ∃ err, resolveProtocolEnvelope S token (some c) (some r) o = .error err ∧ IsValueError err)

/-- The passport has lists of strings, or the call is turned away with a `ValueError`: by a check that does not look at
    the scope, or because what `in` finds in the fields does not cover the component and the role, or by the visa. -/
def ScopeReadable (S : Suite) (token : Json) (c r : Text) (o : Options) : Prop :=
  ∀ e p, Carries S token o e p →
    (∃ components roles, Typed p components roles) ∨
    (∃ err, examine S token (some c) (some r) o = .error err ∧ IsValueError err) ∨
    ∃ claims, examine S token (some c) (some r) o = .ok (e, claims) ∧ Refuses S c r o p claims.visa

theorem names_strings {entry : Text} {names : List Text} : Python.Names entry (.arr (names.map .str)) ↔ entry ∈ names := by
  constructor
  · intro h
    obtain ⟨name, hname, heq⟩ := mem_map.mp h
    rwa [Json.str.inj heq] at hname
  · exact fun h => mem_map.mpr ⟨entry, h, rfl⟩

theorem admits_strings {p : Members} {field entry : Text} {names : List Text}
    (h : p.lookup field = some (.arr (names.map .str))) :
    Admits entry (scopeField p field) ↔ entry ∈ names ∨ "all".toList ∈ names := by
  rw [scopeField, h, Option.getD_some]
  exact or_congr names_strings names_strings

theorem Carries.passport {S : Suite} {o : Options} {e e' : Envelope} {p : Members} {cm ro : Option Text}
    (h : Carries S tk o e p) (hexam : examine S tk cm ro o = .ok (e', claims)) :
    e' = e ∧ claims.passport = some p := by
  obtain ⟨hunp, t, ht, hver⟩ := h
  obtain ⟨hunp', hres⟩ := examine_ok hexam
  rw [hunp] at hunp'
  cases hunp'
  refine ⟨rfl, ?_⟩
  have hpas := (resolveCredentials_ok hres).1
  rw [ht, verified, hver] at hpas
  exact (Except.ok.inj hpas).symm

section

variable {S : Suite} {c r : Text} {o : Options} {p : Members} {e : Envelope}

theorem Carries.admits {res : Envelope × Claims} (h : Carries S tk o e p)
    (hok : resolveProtocolEnvelope S tk (some c) (some r) o = .ok res) :
    Admits c (scopeField p "components") ∧ Admits r (scopeField p "roles") := by
  obtain ⟨⟨e', claims⟩, hexam, -⟩ := bind_eq_ok.mp hok
  rw [resolve_eq hexam (h.passport hexam).2] at hok
  obtain ⟨_, hc, hok⟩ := bind_eq_ok.mp hok
  obtain ⟨_, hr, -⟩ := bind_eq_ok.mp hok
  exact ⟨requireEntry_eq_ok.mp hc, requireEntry_eq_ok.mp hr⟩

/-- **What turns a call away** with a `ValueError`: a check that does not look at the scope, or the scope check. What
    else it raises comes of a field that is not of a type that `in` knows. -/
theorem Carries.raises (h : Carries S tk o e p) :
    (∃ err, resolveProtocolEnvelope S tk (some c) (some r) o = .error err ∧ IsValueError err) ↔
      (∃ err, examine S tk (some c) (some r) o = .error err ∧ IsValueError err) ∨
      ∃ claims, examine S tk (some c) (some r) o = .ok (e, claims) ∧ Refuses S c r o p claims.visa := by
  cases hexam : examine S tk (some c) (some r) o with
  | error err =>
    have hres : resolveProtocolEnvelope S tk (some c) (some r) o = .error err := by
      unfold resolveProtocolEnvelope
      rw [hexam]
      rfl
    simp [hres]
  | ok result =>
    obtain ⟨e', claims⟩ := result
    obtain ⟨rfl, hp⟩ := h.passport hexam
    have hvisa := (resolveCredentials_ok (examine_ok hexam).2).2
    rw [resolve_eq hexam hp]
    simp only [bind_raises, requireEntry_eq_ok, requireEntry_raises, Except.ok.injEq, Prod.mk.injEq, true_and,
      exists_eq_left', Refuses]
    cases hv : claims.visa with
    | none => simp [pure, Except.pure]
    | some v => simp [pure, Except.pure, and_or_left, checkVisa_raises (verified_fields hvisa hv)]

end

/-- **The scope of a passport.** A call respects it exactly if the passport's fields are lists of strings or something
    else turns the call away. -/
theorem passport_scope (S : Suite) (token : Json) (c r : Text) (o : Options) :
    ScopeRespected S token c r o ↔ ScopeReadable S token c r o := by
  refine forall_congr' fun e => forall_congr' fun p => forall_congr' fun hcarries => ?_
  by_cases htyped : ∃ components roles, Typed p components roles
  · refine iff_of_true ⟨?_, fun hnot => absurd htyped hnot⟩ (.inl htyped)
    obtain ⟨components, roles, htyped⟩ := htyped
    intro result hok
    obtain ⟨hc, hr⟩ := hcarries.admits hok
    exact ⟨components, roles, htyped, (admits_strings htyped.1).mp hc, (admits_strings htyped.2).mp hr⟩
  · rw [or_iff_right htyped, ← hcarries.raises]
    refine ⟨fun hrespected => hrespected.2 htyped, fun hraised => ⟨fun result hok => ?_, fun _ => hraised⟩⟩
    obtain ⟨err, herr, -⟩ := hraised
    rw [hok] at herr
    cases herr

/-! ## A passport for parts of a word -/

/-- A claim with strings where lists belong. -/
def gopherClaim : Members :=
  [("components", .str "gopher"), ("expires_at", .int 10), ("issued_at", .int 0),
    ("issuer", .str (hexText (SignatureScheme.checksum.publicKey [7]))), ("roles", .str "clients"),
    ("schema", .str (Kind.schema .passport)), ("subject", .str "someone")]

/-- The claim with its signature. -/
def gopherPassport : Members :=
  gopherClaim.take 6 ++
    [("signature".toList, .str (hexText (SignatureScheme.checksum.sign [7] (canonical (.obj gopherClaim)))))] ++
    gopherClaim.drop 6

def gopherToken : Text := Kind.start .passport ++ urlsafe (canonical (.obj gopherPassport))

/-- An envelope that carries the passport. -/
def gopherEnvelope : Members :=
  [("components", .obj []), ("core", .str "all"), ("credentials", .obj [("passport", .str gopherToken)]),
    ("identity", .obj []), ("purpose", .str "join"), ("role", .str "all"), ("routes", .arr []),
    ("schema", .str "shadow6.protocol-envelope.v1"), ("version", .int 1)]

def gopherProtocol : Text := protocolPrefix ++ urlsafe (canonical (.obj gopherEnvelope))

/-- A suite that a model can be run with. -/
def sampleSuite : Suite := ⟨.checksum, id, id, .ok⟩

/-- The defaults, at the instant zero. -/
def sampleOptions : Options := ⟨none, [], false, true, 0⟩

theorem gopherPassport_proper : Proper (.obj gopherPassport) := by
  refine .obj (by decide +kernel) ?_
  simp only [gopherPassport, gopherClaim, take, drop, cons_append, nil_append, forall_mem_cons]
  exact ⟨.str _, .int _, .int _, .str _, .str _, .str _, .str _, .str _, forall_mem_nil _⟩

theorem gopherEnvelope_proper : Proper (.obj gopherEnvelope) := by
  refine .obj (by decide +kernel) ?_
  have hnil : Proper (.obj []) := .obj .nil (forall_mem_nil _)
  have hcred : Proper (.obj [("passport", .str gopherToken)]) := by
    refine .obj (nodup_singleton _) ?_
    rw [forall_mem_singleton]
    exact .str _
  simp only [gopherEnvelope, forall_mem_cons]
  exact ⟨hnil, .str _, hcred, hnil, .str _, .str _, .arr (forall_mem_nil _), .str _, .int _, forall_mem_nil _⟩

theorem read_gopherPassport :
    strictJson sampleSuite.nfc maxCredentialBytes 65536 (canonical (.obj gopherPassport)) = .ok (.obj gopherPassport) := by
  exact strictJson_canonical gopherPassport_proper rfl (by decide +kernel) (by decide) (by decide +kernel)
    (by decide +kernel) (by decide +kernel)

theorem read_gopherEnvelope :
    strictJson sampleSuite.nfc protocolMaxBytes 65536 (canonical (.obj gopherEnvelope)) = .ok (.obj gopherEnvelope) := by
  exact strictJson_canonical gopherEnvelope_proper rfl (by decide +kernel) (by decide) (by decide +kernel)
    (by decide +kernel) (by decide +kernel)

theorem readCredential_gopher : readCredential sampleSuite .passport (.str gopherToken) = .ok gopherPassport := by
  have hby : tokenBytes gopherToken (Kind.start .passport) = some (canonical (.obj gopherPassport)) := by
    decide +kernel
  have hst : Kind.start .passport <+: gopherToken ∧ gopherToken.length ≤ maxCredentialBytes := by decide +kernel
  rw [readCredential, if_neg (by simp [hst]), tokenValue_eq hby read_gopherPassport]
  exact if_pos (by decide +kernel)

theorem verify_gopherPassport :
    verifyCredential sampleSuite .passport 0 true (.str gopherToken) = .ok gopherPassport := by
  have htimes : checkTimes 0 gopherPassport = .ok 10 := by decide +kernel
  have hsig : checkSignature sampleSuite true gopherPassport = .ok () := by decide +kernel
  refine bind_eq_ok.mpr ⟨_, readCredential_gopher, bind_eq_ok.mpr ⟨(), by decide +kernel, ?_⟩⟩
  exact bind_eq_ok.mpr ⟨10, htimes, bind_eq_ok.mpr ⟨(), hsig, rfl⟩⟩

/-- What `unpack_protocol` makes of the envelope. -/
def gopherUnpacked : Envelope :=
  ⟨gopherEnvelope, "join", "all", [], [("passport", .str gopherToken)]⟩

theorem check_gopherEnvelope : checkEnvelope (.obj gopherEnvelope) = .ok gopherUnpacked := rfl

theorem pack_gopherEnvelope : packProtocol sampleSuite (.obj gopherEnvelope) = .ok gopherProtocol := by
  refine bind_eq_ok.mpr ⟨_, check_gopherEnvelope, bind_eq_ok.mpr ⟨_, read_gopherEnvelope, ?_⟩⟩
  exact bind_eq_ok.mpr ⟨(), refuseIf_eq_ok.mpr (by decide +kernel), rfl⟩

theorem unpack_gopherProtocol : unpackProtocol sampleSuite (.str gopherProtocol) = .ok gopherUnpacked := by
  have hby : tokenBytes gopherProtocol protocolPrefix = some (canonical (.obj gopherEnvelope)) := by
    decide +kernel
  have hst : protocolPrefix <+: gopherProtocol ∧ gopherProtocol.length ≤ protocolMaxBytes := by decide +kernel
  rw [unpackProtocol, if_neg (by simp [hst]), tokenValue_eq hby read_gopherEnvelope]
  exact bind_eq_ok.mpr ⟨_, pack_gopherEnvelope, check_gopherEnvelope⟩

theorem gopher_carries : Carries sampleSuite (.str gopherProtocol) sampleOptions gopherUnpacked gopherPassport :=
  ⟨unpack_gopherProtocol, .str gopherToken, rfl, verify_gopherPassport⟩

theorem examine_gopher : examine sampleSuite (.str gopherProtocol) (some "go") (some "client") sampleOptions
    = .ok (gopherUnpacked, ⟨some gopherPassport, none, none⟩) := by
  -- An envelope that is not for a community needs no admission.
  have hadm : verifyPassportVisa sampleSuite sampleOptions gopherUnpacked = .ok true := by
    have hpack : packProtocol sampleSuite (.obj gopherUnpacked.value) = .ok gopherProtocol := pack_gopherEnvelope
    have hpur : ¬ (communityPrefix <+: gopherUnpacked.purpose) := by decide +kernel
    rw [verifyPassportVisa, hpack, if_pos hpur]
    rfl
  have hpas : verified (verifyCredential sampleSuite .passport 0 true)
      (get gopherUnpacked.credentials "passport") = .ok (some gopherPassport) := by
    have hget : get gopherUnpacked.credentials "passport" = some (.str gopherToken) := rfl
    rw [hget, verified, verify_gopherPassport]
    rfl
  have hclm : resolveCredentials sampleSuite sampleOptions gopherUnpacked.credentials
      = .ok ⟨some gopherPassport, none, none⟩ :=
    bind_eq_ok.mpr ⟨_, hpas, rfl⟩
  refine bind_eq_ok.mpr ⟨_, unpack_gopherProtocol, bind_eq_ok.mpr ⟨(), rfl, bind_eq_ok.mpr ⟨(), rfl, ?_⟩⟩⟩
  exact bind_eq_ok.mpr ⟨true, hadm, bind_eq_ok.mpr ⟨(), rfl, bind_eq_ok.mpr ⟨_, hclm, rfl⟩⟩⟩

/-- **A passport for `gopher` covers `go`**: a word where a list belongs is read as all of its parts. -/
theorem word_covers_its_parts : ¬ ScopeRespected sampleSuite (.str gopherProtocol) "go" "client" sampleOptions := by
  intro hrespected
  have hscope : requireCredentialScope gopherPassport (some "go") (some "client") none = .ok () := by
    decide +kernel
  have hresolve : resolveProtocolEnvelope sampleSuite (.str gopherProtocol) (some "go") (some "client")
      sampleOptions = .ok (gopherUnpacked, ⟨some gopherPassport, none, none⟩) :=
    bind_eq_ok.mpr ⟨_, examine_gopher, bind_eq_ok.mpr ⟨(), hscope, rfl⟩⟩
  obtain ⟨components, roles, htyped, -⟩ := (hrespected _ _ gopher_carries).1 _ hresolve
  have hword : gopherPassport.lookup "components".toList = some (.str "gopher".toList) := rfl
  rw [Typed, hword] at htyped
  cases htyped.1

end Shadow6.Public6.JoinCode
