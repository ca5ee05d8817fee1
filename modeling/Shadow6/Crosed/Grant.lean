import Shadow6.Crosed.Decode

/-!
# `Crosed.Grant` — Core-Go evaluates a Crosed request

`handleCrosedRequest` of `Core-Go/crosed.go` with the replay store of `Core-Go/crosed_replay.go`. The function reads
two files, checks the request and its signature, collects the capabilities it can grant into the response it will
return, checks the domains, commits the nonce and only then grants. Each `return` on the way is an `Exit`: the
response as it stands there and the error, if there is one.

A grant carries only what was requested, verified, allowed and committed. A refusal through `denied` is empty, but
three error returns come after capabilities have been collected and hand them back: a capability listed twice, an
invalid domain in an isolated build, and a nonce that cannot be committed.
-/

namespace Shadow6.Crosed

open Library Json Portable List SignatureScheme

namespace Go

/-! ## The build, the response -/

/-- What the build fixes: `compiledCrosedLevel()`, `compiledAppTransport()`, `compiledQubesIsolation()`. -/
structure Build where
  level : Nat
  appTransport : Bool
  qubesIsolation : Bool

/-- `Status`. -/
inductive Status where
  | denied
  | granted
deriving DecidableEq, Repr

/-- `CrosedResponse`, without the feature report. -/
structure CrosedResponse where
  modId : Text := []
  grantedLevel : Int := 0
  grantedCapabilities : List Text := []
  status : Status := .denied
  reason : String := ""
deriving DecidableEq

/-- A `return`: the response and the error. -/
structure Exit where
  response : CrosedResponse
  err : Option String
deriving DecidableEq

/-- `return denied(response, reason)`. -/
def denied (response : CrosedResponse) (reason : String) : Exit :=
  ⟨{ response with status := .denied, reason, grantedLevel := 0, grantedCapabilities := [] }, none⟩

/-- `return response, errors.New(text)`. -/
def failed (response : CrosedResponse) (text : String) : Exit := ⟨response, some text⟩

/-- `crosedCapabilityLevels`. -/
def crosedCapabilityLevels : List (Text × Int) :=
  [("observe.version", 1), ("observe.health", 1), ("policy.request", 2), ("policy.config", 2),
    ("transport.metadata", 3), ("transport.application", 3), ("identity.assert", 4), ("identity.resolve", 4),
    ("core.lifecycle", 5), ("core.hook", 5)]

/-! ## Files and fields -/

/-- `readOwnerOnlyFile(path, limit)`: `none` is a file that cannot be read or is not the owner's alone. -/
def readOwnerOnlyFile (file : Option Bytes) (limit : Nat) : Except String Bytes :=
  match file with
  | none => .error "Crosed file must be regular and mode 0600"
  | some data => if limit < data.length then .error "Crosed file exceeds size limit" else .ok data

/-- `validIdentity(value)`. -/
def validIdentity (value : Text) : Bool :=
  decide (1 ≤ (utf8 value).length ∧ (utf8 value).length ≤ 64) &&
    value.all fun c => c.isLower || c.isUpper || c.isDigit || c == '-' || c == '_' || c == '.'

/-- `validCrosedDomain(value)`. -/
def validCrosedDomain (value : Text) : Bool :=
  decide (1 ≤ (utf8 value).length ∧ (utf8 value).length ≤ 32) &&
    (value.take 1).all Char.isLower && (value.drop 1).all fun c => c.isLower || c.isDigit || c == '-'

/-- `parsePublicKey(value)`. -/
def parsePublicKey (value : Text) : Except String Bytes :=
  match readHexText value with
  | none => .error "invalid public-key hex"
  | some decoded => if decoded.length ≠ 32 then .error "public key must be 32 bytes" else .ok decoded

/-! ## The replay store -/

/-- The directory beside the trust store: its entries with their modification times, and how the file system
    answers. -/
structure ReplayStore where
  entries : List (Bytes × Int) := []
  /-- it exists or can be made, has the right owner and mode, and can be listed -/
  usable : Bool := true
  /-- which entries can be removed -/
  removable : Bytes → Bool := fun _ => true
  /-- a new entry can be created, written and closed -/
  writable : Bool := true
  /-- the time stamped on a new entry -/
  clock : Int := 0

/-- `crosedReplayPrune(path, now)`: the entries left, and whether a slot is free. -/
def crosedReplayPrune (store : ReplayStore) (now : Int) : ReplayStore × Bool :=
  if store.entries.length < 4096 then (store, true)
  else
    let live := store.entries.filter fun e => !(decide (e.2 < now - 600) && store.removable e.1)
    ({ store with entries := live }, decide (live.length < 4096))

/-- `crosedReplayRetain(path, digest, now)`. -/
def crosedReplayRetain (store : ReplayStore) (digest : Bytes) (now : Int) : ReplayStore × Except String Bool :=
  if now ≤ 0 ∨ digest.length ≠ 32 ∨ !store.usable then
    (store, .error "Crosed replay store must be an owner-controlled directory")
  else
    let (store, free) := crosedReplayPrune store now
    if !free then (store, .error "Crosed replay store is saturated")
    else if (store.entries.map Prod.fst).contains digest then (store, .ok false)
    else if !store.writable then (store, .error "cannot write the replay entry")
    else ({ store with entries := store.entries ++ [(digest, store.clock)] }, .ok true)

/-- `crosedReplayKey(modID, nonce)`. -/
def crosedReplayKey (sha256 : Bytes → Bytes) (modId nonce : Text) : Bytes := sha256 (utf8 (modId ++ '\n' :: nonce))

/-- `reserveCrosedNonce(trustPath, modID, nonce, now)`. -/
def reserveCrosedNonce (sha256 : Bytes → Bytes) (store : ReplayStore) (modId nonce : Text) (now : Int) :
    ReplayStore × Except String Unit :=
  match crosedReplayRetain store (crosedReplayKey sha256 modId nonce) now with
  | (store, .error _) => (store, .error "Crosed replay state unavailable")
  | (store, .ok false) => (store, .error "replayed Crosed request")
  | (store, .ok true) => (store, .ok ())

/-! ## `handleCrosedRequest` -/

/-- What a call finds: the two files, the clock, the replay store. -/
structure Call where
  requestFile : Option Bytes
  trustFile : Option Bytes
  now : Int
  store : ReplayStore

section

variable (nfc : Text → Text) (sha256 : Bytes → Bytes) (verify : (pub message signature : Bytes) → Bool)
variable (build : Build) (request : CrosedRequest)

/-- The two documents. -/
def readDocuments (call : Call) : Except String (CrosedRequest × CrosedTrust) := do
  let requestData ← readOwnerOnlyFile call.requestFile 65536
  let trustData ← readOwnerOnlyFile call.trustFile 65536
  let request ← decodeStrict nfc requestType decodeRequest requestData
  let trust ← decodeStrict nfc trustType decodeTrust trustData
  .ok (request, trust)

/-- The checks up to the signature; `response` names the Mod. -/
def authenticate (trust : CrosedTrust) (now : Int) (response : CrosedResponse) : Except Exit CrosedTrustEntry :=
  if request.version ≠ 1 ∨ !validIdentity request.modId ∨ (readHexText request.nonce).map length ≠ some 16 then
    .error (failed response "invalid Crosed request fields")
  else if request.requestedLevel < 1 ∨ 5 < request.requestedLevel ∨ request.issuedAt < now - 300 ∨
      now + 300 < request.issuedAt then
    .error (failed response "invalid Crosed level or request timestamp")
  else match trust.mods.lookup request.modId with
  | none => .error (failed response "untrusted Crosed mod")
  | some policy =>
    if policy.maxLevel < 1 ∨ 5 < policy.maxLevel ∨ policy.maxLevel < request.requestedLevel then
      .error (denied response "requested level exceeds the per-Mod policy")
    else match parsePublicKey policy.pubKey with
    | .error e => .error (failed response e)
    | .ok key =>
      match readHexText request.signature, crosedSignedPayload nfc sha256 request with
      | some signature, some payload =>
        if signature.length = 64 ∧ verify key payload signature then .ok policy
        else .error (failed response "invalid Crosed request signature")
      | _, _ => .error (failed response "invalid Crosed request signature")

variable (policy : CrosedTrustEntry)

/-- The loop over the requested capabilities: `seen` are those before, `response` has those collected. -/
def collect : List Text → List Text → CrosedResponse → Except Exit CrosedResponse
  | [], _, response => .ok response
  | capability :: rest, seen, response =>
    if capability ∈ seen then .error (failed response "duplicate Crosed capability")
    else match crosedCapabilityLevels.lookup capability with
    | none => .error (denied response "capability unavailable at requested level or build")
    | some required =>
      if capability ∉ policy.capabilities ∨ request.requestedLevel < required ∨
          (capability = "transport.application" ∧ build.appTransport = false) then
        .error (denied response "capability unavailable at requested level or build")
      else collect rest (capability :: seen)
        { response with grantedCapabilities := response.grantedCapabilities ++ [capability] }

/-- The domains of a request: both omitted stand for the default one. -/
def domains : Text × Text :=
  if request.sourceDomain = [] ∧ request.targetDomain = [] then ("default", "default")
  else (request.sourceDomain, request.targetDomain)

/-- The domain policy of an isolated build. -/
def checkDomains (response : CrosedResponse) : Except Exit Unit :=
  if !build.qubesIsolation then .ok ()
  else
    let (source, target) := domains request
    if !validCrosedDomain source ∨ !validCrosedDomain target then
      .error (failed response "Qubes isolation requires valid source and target domains")
    else if source ≠ target ∧ target ∉ policy.allowedDomains then
      .error (denied response "Qubes cross-domain policy denied")
    else .ok ()

/-- The highest level the granted capabilities cover. -/
def coveredLevel (capabilities : List Text) : Int :=
  capabilities.foldl (fun granted capability =>
    let level := (crosedCapabilityLevels.lookup capability).getD 0
    if granted < level then level else granted) 0

/-- From the verified request to the point where only the nonce is left to commit. -/
def evaluate (response : CrosedResponse) : Except Exit CrosedResponse :=
  if (build.level : Int) < request.requestedLevel then
    .error (denied response "requested level exceeds this Core build")
  else match collect build request policy request.capabilities [] response with
  | .error exit => .error exit
  | .ok response =>
    match checkDomains build request policy response with
    | .error exit => .error exit
    | .ok () =>
      if request.capabilities = [] ∨ response.grantedCapabilities = [] then
        .error (denied response "no requested capability is granted")
      else if coveredLevel response.grantedCapabilities < request.requestedLevel then
        .error (denied response "granted capabilities do not cover the requested level")
      else .ok response

/-- The response of a grant. -/
def grantOf (response : CrosedResponse) : Exit :=
  ⟨{ response with grantedCapabilities := sortDown stringAfter response.grantedCapabilities
                   grantedLevel := request.requestedLevel
                   status := .granted
                   reason := "" }, none⟩

/-- `handleCrosedRequest` from the verified request on: what it returns, and the replay store it leaves. -/
def settle (now : Int) (store : ReplayStore) : Exit × ReplayStore :=
  match evaluate build request policy { modId := request.modId } with
  | .error exit => (exit, store)
  | .ok response =>
    match reserveCrosedNonce sha256 store request.modId request.nonce now with
    | (store, .error e) => (failed response e, store)
    | (store, .ok ()) => (grantOf request response, store)

/-- `handleCrosedRequest` from the two documents on. -/
def answer (documents : Except String (CrosedRequest × CrosedTrust)) (now : Int) (store : ReplayStore) :
    Exit × ReplayStore :=
  match documents with
  | .error e => (failed {} e, store)
  | .ok (request, trust) =>
    match authenticate nfc sha256 verify request trust now { modId := request.modId } with
    | .error exit => (exit, store)
    | .ok policy => settle sha256 build request policy now store

/-- `handleCrosedRequest(requestPath, trustPath, now)`. -/
def handleCrosedRequest (call : Call) : Exit × ReplayStore :=
  if build.level = 0 then (denied {} "crosed is not compiled into this core", call.store)
  else answer nfc sha256 verify build (readDocuments nfc call) call.now call.store

end

/-- The documents in two files of UTF-8 text within the limit. -/
theorem readDocuments_utf8 {nfc : Text → Text} {r t : Text} (now : Int) (sto : ReplayStore)
    (hreq : (utf8 r).length ≤ 65536) (htrust : (utf8 t).length ≤ 65536) :
    readDocuments nfc ⟨some (utf8 r), some (utf8 t), now, sto⟩ = (do
      let request ← validateText nfc (some requestType) r >>= decodeRequest
      let tr ← validateText nfc (some trustType) t >>= decodeTrust
      .ok (request, tr)) := by
  have hlim : 65536 ≤ 1048576 := by decide
  have hrd : ∀ {data : Bytes}, data.length ≤ 65536 → readOwnerOnlyFile (some data) 65536 = .ok data := by
    intro data hdt
    rw [readOwnerOnlyFile, if_neg (not_lt.mpr hdt)]
  have hdec : ∀ {α : Type} {tg : GoType} {decode : Json → Except String α} {text : Text},
      (utf8 text).length ≤ 65536 →
      decodeStrict nfc tg decode (utf8 text) = validateText nfc (some tg) text >>= decode := by
    intro α tg decode text htext
    rw [decodeStrict, validateStrictJSON_utf8 (htext.trans hlim)]
    cases validateText nfc (some tg) text <;> rfl
  unfold readDocuments
  rw [hrd hreq, hrd htrust]
  show (decodeStrict nfc requestType decodeRequest (utf8 r) >>= fun request =>
    decodeStrict nfc trustType decodeTrust (utf8 t) >>= fun tr => .ok (request, tr)) = _
  rw [hdec hreq, hdec htrust]

/-! ## What a grant has passed -/

/-- An exit that grants nothing. -/
structure Exit.Empty (exit : Exit) : Prop where
  status : exit.response.status = .denied
  capabilities : exit.response.grantedCapabilities = []
  level : exit.response.grantedLevel = 0

theorem denied_empty (response : CrosedResponse) (r : String) : (denied response r).Empty := ⟨rfl, rfl, rfl⟩

theorem failed_empty (modId : Text) (text : String) : (failed { modId } text).Empty := ⟨rfl, rfl, rfl⟩

variable {exit : Exit}

section

variable {nfc : Text → Text} {sh : Bytes → Bytes} {vf : (pub message sg : Bytes) → Bool}
variable {build : Build} {request : CrosedRequest} {t : CrosedTrust} {policy : CrosedTrustEntry} {now : Int}

/-- The request is well formed, of a trusted Mod, in time, within the Mod's level, and its signature verifies. -/
structure Verified (nfc : Text → Text) (sha256 : Bytes → Bytes) (verify : (pub message signature : Bytes) → Bool)
    (request : CrosedRequest) (trust : CrosedTrust) (policy : CrosedTrustEntry) (now : Int) : Prop where
  fields : request.version = 1 ∧ validIdentity request.modId = true ∧
    (readHexText request.nonce).map length = some 16
  trusted : trust.mods.lookup request.modId = some policy
  window : now - 300 ≤ request.issuedAt ∧ request.issuedAt ≤ now + 300
  level : 1 ≤ request.requestedLevel ∧ request.requestedLevel ≤ policy.maxLevel ∧ policy.maxLevel ≤ 5
  signed : ∃ key signature payload, parsePublicKey policy.pubKey = .ok key ∧
    readHexText request.signature = some signature ∧ crosedSignedPayload nfc sha256 request = some payload ∧
    signature.length = 64 ∧ verify key payload signature = true

variable {response : CrosedResponse}

/-- The checks accept exactly the verified requests. -/
theorem authenticate_ok_iff :
    authenticate nfc sh vf request t now response = .ok policy ↔ Verified nfc sh vf request t policy now := by
  constructor
  · intro h
    unfold authenticate at h
    split_ifs at h with hfields htime
    split at h
    · cases h
    rename_i policy' hpolicy
    split_ifs at h with hlevel
    split at h
    · cases h
    rename_i key hkey
    split at h
    · rename_i signature payload hsignature hpayload
      split_ifs at h with hverify
      cases h
      simp only [not_or, not_lt, not_not, Bool.not_eq_true', Bool.not_eq_false] at hfields htime hlevel
      exact ⟨hfields, hpolicy, htime.2.2, ⟨htime.1, hlevel.2.2, hlevel.2.1⟩,
        key, signature, payload, hkey, hsignature, hpayload, hverify⟩
    · cases h
  · rintro ⟨⟨hversion, hmod, hnonce⟩, htrusted, hwindow, hlevel, key, signature, payload, hkey, hsignature, hpayload,
      hverify⟩
    rw [authenticate, if_neg (by simp [hversion, hmod, hnonce]), if_neg (by omega), htrusted]
    dsimp only
    rw [if_neg (by omega), hkey]
    dsimp only
    rw [hsignature, hpayload]
    exact if_pos hverify

theorem authenticate_error
    (h : authenticate nfc sh vf request t now { modId := request.modId } = .error exit) : exit.Empty := by
  unfold authenticate at h
  split_ifs at h
  · cases h; exact failed_empty _ _
  · cases h; exact failed_empty _ _
  split at h
  · cases h; exact failed_empty _ _
  split_ifs at h
  · cases h; exact denied_empty _ _
  split at h
  · cases h; exact failed_empty _ _
  split at h
  · split_ifs at h
    cases h; exact failed_empty _ _
  · cases h; exact failed_empty _ _

section

variable (build request policy)

/-- What a capability must meet to be granted. -/
structure Allowed (capability : Text) : Prop where
  listed : capability ∈ policy.capabilities
  level : ∃ required, crosedCapabilityLevels.lookup capability = some required ∧ required ≤ request.requestedLevel
  transport : capability = "transport.application" → build.appTransport = true

/-- The capabilities that the loop collects: none twice, all allowed. -/
def Collected (capabilities : List Text) : Prop :=
  capabilities.Nodup ∧ ∀ c ∈ capabilities, Allowed build request policy c

/-- One round of the loop finds the capability listed twice, or leaves through `denied` because it is not allowed, or
    collects it. -/
theorem collect_cons (cap : Text) (rs sn : List Text) (response : CrosedResponse) :
    (cap ∈ sn ∧ collect build request policy (cap :: rs) sn response
      = .error (failed response "duplicate Crosed capability")) ∨
    (¬ Allowed build request policy cap ∧
      ∃ r, collect build request policy (cap :: rs) sn response = .error (denied response r)) ∨
    (cap ∉ sn ∧ Allowed build request policy cap ∧
      collect build request policy (cap :: rs) sn response
        = collect build request policy rs (cap :: sn)
            { response with grantedCapabilities := response.grantedCapabilities ++ [cap] }) := by
  by_cases hseen : cap ∈ sn
  · exact .inl ⟨hseen, by rw [collect, if_pos hseen]⟩
  right
  rw [collect, if_neg hseen]
  cases hlev : crosedCapabilityLevels.lookup cap with
  | none =>
    refine .inl ⟨fun h => ?_, _, rfl⟩
    obtain ⟨required, hsome, -⟩ := h.level
    cases hlev.symm.trans hsome
  | some required =>
    dsimp only
    split_ifs with hbad
    · refine .inl ⟨fun h => ?_, _, rfl⟩
      obtain ⟨required', hsome, hle⟩ := h.level
      cases hlev.symm.trans hsome
      rcases hbad with hnot | hlt | ⟨happ, hoff⟩
      · exact hnot h.listed
      · exact absurd hlt (not_lt.mpr hle)
      · cases hoff.symm.trans (h.transport happ)
    · simp only [not_or, not_not, not_lt, not_and, Bool.not_eq_false] at hbad
      exact .inr ⟨hseen, ⟨hbad.1, ⟨required, hlev, hbad.2.1⟩, hbad.2.2⟩, rfl⟩

end

section

variable {modId : Text} {cs ds : List Text}

theorem Collected.nil : Collected build request policy [] := ⟨nodup_nil, forall_mem_nil _⟩

theorem Collected.concat {c : Text} (h : Collected build request policy ds) (hnew : c ∉ ds.reverse)
    (hallowed : Allowed build request policy c) : Collected build request policy (ds ++ [c]) := by
  refine ⟨nodup_append.mpr ⟨h.1, nodup_singleton c, ?_⟩, ?_⟩
  · rintro a ha b hb rfl
    rw [mem_singleton.mp hb] at ha
    exact hnew (mem_reverse.mpr ha)
  · exact forall_mem_append.mpr ⟨h.2, forall_mem_singleton.mpr hallowed⟩

/-- The loop goes on past what it collects; `ds` are collected already. -/
theorem collect_append (modId : Text) (ds rs : List Text) (h : Collected build request policy (ds ++ cs)) :
    collect build request policy (cs ++ rs) ds.reverse { modId, grantedCapabilities := ds }
      = collect build request policy rs (ds ++ cs).reverse
          { modId, grantedCapabilities := ds ++ cs } := by
  induction cs generalizing ds with
  | nil => simp
  | cons c cs ih =>
    rw [append_cons] at h ⊢
    have hnew : c ∉ ds.reverse := by
      rw [mem_reverse]
      intro hmem
      exact (nodup_append.mp (nodup_append.mp h.1).1).2.2 c hmem c (mem_singleton_self c) rfl
    have hallowed : Allowed build request policy c := h.2 c (by simp)
    rcases collect_cons build request policy c (cs ++ rs) ds.reverse { modId, grantedCapabilities := ds } with
      ⟨hdup, -⟩ | ⟨hnot, -⟩ | ⟨-, -, heq⟩
    · exact absurd hdup hnew
    · exact absurd hallowed hnot
    · rw [cons_append, heq, ← ih _ h, reverse_append]
      rfl

/-- What the loop hands on is collected, and nothing else of the response has changed. -/
theorem collect_ok {response' : CrosedResponse} (hds : Collected build request policy ds)
    (h : collect build request policy cs ds.reverse { modId, grantedCapabilities := ds } = .ok response') :
    Collected build request policy (ds ++ cs) ∧
      response' = { modId, grantedCapabilities := ds ++ cs } := by
  induction cs generalizing ds with
  | nil =>
    cases h
    rw [append_nil]
    exact ⟨hds, rfl⟩
  | cons c cs ih =>
    rcases collect_cons build request policy c cs ds.reverse { modId, grantedCapabilities := ds } with
      ⟨-, heq⟩ | ⟨-, r, heq⟩ | ⟨hnew, hallowed, heq⟩ <;> rw [heq] at h
    · cases h
    · cases h
    · rw [append_cons]
      exact ih (hds.concat hnew hallowed) (by rw [reverse_append]; exact h)

/-- The loop leaves through `denied`, or at a capability that stands among those collected before it. -/
theorem collect_error (hds : Collected build request policy ds)
    (h : collect build request policy cs ds.reverse { modId, grantedCapabilities := ds } = .error exit) :
    exit.Empty ∨ ∃ before c after, ds ++ cs = before ++ c :: after ∧ Collected build request policy before ∧
      c ∈ before := by
  induction cs generalizing ds with
  | nil => cases h
  | cons c cs ih =>
    rcases collect_cons build request policy c cs ds.reverse { modId, grantedCapabilities := ds } with
      ⟨hdup, heq⟩ | ⟨-, r, heq⟩ | ⟨hnew, hallowed, heq⟩ <;> rw [heq] at h
    · exact .inr ⟨ds, c, cs, rfl, hds, mem_reverse.mp hdup⟩
    · cases h
      exact .inl (denied_empty _ _)
    · rw [append_cons]
      exact ih (hds.concat hnew hallowed) (by rw [reverse_append]; exact h)

end

section

variable (build request policy)

/-- Both domains of the request are names. -/
def DomainsValid : Prop :=
  validCrosedDomain (domains request).1 = true ∧ validCrosedDomain (domains request).2 = true

/-- The domain policy of an isolated build lets the request pass. -/
def DomainsAllowed : Prop :=
  build.qubesIsolation = true →
    DomainsValid request ∧ ((domains request).1 = (domains request).2 ∨ (domains request).2 ∈ policy.allowedDomains)

/-- The domains are allowed; or they are not names, and the response goes back as it is; or they are denied. -/
theorem checkDomains_cases (response : CrosedResponse) :
    (DomainsAllowed build request policy ∧ checkDomains build request policy response = .ok ()) ∨
    (build.qubesIsolation = true ∧ ¬ DomainsValid request ∧
      ∃ text, checkDomains build request policy response = .error (failed response text)) ∨
    (build.qubesIsolation = true ∧ DomainsValid request ∧ ¬ DomainsAllowed build request policy ∧
      ∃ r, checkDomains build request policy response = .error (denied response r)) := by
  unfold checkDomains DomainsAllowed DomainsValid
  dsimp only
  split_ifs with hoff hbad hcross
  · exact .inl ⟨fun h => by simp [h] at hoff, rfl⟩
  · refine .inr (.inl ⟨by simpa using hoff, fun h => ?_, _, rfl⟩)
    simp [h] at hbad
  · simp only [not_or, Bool.not_eq_true', Bool.not_eq_false] at hbad
    refine .inr (.inr ⟨by simpa using hoff, hbad, fun h => ?_, _, rfl⟩)
    exact (h (by simpa using hoff)).2.elim hcross.1 hcross.2
  · simp only [not_or, Bool.not_eq_true', Bool.not_eq_false] at hbad
    exact .inl ⟨fun _ => ⟨hbad, by tauto⟩, rfl⟩

/-- **The request passes the evaluation**: only the nonce is left to commit. -/
structure Passes : Prop where
  level : request.requestedLevel ≤ build.level
  collected : Collected build request policy request.capabilities
  domains : DomainsAllowed build request policy
  some : request.capabilities ≠ []
  covered : request.requestedLevel ≤ coveredLevel request.capabilities

/-- **The late errors of the evaluation**: after capabilities have been collected, one of them is listed again, or
    the domains of an isolated build turn out not to be names. -/
inductive FailsLate : Prop where
  | duplicate (before after : List Text) (c : Text) (heq : request.capabilities = before ++ c :: after)
      (hbefore : Collected build request policy before) (hmem : c ∈ before)
  | domains (hall : Collected build request policy request.capabilities) (hsome : request.capabilities ≠ [])
      (hisolated : build.qubesIsolation = true) (hinvalid : ¬ DomainsValid request)

end

variable {modId : Text}

/-- The loop over all that is requested. -/
theorem collect_collected (h : Collected build request policy request.capabilities) :
    collect build request policy request.capabilities [] { modId }
      = .ok { modId, grantedCapabilities := request.capabilities } := by
  have happend := collect_append modId [] [] h
  rwa [append_nil] at happend

/-- The evaluation lets exactly those requests pass. -/
theorem evaluate_ok_iff : evaluate build request policy { modId } = .ok response ↔
    Passes build request policy ∧ response = { modId, grantedCapabilities := request.capabilities } := by
  constructor
  · intro h
    unfold evaluate at h
    split_ifs at h with hlevel
    split at h
    · cases h
    rename_i collected hcollect
    obtain ⟨hall, rfl⟩ := collect_ok Collected.nil hcollect
    rcases checkDomains_cases build request policy { modId, grantedCapabilities := request.capabilities } with
      ⟨hdomains, heq⟩ | ⟨-, -, text, heq⟩ | ⟨-, -, -, r, heq⟩ <;> simp only [nil_append, heq] at h
    · split_ifs at h with hempty hcovered
      cases h
      simp only [or_self] at hempty
      exact ⟨⟨not_lt.mp hlevel, hall, hdomains, hempty, not_lt.mp hcovered⟩, rfl⟩
    · cases h
    · cases h
  · rintro ⟨⟨hlevel, hall, hdomains, hsome, hcovered⟩, rfl⟩
    rw [evaluate, if_neg (not_lt.mpr hlevel), collect_collected hall]
    rcases checkDomains_cases build request policy { modId, grantedCapabilities := request.capabilities } with
      ⟨-, heq⟩ | ⟨hon, hinvalid, -⟩ | ⟨-, -, hnot, -⟩
    · simp only [heq]
      rw [if_neg (by simpa using hsome), if_neg (not_lt.mpr hcovered)]
    · exact absurd (hdomains hon).1 hinvalid
    · exact absurd hdomains hnot

/-- An exit of the evaluation grants nothing, unless it is a late error. -/
theorem evaluate_error (h : evaluate build request policy { modId } = .error exit) :
    exit.Empty ∨ request.requestedLevel ≤ build.level ∧ FailsLate build request policy := by
  unfold evaluate at h
  split_ifs at h with hlevel
  · cases h
    exact .inl (denied_empty _ _)
  split at h
  · rename_i hcollect
    cases h
    refine (collect_error Collected.nil hcollect).imp_right ?_
    rintro ⟨before, c, after, heq, hbefore, hmem⟩
    exact ⟨not_lt.mp hlevel, .duplicate before after c heq hbefore hmem⟩
  rename_i hcollect
  obtain ⟨hall, rfl⟩ := collect_ok Collected.nil hcollect
  rcases checkDomains_cases build request policy { modId, grantedCapabilities := request.capabilities } with
    ⟨-, heq⟩ | ⟨hon, hinvalid, text, heq⟩ | ⟨-, -, -, r, heq⟩ <;> simp only [nil_append, heq] at h
  · split_ifs at h <;> cases h <;> exact .inl (denied_empty _ _)
  · cases h
    by_cases hsome : request.capabilities = []
    · exact .inl ⟨rfl, hsome, rfl⟩
    · exact .inr ⟨not_lt.mp hlevel, .domains hall hsome hon hinvalid⟩
  · cases h
    exact .inl (denied_empty _ _)

/-- A late error hands back what was collected. -/
theorem FailsLate.evaluate (h : FailsLate build request policy) (hlevel : request.requestedLevel ≤ build.level) :
    ∃ exit, evaluate build request policy { modId } = .error exit ∧ exit.response.status = .denied ∧
      exit.response.grantedCapabilities ≠ [] := by
  unfold Go.evaluate
  rw [if_neg (not_lt.mpr hlevel)]
  cases h with
  | duplicate before after c heq hbefore hmem =>
    have hcollect := collect_append modId [] (c :: after) hbefore
    rw [nil_append, ← heq] at hcollect
    rw [show collect build request policy request.capabilities [] { modId } = _ from hcollect, collect,
      if_pos (mem_reverse.mpr hmem)]
    exact ⟨_, rfl, rfl, ne_nil_of_mem hmem⟩
  | domains hall hsome hisolated hinvalid =>
    rw [collect_collected hall]
    rcases checkDomains_cases build request policy { modId, grantedCapabilities := request.capabilities } with
      ⟨hallowed, -⟩ | ⟨-, -, text, heq⟩ | ⟨-, hvalid, -⟩
    · exact absurd (hallowed hisolated).1 hinvalid
    · simp only [heq]
      exact ⟨_, rfl, rfl, hsome⟩
    · exact absurd hvalid hinvalid

/-- A reserved nonce stands in the store. -/
theorem reserveCrosedNonce_ok {sto sto' : ReplayStore} {m non : Text}
    (h : reserveCrosedNonce sh sto m non now = (sto', .ok ())) :
    crosedReplayKey sh m non ∈ sto'.entries.map Prod.fst := by
  unfold reserveCrosedNonce at h
  split at h
  · cases h
  · cases h
  rename_i hret
  cases h
  unfold crosedReplayRetain at hret
  dsimp only at hret
  split_ifs at hret <;> cases hret
  simp

end

/-! ## Soundness of the grant -/

section

variable (nfc : Text → Text) (sha256 : Bytes → Bytes) (verify : (pub message signature : Bytes) → Bool) (build : Build)

/-- **A sound grant**: there is a request in the file that was verified and in time, its nonce is committed, and
    every granted capability was requested, is within the level of the build and allowed by the policy of the Mod
    and of the domains. -/
def SoundGrant (call : Call) (result : Exit × ReplayStore) : Prop :=
  ∃ request trust policy, readDocuments nfc call = .ok (request, trust) ∧
    Verified nfc sha256 verify request trust policy call.now ∧
    crosedReplayKey sha256 request.modId request.nonce ∈ result.2.entries.map Prod.fst ∧
    result.1.err = none ∧ result.1.response.modId = request.modId ∧
    result.1.response.grantedLevel = request.requestedLevel ∧ request.requestedLevel ≤ build.level ∧
    DomainsAllowed build request policy ∧
    ∀ c ∈ result.1.response.grantedCapabilities, c ∈ request.capabilities ∧ Allowed build request policy c

/-- **The late errors**: the request fails late in the evaluation, or passes it and its nonce cannot be committed. -/
def Late (request : CrosedRequest) (policy : CrosedTrustEntry) (now : Int) (store : ReplayStore) : Prop :=
  request.requestedLevel ≤ build.level ∧ FailsLate build request policy ∨
    Passes build request policy ∧ ∃ e, (reserveCrosedNonce sha256 store request.modId request.nonce now).2 = .error e

/-- **The calls with a late error**, of a verified request. -/
def LateError (call : Call) : Prop :=
  ∃ request trust policy, readDocuments nfc call = .ok (request, trust) ∧
    Verified nfc sha256 verify request trust policy call.now ∧ Late sha256 build request policy call.now call.store

end

section

variable {nfc : Text → Text} {sha256 : Bytes → Bytes} {verify : (pub message signature : Bytes) → Bool}
variable {build : Build} {call : Call} {request : CrosedRequest} {trust : CrosedTrust} {policy : CrosedTrustEntry}

variable (nfc sha256 verify build call) in
/-- A call that does not get to a verified request ends with an empty response. -/
theorem handleCrosedRequest_cases :
    (handleCrosedRequest nfc sha256 verify build call).1.Empty ∨
    ∃ request trust policy, readDocuments nfc call = .ok (request, trust) ∧
      Verified nfc sha256 verify request trust policy call.now ∧
      handleCrosedRequest nfc sha256 verify build call = settle sha256 build request policy call.now call.store := by
  unfold handleCrosedRequest
  split_ifs
  · exact .inl (denied_empty _ _)
  unfold answer
  cases hread : readDocuments nfc call with
  | error e => exact .inl (failed_empty _ _)
  | ok documents =>
    obtain ⟨request, trust⟩ := documents
    dsimp only
    cases hauth : authenticate nfc sha256 verify request trust call.now { modId := request.modId } with
    | error exit => exact .inl (authenticate_error hauth)
    | ok policy => exact .inr ⟨request, trust, policy, rfl, authenticate_ok_iff.mp hauth, rfl⟩

theorem handleCrosedRequest_verified (hread : readDocuments nfc call = .ok (request, trust))
    (h : Verified nfc sha256 verify request trust policy call.now) (hlevel : request.requestedLevel ≤ build.level) :
    handleCrosedRequest nfc sha256 verify build call = settle sha256 build request policy call.now call.store := by
  have hone := h.level.1
  rw [handleCrosedRequest, if_neg (by omega), hread]
  unfold answer
  dsimp only
  rw [authenticate_ok_iff.mpr h]

section

variable {now : Int} {store : ReplayStore}

/-- The ways a verified request can end: with an empty response, with a late error, or with a grant. -/
theorem settle_cases : (settle sha256 build request policy now store).1.Empty ∨
    Late sha256 build request policy now store ∨
    Passes build request policy ∧ ∃ store',
      reserveCrosedNonce sha256 store request.modId request.nonce now = (store', .ok ()) ∧
      settle sha256 build request policy now store =
        (grantOf request { modId := request.modId, grantedCapabilities := request.capabilities }, store') := by
  unfold settle
  cases hevaluate : evaluate build request policy { modId := request.modId } with
  | error exit => exact (evaluate_error hevaluate).imp_right fun hlate => .inl (.inl hlate)
  | ok response =>
    obtain ⟨hpasses, rfl⟩ := evaluate_ok_iff.mp hevaluate
    cases hreserve : reserveCrosedNonce sha256 store request.modId request.nonce now with
    | mk store' o =>
      cases o with
      | error e => exact .inr (.inl (.inr ⟨hpasses, e, by rw [hreserve]⟩))
      | ok u => exact .inr (.inr ⟨hpasses, store', rfl, rfl⟩)

/-- A late error is a refusal that carries capabilities. -/
theorem Late.carries (h : Late sha256 build request policy now store) :
    (settle sha256 build request policy now store).1.response.status = .denied ∧
      (settle sha256 build request policy now store).1.response.grantedCapabilities ≠ [] := by
  unfold settle
  rcases h with ⟨hlevel, hlate⟩ | ⟨hpasses, e, hreserve⟩
  · obtain ⟨exit, heq, hcarries⟩ := hlate.evaluate hlevel
    rw [heq]
    exact hcarries
  · rw [evaluate_ok_iff.mpr ⟨hpasses, rfl⟩]
    cases hstore : reserveCrosedNonce sha256 store request.modId request.nonce now with
    | mk store' o =>
      rw [hstore] at hreserve
      cases hreserve
      exact ⟨rfl, hpasses.some⟩

theorem Late.level (h : Late sha256 build request policy now store) : request.requestedLevel ≤ build.level :=
  h.elim (fun h => h.1) fun h => h.1.level

end

theorem Exit.Empty.not_granted (h : exit.Empty) : exit.response.status ≠ .granted := by
  rw [h.status]
  decide

/-- So is what a call with a late error returns. -/
theorem LateError.carries (h : LateError nfc sha256 verify build call) :
    (handleCrosedRequest nfc sha256 verify build call).1.response.status = .denied ∧
      (handleCrosedRequest nfc sha256 verify build call).1.response.grantedCapabilities ≠ [] := by
  obtain ⟨request, trust, policy, hread, hverified, hlate⟩ := h
  rw [handleCrosedRequest_verified hread hverified hlate.level]
  exact hlate.carries

variable (nfc sha256 verify build call) in
/-- The ways a call can end. -/
theorem handleCrosedRequest_ends :
    (handleCrosedRequest nfc sha256 verify build call).1.Empty ∨ LateError nfc sha256 verify build call ∨
    (handleCrosedRequest nfc sha256 verify build call).1.response.status = .granted ∧
      SoundGrant nfc sha256 verify build call (handleCrosedRequest nfc sha256 verify build call) := by
  rcases handleCrosedRequest_cases nfc sha256 verify build call with
    hempty | ⟨request, trust, policy, hread, hverified, heq⟩
  · exact .inl hempty
  rw [heq]
  rcases settle_cases with hempty | hlate | ⟨hpasses, store, hreserve, hgrant⟩
  · exact .inl hempty
  · exact .inr (.inl ⟨request, trust, policy, hread, hverified, hlate⟩)
  rw [hgrant]
  refine .inr (.inr ⟨rfl, request, trust, policy, hread, hverified, reserveCrosedNonce_ok hreserve, rfl, rfl, rfl,
    hpasses.level, hpasses.domains, fun c hc => ?_⟩)
  have hmem : c ∈ request.capabilities := (sortDown_perm _ _).mem_iff.mp hc
  exact ⟨hmem, hpasses.collected.2 c hmem⟩

/-- **Soundness of the grant.** A granted status comes with a sound grant, whatever the call; and every other outcome,
    error returns included, carries no capability and level 0 exactly if the call has no late error. -/
theorem grant_sound (nfc : Text → Text) (sha256 : Bytes → Bytes) (verify : (pub message signature : Bytes) → Bool)
    (build : Build) (call : Call) : ((handleCrosedRequest nfc sha256 verify build call).1.response.status = .granted →
      SoundGrant nfc sha256 verify build call (handleCrosedRequest nfc sha256 verify build call)) ∧
    (((handleCrosedRequest nfc sha256 verify build call).1.response.status ≠ .granted →
      (handleCrosedRequest nfc sha256 verify build call).1.response.grantedCapabilities = [] ∧
        (handleCrosedRequest nfc sha256 verify build call).1.response.grantedLevel = 0) ↔
      ¬ LateError nfc sha256 verify build call) := by
  have hends := handleCrosedRequest_ends nfc sha256 verify build call
  refine ⟨?_, ?_, ?_⟩
  · intro hgranted
    rcases hends with hempty | hlate | ⟨-, hsound⟩
    · exact absurd hgranted hempty.not_granted
    · cases hlate.carries.1.symm.trans hgranted
    · exact hsound
  · intro hempty hlate
    exact hlate.carries.2 (hempty (by rw [hlate.carries.1]; decide)).1
  · intro hnot hrefused
    rcases hends with hempty | hlate | ⟨hgranted, -⟩
    · exact ⟨hempty.capabilities, hempty.level⟩
    · exact absurd hlate hnot
    · exact absurd hgranted hrefused

end

/-! ## Runs of the handler -/

/-- A digest that a model can be run with. -/
def sampleSha (bs : Bytes) : Bytes := toBE 32 (ofBE bs % (2 ^ 251 - 1))

def sampleSecret : Bytes := [7]

/-- A request of the Mod `mod` at level 1 with an empty payload, issued at time 1000, before it is signed. -/
def unsignedRequest (capabilities : List Text) : CrosedRequest where
  version := 1
  modId := "mod"
  nonce := hexText (replicate 16 1)
  issuedAt := 1000
  requestedLevel := 1
  capabilities
  payload := some (.obj [])

/-- The text of the request file: the signed request as a JSON document. -/
def sampleRequest (capabilities : List Text) : Text :=
  let request := unsignedRequest capabilities
  let signature := checksum.sign sampleSecret ((crosedSignedPayload id sampleSha request).getD [])
  render Python.escapeAscii (.obj [("version", .int request.version), ("mod_id", .str request.modId),
    ("nonce", .str request.nonce), ("issued_at", .int request.issuedAt),
    ("requested_level", .int request.requestedLevel), ("capabilities", .arr (request.capabilities.map Json.str)),
    ("payload", .obj []), ("signature", .str (hexText signature))])

/-- The text of the trust file: the Mod may have `observe.version` at level 1. -/
def sampleTrust : Text :=
  render Python.escapeAscii (.obj [("mods", .obj [("mod", .obj [
    ("pubkey", .str (hexText (checksum.publicKey sampleSecret))), ("max_level", .int 1),
    ("capabilities", .arr [.str "observe.version"])])])])

def sampleBuild : Build := ⟨1, false, false⟩

/-- A call with the given capabilities and replay store, at the time of issue. -/
def sampleCall (capabilities : List Text) (store : ReplayStore) : Call :=
  ⟨some (utf8 (sampleRequest capabilities)), some (utf8 sampleTrust), 1000, store⟩

def sampleHandle (capabilities : List Text) (store : ReplayStore) : Exit × ReplayStore :=
  handleCrosedRequest id sampleSha checksum.verify sampleBuild (sampleCall capabilities store)

/-- The documents of a call, read from their texts. -/
def sampleDocuments (capabilities : List Text) : Except String (CrosedRequest × CrosedTrust) := do
  let request ← validateText id (some requestType) (sampleRequest capabilities) >>= decodeRequest
  let trust ← validateText id (some trustType) sampleTrust >>= decodeTrust
  .ok (request, trust)

theorem readDocuments_sample {capabilities : List Text} (h : (utf8 (sampleRequest capabilities)).length ≤ 65536)
    (store : ReplayStore) : readDocuments id (sampleCall capabilities store) = sampleDocuments capabilities :=
  readDocuments_utf8 1000 store h (by decide +kernel)

theorem sampleHandle_eq {capabilities : List Text} (h : (utf8 (sampleRequest capabilities)).length ≤ 65536)
    (store : ReplayStore) : sampleHandle capabilities store
      = answer id sampleSha checksum.verify sampleBuild (sampleDocuments capabilities) 1000 store := by
  unfold sampleHandle handleCrosedRequest
  rw [readDocuments_sample h]
  rfl

/-- The call for `observe.version` is granted and sound. -/
theorem grant_sound_sample : SoundGrant id sampleSha checksum.verify sampleBuild (sampleCall ["observe.version"] {})
    (sampleHandle ["observe.version"] {}) := by
  have hgranted : (sampleHandle ["observe.version"] {}).1.response.status = .granted := by
    rw [sampleHandle_eq (by decide +kernel)]
    decide +kernel
  unfold sampleHandle at hgranted ⊢
  exact (grant_sound id sampleSha checksum.verify sampleBuild (sampleCall ["observe.version"] {})).1 hgranted

/-- A store in which the nonce of the requests above is committed. -/
def committedStore : ReplayStore :=
  { entries := [(crosedReplayKey sampleSha "mod" (hexText (replicate 16 1)), 1000)] }

/-- **The late error returns hand back what was collected.** A capability listed twice, and a request whose nonce is
    already in the store: the status is denied, and the response carries the capability. -/
theorem refused_with_capabilities : (sampleHandle ["observe.version", "observe.version"] {}).1
      = ⟨{ modId := "mod", grantedCapabilities := ["observe.version"] },
          some "duplicate Crosed capability"⟩ ∧
    (sampleHandle ["observe.version"] committedStore).1
      = ⟨{ modId := "mod", grantedCapabilities := ["observe.version"] },
          some "replayed Crosed request"⟩ := by
  have hversion : (utf8 (sampleRequest ["observe.version"])).length ≤ 65536 := by decide +kernel
  have htwice : (utf8 (sampleRequest ["observe.version", "observe.version"])).length ≤ 65536 := by
    decide +kernel
  rw [sampleHandle_eq hversion, sampleHandle_eq htwice]
  constructor
  · decide +kernel
  · decide +kernel

end Go

end Shadow6.Crosed
