import Shadow6.Library.Base64
import Shadow6.Library.Dict
import Shadow6.Library.Fallible
import Shadow6.Library.Hex
import Shadow6.Library.Machine
import Shadow6.Library.Replay
import Shadow6.Library.Signature
import Shadow6.Portable.Documents

/-!
# `Public6.VirtualBroker` — admission to the virtual Broker

`Broker.admit`, `Broker.expire_nonces` and `Broker.datagram_payload` of `Public6/virtual_broker.py`. A signed admission
names a tenant, a nonce and the instant at which it expires. The Broker keeps the nonces it has accepted in a
dictionary, to recognise a replay, and in a heap ordered by expiry, to forget them.

The two structures hold the same entries in every reachable state, because whatever is popped from the heap is deleted
from the dictionary with it. The sweep drops an entry only when its admission has expired, and an expired admission is
refused before the dictionary is asked; so no signed admission is accepted twice.

Signature verification, HMAC-SHA-256 and Unicode normalization are parameters.
-/

namespace Shadow6.Public6

open Library Json Portable List Dict Python

/-! ## Configuration -/

/-- `approval` of a tenant. -/
inductive Approval where
  | defaultApproved
  | approvalRequired
deriving DecidableEq, Repr

/-- `Tenant`, as far as admission reads it. -/
structure Tenant where
  tenantId : Text
  publicKeys : List Bytes
  approval : Approval
deriving DecidableEq

/-- A host and a port. -/
abbrev Endpoint := Text × Nat

/-- `Config`, as far as admission reads it. -/
structure Config where
  identityKey : Bytes
  tenants : Dict Text Tenant
  routes : Dict (Text × Text) Endpoint
  approvals : List (Text × Text)
  maxFrame : Nat

/-- The third-party functions. -/
structure Primitives where
  scheme : SignatureScheme
  hmac : (key message : Bytes) → Bytes
  nfc : Text → Text

/-- `raise PermissionError(text)`. -/
def permission (text : String) : PyError := ⟨.permissionError, text⟩

/-! ## The nonce table -/

/-- `(tenant.tenant_id, nonce)`. -/
abbrev NonceKey := Text × Bytes

/-- An element of the heap: the expiry and the key. -/
abbrev Entry := Int × NonceKey

/-- The order of tuples: by expiry, then by tenant, then by nonce. -/
def Entry.rank (e : Entry) : Int ×ₗ List Nat ×ₗ List Nat :=
  toLex (e.1, toLex (codePoints e.2.1, e.2.2.map UInt8.toNat))

/-- `nonces` and `nonce_expiry`. A heap is kept as the list of its elements in the order in which `heappop` returns
    them, so `[0]` is the first. -/
structure Broker where
  nonces : Dict NonceKey Int
  nonceExpiry : List Entry

open Broker

/-- `Broker(config)`. -/
def Broker.start : Broker := ⟨Dict.empty, []⟩

/-- `heapq.heappush(heap, entry)`. -/
def heappush (heap : List Entry) (entry : Entry) : List Entry :=
  heap.orderedInsert (fun a b => a.rank ≤ b.rank) entry

/-- The loop of `expire_nonces`. -/
def expireLoop (now : Int) : List Entry → Dict NonceKey Int → Broker
  | [], nonces => ⟨nonces, []⟩
  | (expires, key) :: rest, nonces =>
    if expires < now then
      expireLoop now rest (if nonces.find? key = some expires then nonces.erase key else nonces)
    else ⟨nonces, (expires, key) :: rest⟩

/-- `expire_nonces(now)`. -/
def Broker.expireNonces (b : Broker) (now : Int) : Broker := expireLoop now b.nonceExpiry b.nonces

/-- What `admit` does under `_nonce_lock`. -/
def Broker.reserve (b : Broker) (now : Int) (key : NonceKey) (expires : Int) : Except PyError Unit × Broker :=
  let b := b.expireNonces now
  if key ∈ b.nonces then (.error (permission "replayed admission"), b)
  else if 65536 ≤ b.nonces.size then (.error (permission "admission replay capacity reached"), b)
  else (.ok (), ⟨b.nonces.set key expires, heappush b.nonceExpiry (expires, key)⟩)

/-! ## The checks of a request -/

/-- `expected`. -/
def requestKeys : List Text :=
  ["schema", "tenant", "client", "core", "issued", "expires", "nonce", "public_key", "signature"]

/-- The size, the JSON text and its schema. -/
def parseRequest (nfc : Text → Text) (raw : Bytes) : Except PyError Members :=
  if 16384 < raw.length then .error (.value "admission request oversized")
  else match strictJson nfc 262144 65536 raw with
  | .error e => .error e
  | .ok (.obj ms) =>
    if sameKeys ms requestKeys && hasText ms "schema" "shadow6.virtual-broker-admission.v1" then .ok ms
    else .error (.value "invalid admission schema")
  | .ok _ => .error (.value "invalid admission schema")

/-- The fields that must be strings. -/
structure Fields where
  tenant : Text
  client : Text
  core : Text
  nonce : Text
  publicKey : Text
  signature : Text

/-- A field of type `str`. -/
def stringField (ms : Members) (name : Text) : Except PyError Text :=
  match ms.lookup name with
  | some (.str s) => .ok s
  | _ => .error (.value "invalid admission field type")

def requestFields (ms : Members) : Except PyError Fields := do
  let tenant ← stringField ms "tenant"
  let client ← stringField ms "client"
  let core ← stringField ms "core"
  let nonce ← stringField ms "nonce"
  let publicKey ← stringField ms "public_key"
  let signature ← stringField ms "signature"
  return ⟨tenant, client, core, nonce, publicKey, signature⟩

/-- The tenant of a request and the route it asks for. -/
def locate (config : Config) (f : Fields) : Except PyError (Tenant × Endpoint) :=
  match config.tenants.find? f.tenant with
  | none => .error (permission "unknown tenant, client, or Core")
  | some tenant =>
    match config.routes.find? (tenant.tenantId, f.core) with
    | none => .error (permission "unknown tenant, client, or Core")
    | some target =>
      if 1 ≤ f.client.length ∧ f.client.length ≤ 128 then .ok (tenant, target)
      else .error (permission "unknown tenant, client, or Core")

/-- The instant at which a request expires, if `now` lies in its window. -/
def checkWindow (now : Int) (ms : Members) : Except PyError Int :=
  match ms.lookup "issued".toList, ms.lookup "expires".toList with
  | some (.int issued), some (.int expires) =>
    if now + 30 < issued ∨ expires < now ∨ ¬ (0 ≤ expires - issued ∧ expires - issued ≤ 120) then
      .error (permission "expired admission")
    else .ok expires
  | _, _ => .error (permission "expired admission")

/-- `base64.b64decode(text, validate=True)`; `binascii.Error` is a `ValueError`. -/
def b64decode (text : Text) : Except PyError Bytes :=
  match Base64.decode Base64.standard text with
  | none => .error (.value "base64.b64decode")
  | some bytes => .ok bytes

/-- The decoded nonce, key and signature. -/
structure Credential where
  nonce : Bytes
  pub : Bytes
  sig : Bytes

def checkCredential (tenant : Tenant) (f : Fields) : Except PyError Credential := do
  let nonce ← b64decode f.nonce
  let pub ← b64decode f.publicKey
  let sig ← b64decode f.signature
  refuseIf (nonce.length ≠ 32 ∨ pub.length ≠ 32 ∨ sig.length ≠ 64 ∨ !tenant.publicKeys.contains pub)
    (permission "invalid admission credential")
  return ⟨nonce, pub, sig⟩

/-- A request that has passed every check before the lock is taken. -/
structure Request where
  tenant : Tenant
  target : Endpoint
  client : Text
  core : Text
  nonce : Bytes
  expires : Int
  /-- `canonical(unsigned)`, the bytes that are signed -/
  signed : Bytes

/-- `nonce_key`. -/
def Request.key (r : Request) : NonceKey := (r.tenant.tenantId, r.nonce)

/-- `{k: v for k, v in request.items() if k != "signature"}`. -/
def unsigned (ms : Members) : Members := without ms "signature"

variable (P : Primitives) (config : Config)

/-- `admit` up to the lock. `load_config` stores a tenant under its own id, so `verifiers[tenant_id][pub]` is the
    verifier of `pub`. -/
def checkRequest (now : Int) (raw : Bytes) : Except PyError Request := do
  let ms ← parseRequest P.nfc raw
  let f ← requestFields ms
  let place ← locate config f
  let expires ← checkWindow now ms
  let c ← checkCredential place.1 f
  let signed := canonical (.obj (unsigned ms))
  refuseIf (!P.scheme.verify c.pub signed c.sig) (permission "invalid admission signature")
  refuseIf (place.1.approval = .approvalRequired ∧ !config.approvals.contains (place.1.tenantId, f.client))
    (permission "connection requires operator approval")
  return ⟨place.1, place.2, f.client, f.core, c.nonce, expires, signed⟩

/-! ## Admission -/

/-- What `admit` returns, with the request it was read from. -/
structure Admission where
  request : Request
  virtualId : Text

/-- `virtual_id`. -/
def virtualId (r : Request) : Text :=
  hexText (P.hmac config.identityKey (canonical (.arr [.str r.tenant.tenantId, .str r.client, .str r.core])))

/-- `admit(raw)` at the instant `now`. -/
def Broker.admission (b : Broker) (now : Int) (raw : Bytes) : Except PyError Admission × Broker :=
  match checkRequest P config now raw with
  | .error e => (.error e, b)
  | .ok r =>
    match b.reserve now r.key r.expires with
    | (.error e, b) => (.error e, b)
    | (.ok (), b) => (.ok ⟨r, virtualId P config r⟩, b)

/-- The part of a datagram that holds an admission, and the datagram behind it. -/
def splitDatagram (raw : Bytes) : Except PyError (Bytes × Bytes) :=
  if raw.length < 3 then .error (.value "missing datagram admission")
  else
    let size := ofBE (raw.take 2)
    if ¬ (1 ≤ size ∧ size ≤ 16384) ∨ raw.length ≤ size + 2 then .error (.value "invalid datagram admission")
    else .ok ((raw.drop 2).take size, raw.drop (2 + size))

/-- The admission that a datagram presents; `none` without one. -/
def datagramAdmission (raw : Bytes) (anonymous : Bool) : Except PyError (Option (Bytes × Bytes)) :=
  if ¬ (1 ≤ raw.length ∧ raw.length ≤ min config.maxFrame 65507) then .error (.value "invalid datagram size")
  else if anonymous then .ok none
  else (splitDatagram raw).map some

/-- `datagram_payload(raw, route, anonymous)` at the instant `now`. -/
def Broker.datagramPayload (b : Broker) (now : Int) (raw : Bytes) (route : Text × Text) (anonymous : Bool) :
    Except PyError Bytes × Broker :=
  match datagramAdmission config raw anonymous with
  | .error e => (.error e, b)
  | .ok none => (.ok raw, b)
  | .ok (some (request, payload)) =>
    match b.admission P config now request with
    | (.error e, b) => (.error e, b)
    | (.ok admitted, b) =>
      if admitted.request.tenant.tenantId ≠ route.1 then (.error (permission "wrong datagram route"), b)
      else match config.routes.find? route with
      | none => (.error ⟨.keyError, "routes"⟩, b)
      | some target =>
        if admitted.request.target ≠ target then (.error (permission "wrong datagram route"), b) else (.ok payload, b)

/-! ## Runs -/

/-- What happens to a Broker. -/
inductive Event where
  /-- time passes -/
  | tick (seconds : Nat)
  /-- `admit(raw)` -/
  | request (raw : Bytes)
  /-- `datagram_payload(raw, route, anonymous)` -/
  | datagram (raw : Bytes) (route : Text × Text) (anonymous : Bool)
  /-- `expire_nonces(now)` with a clock reading made `age` seconds ago -/
  | sweep (age : Nat)

/-- The Broker, the clock, and the requests `admit` has accepted, each with the instant. -/
structure World where
  clock : Int
  broker : Broker
  accepted : List (Request × Int)

open World

/-- What `admit(raw)` accepts. -/
def World.admits (w : World) (raw : Bytes) : List (Request × Int) :=
  match (w.broker.admission P config w.clock raw).1 with
  | .error _ => []
  | .ok admitted => [(admitted.request, w.clock)]

def World.step (w : World) : Event → World
  | .tick seconds => { w with clock := w.clock + seconds }
  | .request raw =>
    { w with broker := (w.broker.admission P config w.clock raw).2, accepted := w.accepted ++ w.admits P config raw }
  | .datagram raw route anonymous =>
    { w with
      broker := (w.broker.datagramPayload P config w.clock raw route anonymous).2
      accepted := w.accepted ++
        match datagramAdmission config raw anonymous with
        | .ok (some (request, _)) => w.admits P config request
        | _ => [] }
  | .sweep age => { w with broker := w.broker.expireNonces (w.clock - age) }

/-- A run from a Broker that has just been started. -/
def World.run (clock : Int) (events : List Event) : World :=
  events.foldl (step P config) ⟨clock, .start, []⟩

/-! ## The heap and the table -/

theorem Entry.expires_le {x y : Entry} (h : x.rank ≤ y.rank) : x.1 ≤ y.1 := by
  rcases Prod.Lex.toLex_le_toLex.mp h with hlt | ⟨heq, -⟩
  · exact le_of_lt hlt
  · exact le_of_eq heq

/-- Entry by entry the heap and the table are the same. -/
structure Broker.Agrees (b : Broker) : Prop where
  same : b.nonceExpiry.Perm (b.nonces.entries.map Prod.swap)
  sorted : b.nonceExpiry.Pairwise fun x y => x.rank ≤ y.rank

theorem Broker.start_agrees : start.Agrees := ⟨.nil, .nil⟩

/-- Popping an entry of the heap and deleting its key keeps the two the same. -/
theorem erase_same {ex : Int} {key : NonceKey} {rs : List Entry} {ns : Dict NonceKey Int}
    (h : ((ex, key) :: rs).Perm (ns.entries.map Prod.swap)) :
    rs.Perm ((ns.erase key).entries.map Prod.swap) := by
  have hswap : ((key, ex) :: rs.map Prod.swap).Perm ns.entries := by
    have := h.map Prod.swap
    simpa [Function.comp_def] using this
  have hnd : (((key, ex) :: rs.map Prod.swap).map Prod.fst).Nodup := (hswap.map Prod.fst).nodup_iff.mpr ns.nodup
  rw [map_cons, nodup_cons] at hnd
  have hrs : ((key, ex) :: rs.map Prod.swap).filter (fun e => decide (e.1 ≠ key)) = rs.map Prod.swap := by
    rw [filter_cons_of_neg (by simp)]
    exact filter_ne_of_not_mem hnd.1
  have hfil := hswap.filter fun e => decide (e.1 ≠ key)
  rw [hrs] at hfil
  have := hfil.map Prod.swap
  simpa [Function.comp_def, Dict.erase, Dict.filter] using this

/-- **A sweep keeps what has not expired**, in the heap and in the table. -/
theorem expireLoop_eq (now : Int) {heap : List Entry} {nonces : Dict NonceKey Int}
    (hsm : heap.Perm (nonces.entries.map Prod.swap)) (hsort : heap.Pairwise fun x y => x.rank ≤ y.rank) :
    expireLoop now heap nonces
      = ⟨nonces.filter fun _ expires => decide (now ≤ expires), heap.filter fun e => decide (now ≤ e.1)⟩ := by
  induction heap generalizing nonces with
  | nil =>
    have hnil : nonces.entries = [] := by simpa using hsm.symm.eq_nil
    have : nonces = nonces.filter fun _ expires => decide (now ≤ expires) := by
      apply Dict.ext
      simp [Dict.filter, hnil]
    rw [expireLoop, ← this, filter_nil]
  | cons e rest ih =>
    obtain ⟨expires, key⟩ := e
    have hmem : (key, expires) ∈ nonces.entries := by
      have := hsm.subset mem_cons_self
      simpa using this
    rw [pairwise_cons] at hsort
    rw [expireLoop]
    by_cases hexpr : expires < now
    · rw [if_pos hexpr, if_pos (find?_eq_some_iff.mpr hmem), ih (erase_same hsm) hsort.2,
        filter_cons_of_neg (by simpa using hexpr)]
      congr 1
      apply Dict.ext
      simp only [Dict.filter, Dict.erase, filter_filter]
      refine filter_congr ?_
      rintro ⟨k, v⟩ hkv
      by_cases hk : k = key
      · subst hk
        have hv : v = expires := by
          have := find?_eq_some_iff.mpr hkv
          rw [find?_eq_some_iff.mpr hmem] at this
          exact (Option.some.inj this).symm
        simp [hv, hexpr]
      · simp [hk]
    -- the first entry of the heap is live, so all of them are
    have hfst := not_lt.mp hexpr
    have hlive : ∀ x ∈ (expires, key) :: rest, now ≤ x.1 :=
      forall_mem_cons.mpr ⟨hfst, fun x hx => hfst.trans (Entry.expires_le (hsort.1 x hx))⟩
    have hnon : nonces.filter (fun _ v => decide (now ≤ v)) = nonces := by
      apply Dict.ext
      refine filter_eq_self.mpr ?_
      intro e he
      have : e.swap ∈ (expires, key) :: rest := hsm.symm.subset (mem_map.mpr ⟨e, he, rfl⟩)
      simpa using hlive _ this
    rw [if_neg hexpr, hnon, filter_eq_self.mpr (by simpa using hlive)]

variable {b : Broker}

theorem Broker.expireNonces_eq (h : b.Agrees) (now : Int) :
    b.expireNonces now = ⟨b.nonces.filter fun _ ex => decide (now ≤ ex),
      b.nonceExpiry.filter fun e => decide (now ≤ e.1)⟩ :=
  expireLoop_eq now h.same h.sorted

theorem Broker.Agrees.expireNonces (h : b.Agrees) (now : Int) : (b.expireNonces now).Agrees := by
  rw [expireNonces_eq h]
  constructor
  · have hfil := h.same.filter fun e => decide (now ≤ e.1)
    rw [filter_map] at hfil
    exact hfil
  · exact h.sorted.filter _

/-- A new key is pushed on the heap and written into the table. -/
theorem Broker.Agrees.insert (h : b.Agrees) {key : NonceKey} (hkey : key ∉ b.nonces) (ex : Int) :
    Broker.Agrees ⟨b.nonces.set key ex, heappush b.nonceExpiry (ex, key)⟩ := by
  constructor
  · rw [entries_set_absent ex hkey, map_append, map_singleton]
    refine (perm_orderedInsert _ _ _).trans ?_
    exact (h.same.cons (ex, key)).trans (perm_append_singleton (ex, key) _).symm
  · exact h.sorted.orderedInsert _ _

/-- **What `admit` does to the table**: it sweeps and, if the key is new, inserts; or it stops before. -/
theorem Broker.reserve_cases (b : Broker) (now : Int) (key : NonceKey) (ex : Int) :
    (∃ e, b.reserve now key ex = (.error e, b.expireNonces now)) ∨
    (key ∉ (b.expireNonces now).nonces ∧ b.reserve now key ex = (.ok (),
      ⟨(b.expireNonces now).nonces.set key ex, heappush (b.expireNonces now).nonceExpiry (ex, key)⟩)) := by
  unfold reserve
  by_cases hkey : key ∈ (b.expireNonces now).nonces
  · rw [if_pos hkey]
    exact .inl ⟨_, rfl⟩
  rw [if_neg hkey]
  split_ifs with hfull
  · exact .inl ⟨_, rfl⟩
  · exact .inr ⟨hkey, rfl⟩

/-! ## What an accepted request has passed -/

/-- A request read from the dictionary `ms`. -/
structure Request.Reads (config : Config) (ms : Members) (r : Request) : Prop where
  proper : Proper (.obj ms)
  signed : r.signed = canonical (.obj (unsigned ms))
  expires : ms.lookup "expires".toList = some (.int r.expires)
  nonce : ∃ text, ms.lookup "nonce".toList = some (.str text) ∧ b64decode text = .ok r.nonce
  tenant : ∃ name, ms.lookup "tenant".toList = some (.str name) ∧ config.tenants.find? name = some r.tenant

variable {P config}

variable {ms : Members} {r : Request} {f : Fields} {now : Int}

theorem parseRequest_ok {nfc : Text → Text} {raw : Bytes} (h : parseRequest nfc raw = .ok ms) : Proper (.obj ms) := by
  unfold parseRequest at h
  split_ifs at h
  split at h
  · cases h
  · rename_i hjson
    split_ifs at h
    cases h
    exact strictJson_proper hjson
  · cases h

theorem stringField_ok {nm s : Text} (h : stringField ms nm = .ok s) : ms.lookup nm = some (.str s) := by
  unfold stringField at h
  split at h
  · rename_i hlk
    cases h
    exact hlk
  · cases h

theorem requestFields_ok (h : requestFields ms = .ok f) :
    ms.lookup "tenant".toList = some (.str f.tenant) ∧ ms.lookup "nonce".toList = some (.str f.nonce) := by
  simp only [requestFields, bind_eq_ok] at h
  obtain ⟨tenant, hten, client, -, core, -, nonce, hnonce, publicKey, -, sg, -, h⟩ := h
  cases h
  exact ⟨stringField_ok hten, stringField_ok hnonce⟩

theorem locate_ok {p : Tenant × Endpoint} (h : locate config f = .ok p) :
    config.tenants.find? f.tenant = some p.1 := by
  unfold locate at h
  split at h
  · cases h
  rename_i hten
  split at h
  · cases h
  split_ifs at h
  cases h
  exact hten

theorem checkWindow_ok {now ex : Int} (h : checkWindow now ms = .ok ex) :
    now ≤ ex ∧ ms.lookup "expires".toList = some (.int ex) := by
  unfold checkWindow at h
  split at h
  · rename_i hexp
    split_ifs at h with hwin
    cases h
    push Not at hwin
    exact ⟨hwin.2.1, hexp⟩
  · cases h

theorem checkCredential_ok {t : Tenant} {c : Credential} (h : checkCredential t f = .ok c) :
    b64decode f.nonce = .ok c.nonce := by
  simp only [checkCredential, bind_eq_ok] at h
  obtain ⟨nonce, hnonce, pub, -, sig, -, -, -, h⟩ := h
  cases h
  exact hnonce

/-- **A request that has passed** has not expired, and is read from a dictionary. -/
theorem checkRequest_ok {raw : Bytes} (h : checkRequest P config now raw = .ok r) :
    now ≤ r.expires ∧ ∃ ms, r.Reads config ms := by
  simp only [checkRequest, bind_eq_ok] at h
  obtain ⟨ms, hprs, f, hfs, p, hplc, ex, hwin, c, hcred, -, -, -, -, h⟩ := h
  cases h
  obtain ⟨hten, hnonce⟩ := requestFields_ok hfs
  obtain ⟨hnow, hexp⟩ := checkWindow_ok hwin
  refine ⟨hnow, ms, parseRequest_ok hprs, rfl, hexp, ⟨_, hnonce, checkCredential_ok hcred⟩, ?_⟩
  exact ⟨_, hten, locate_ok hplc⟩

/-- **The signed bytes determine the nonce key and the expiry.** -/
theorem Request.Reads.of_signed {ms ms' : Members} {r r' : Request} (h : r.Reads config ms) (h' : r'.Reads config ms')
    (hsig : r.signed = r'.signed) : r.key = r'.key ∧ r.expires = r'.expires := by
  rw [h.signed, h'.signed] at hsig
  have hfld : ∀ {nm : Text} {v : Json}, nm ≠ "signature" → Python.Scalar v → ms.lookup nm = some v →
      ms'.lookup nm = some v := by
    intro nm v hname hv hlk
    rw [← lookup_without hname] at hlk ⊢
    exact canonical_lookup (without_proper h.proper _) (without_proper h'.proper _) hsig hv hlk
  obtain ⟨text, htext, hnonce⟩ := h.nonce
  obtain ⟨text', htext', hnonce'⟩ := h'.nonce
  obtain ⟨name, hname, hten⟩ := h.tenant
  obtain ⟨name', hname', hten'⟩ := h'.tenant
  have hexp := hfld (by decide) (by trivial) h.expires
  rw [h'.expires] at hexp
  have hnon := hfld (by decide) (by trivial) htext
  rw [htext'] at hnon
  have hns := hfld (by decide) (by trivial) hname
  rw [hname'] at hns
  cases hnon
  cases hns
  rw [hnonce'] at hnonce
  rw [hten'] at hten
  rw [Request.key, Request.key, Option.some.inj hten, Except.ok.inj hnonce]
  exact ⟨rfl, (Json.int.inj (Option.some.inj hexp)).symm⟩

/-! ## Every run -/

theorem Broker.admission_cases (P : Primitives) (config : Config) (b : Broker) (now : Int) (raw : Bytes) :
    (∃ e, b.admission P config now raw = (.error e, b)) ∨
    (∃ e, b.admission P config now raw = (.error e, b.expireNonces now)) ∨
    ∃ r id, checkRequest P config now raw = .ok r ∧ r.key ∉ (b.expireNonces now).nonces ∧
      b.admission P config now raw = (.ok ⟨r, id⟩, ⟨(b.expireNonces now).nonces.set r.key r.expires,
        heappush (b.expireNonces now).nonceExpiry (r.expires, r.key)⟩) := by
  unfold admission
  cases hchk : checkRequest P config now raw with
  | error e => exact .inl ⟨e, rfl⟩
  | ok r =>
    dsimp only
    rcases b.reserve_cases now r.key r.expires with ⟨e, hrsr⟩ | ⟨hkey, hrsr⟩
    · rw [hrsr]
      exact .inr (.inl ⟨e, rfl⟩)
    · rw [hrsr]
      exact .inr (.inr ⟨r, _, rfl, hkey, rfl⟩)

/-- The nonce of `r` is in the table with its expiry. -/
def Broker.Holds (b : Broker) (r : Request) : Prop := b.nonces.find? r.key = some r.expires

/-- What holds in every reachable state. -/
structure World.Sound (config : Config) (w : World) : Prop where
  agrees : w.broker.Agrees
  retained : Retained Request.expires w.broker.Holds w.clock w.accepted
  separated : Separated Request.key Request.expires w.accepted
  checked : ∀ a ∈ w.accepted, a.2 ≤ a.1.expires ∧ ∃ ms, a.1.Reads config ms

section

variable {w : World}

theorem World.Sound.start (clock : Int) : World.Sound config ⟨clock, .start, []⟩ where
  agrees := start_agrees
  retained := retained_nil _ _ _
  separated := separated_nil _ _
  checked := by simp

theorem World.Sound.tick (h : w.Sound config) (ss : Nat) : World.Sound config { w with clock := w.clock + ss } :=
  { h with retained := h.retained.later (by simp) }

/-- A sweep drops the nonces of expired requests only. -/
theorem Broker.Holds.expireNonces (h : b.Agrees) (hr : b.Holds r) (now : Int) :
    (b.expireNonces now).Holds r ∨ r.expires < now := by
  by_cases hlive : now ≤ r.expires
  · left
    rw [Broker.Holds, expireNonces_eq h, Dict.find?_filter, hr]
    simp [hlive]
  · exact .inr (not_le.mp hlive)

theorem World.Sound.sweep (h : w.Sound config) (hnow : now ≤ w.clock) :
    World.Sound config { w with broker := w.broker.expireNonces now } :=
  { h with
    agrees := h.agrees.expireNonces now
    retained := by
      refine h.retained.drop ?_
      intro a _ hrec
      exact (hrec.expireNonces h.agrees now).imp_right fun hlt => hlt.trans_le hnow }

theorem World.Sound.accept (h : w.Sound config) (hkey : r.key ∉ w.broker.nonces) (hnow : w.clock ≤ r.expires)
    (hrds : r.Reads config ms) : World.Sound config { w with
      broker := ⟨w.broker.nonces.set r.key r.expires, heappush w.broker.nonceExpiry (r.expires, r.key)⟩
      accepted := w.accepted ++ [(r, w.clock)] } where
  agrees := h.agrees.insert hkey r.expires
  retained := by
    -- another request with this key is not in the table, so writing the key overwrites nothing
    have hkept : ∀ a ∈ w.accepted, w.broker.Holds a.1 →
        Broker.Holds ⟨w.broker.nonces.set r.key r.expires, heappush w.broker.nonceExpiry (r.expires, r.key)⟩ a.1 := by
      intro a _ ha
      exact find?_set_of_not_mem hkey ha
    refine Retained.accept (h.retained.drop fun a ha hrec => .inl (hkept a ha hrec)) ?_ w.clock
    exact find?_set_self _ _ _
  separated := by
    refine h.separated.accept h.retained ?_
    intro a _ heq hrec
    rw [Broker.Holds, heq] at hrec
    exact absurd (mem_of_find? hrec) hkey
  checked := forall_mem_append.mpr ⟨h.checked, forall_mem_singleton.mpr ⟨hnow, ms, hrds⟩⟩

/-- **One call of `admit`.** -/
theorem World.Sound.admission (h : w.Sound config) (raw : Bytes) : World.Sound config { w with
      broker := (w.broker.admission P config w.clock raw).2
      accepted := w.accepted ++ w.admits P config raw } := by
  have hsweep := h.sweep (le_refl w.clock)
  rcases w.broker.admission_cases P config w.clock raw with
    ⟨e, hres⟩ | ⟨e, hres⟩ | ⟨r, id, hchk, hkey, hres⟩
  · rw [admits, hres, append_nil]
    exact h
  · rw [admits, hres, append_nil]
    exact hsweep
  rw [admits, hres]
  obtain ⟨hnow, ms, hrds⟩ := checkRequest_ok hchk
  exact hsweep.accept hkey hnow hrds

/-- `datagram_payload` changes the Broker by the one call of `admit` it makes. -/
theorem Broker.datagramPayload_snd {raw rq p : Bytes} {rt : Text × Text} {an : Bool}
    (h : datagramAdmission config raw an = .ok (some (rq, p))) :
    (b.datagramPayload P config now raw rt an).2 = (b.admission P config now rq).2 := by
  rw [datagramPayload, h]
  dsimp only
  cases hres : b.admission P config now rq with
  | mk result b' =>
    cases result with
    | error e => rfl
    | ok admitted =>
      dsimp only
      split_ifs
      · rfl
      cases config.routes.find? rt with
      | none => rfl
      | some t =>
        dsimp only
        split_ifs <;> rfl

theorem World.Sound.step (h : w.Sound config) (e : Event) : (w.step P config e).Sound config := by
  cases e with
  | tick seconds => exact h.tick seconds
  | request raw => exact h.admission raw
  | datagram raw route an =>
    rw [World.step]
    cases hdat : datagramAdmission config raw an with
    | error e =>
      rw [datagramPayload, hdat, append_nil]
      exact h
    | ok p =>
      cases p with
      | none =>
        rw [datagramPayload, hdat, append_nil]
        exact h
      | some parts =>
        obtain ⟨request, payload⟩ := parts
        rw [datagramPayload_snd hdat]
        exact h.admission request
  | sweep age => exact h.sweep (by simp)

end

/-- **No signed admission is accepted twice.** -/
theorem World.Sound.signed_nodup {w : World} (h : w.Sound config) : (w.accepted.map fun a => a.1.signed).Nodup := by
  rw [List.Nodup, pairwise_map]
  refine h.separated.imp_of_mem ?_
  intro a b ha hb hsep hsig
  obtain ⟨-, ms, hrds⟩ := h.checked a ha
  obtain ⟨hnow, ms', hrds'⟩ := h.checked b hb
  obtain ⟨hkey, hexp⟩ := hrds.of_signed hrds' hsig
  -- the second would have been accepted after its own expiry
  have hlate := hsep hkey
  rw [hexp] at hlate
  exact absurd hnow (not_le.mpr hlate)

/-- **Admission.** In every run from a new Broker, with any requests and datagrams, at any instants, and any sweeps
    between them: no signed admission is accepted twice; the heap and the table have the same entries; and the nonce of
    an accepted admission is in the table with its expiry until it has expired. -/
theorem admission_at_most_once (P : Primitives) (config : Config) (clock : Int) (events : List Event) :
    ((run P config clock events).accepted.map fun a => a.1.signed).Nodup ∧
    (run P config clock events).broker.nonceExpiry.Perm
      ((run P config clock events).broker.nonces.entries.map Prod.swap) ∧
    ∀ a ∈ (run P config clock events).accepted, (run P config clock events).clock ≤ a.1.expires →
      (run P config clock events).broker.nonces.find? a.1.key = some a.1.expires := by
  have hsound : (run P config clock events).Sound config :=
    foldl_invariant (fun w e (h : w.Sound config) => h.step e) (World.Sound.start clock) events
  refine ⟨hsound.signed_nodup, hsound.agrees.same, ?_⟩
  intro a ha hlive
  rcases hsound.retained a ha with hrecord | hlate
  · exact hrecord
  · exact absurd hlate (not_lt.mpr hlive)

end Shadow6.Public6
