import Shadow6.Library.Framing
import Shadow6.Library.Json
import Shadow6.Library.Signature

/-!
# `CoreGo.SignedFields` — the bytes that Core-Go signs

`signedFields` of `Core-Go/control.go` and its callers there and in `Core-Go/data.go`: the answer to a challenge, the
request for access and its answer, the local discovery request and offer. Each caller puts its own domain in front of
its fields, and each field is preceded by its length. No domain is the beginning of another, so the bytes determine
the domain and the fields (`signedFields_injective`), and a signature made for one message verifies for no other.
-/

namespace Shadow6.CoreGo

open Library Json List

/-- `signedFields(domain, fields...)`; `uint32(len(field))` keeps the low 32 bits. -/
def signedFields (domain : Bytes) (fields : List Bytes) : Bytes :=
  fields.foldl (fun result field => result ++ toBE 4 field.length ++ field) domain

theorem signedFields_eq (domain : Bytes) (fields : List Bytes) : signedFields domain fields = domain ++ frames fields := by
  unfold signedFields
  induction fields generalizing domain with
  | nil => rw [foldl_nil, frames_nil, append_nil]
  | cons f fs ih => rw [foldl_cons, ih, frames_cons, frame, append_assoc, append_assoc, append_assoc]

/-! ## Domains and fields -/

/-- The domains of all callers. Those of the Rust dialect are used by Core-Zig only. -/
inductive Domain where
  | controlAuth
  | clientAccess
  | agentAccess
  | lpdRequest
  | lpdOffer
  | rustControlAuth
  | rustClientAccess
  | rustAgentAccess
deriving DecidableEq, Repr

def Domain.text : Domain → String
  | .controlAuth => "shadow6-control-auth-v1"
  | .clientAccess => "shadow6-client-access-v1"
  | .agentAccess => "shadow6-agent-access-v1"
  | .lpdRequest => "shadow6-lpd-request-v1"
  | .lpdOffer => "shadow6-lpd-offer-v1"
  | .rustControlAuth => "shadow6-rust-control-auth-v1"
  | .rustClientAccess => "shadow6-rust-client-access-v1"
  | .rustAgentAccess => "shadow6-rust-agent-access-v1"

def Domain.bytes (d : Domain) : Bytes := utf8 d.text.toList

/-- What a field can hold. It comes from a control message (at most `maxControlMessage` = 65536 bytes), a discovery
    datagram, or a string of the configuration, which `validateStrictJSON` bounds by 65536 bytes. -/
abbrev Field := { bytes : Bytes // bytes.length ≤ 65536 }

/-- The bytes of some fields. -/
def contents (fields : List Field) : List Bytes := fields.map Subtype.val

theorem length_contents_lt {fs : List Field} {f : Bytes} (h : f ∈ contents fs) : f.length < 256 ^ 4 := by
  obtain ⟨field, -, rfl⟩ := mem_map.mp h
  exact lt_of_le_of_lt field.2 (by decide)

theorem contents_injective : Function.Injective contents := map_injective_iff.mpr Subtype.val_injective

/-- An integer of fixed width as a field. -/
def word (width : Nat) (value : Int) (hwidth : width ≤ 65536) : Field :=
  ⟨toBE width (value % 256 ^ width).toNat, by rw [length_toBE]; exact hwidth⟩

theorem eight_le : 8 ≤ 65536 := by decide

/-! ## The callers -/

/-- `AccessReq`, as far as it is signed. -/
structure AccessReq where
  clientID : Field
  targetAgent : Field
  clientIP : Field
  e2eePubKey : Field

/-- `AccessResp`, as far as it is signed. -/
structure AccessResp where
  kcpPort : Int
  e2eePubKey : Field

/-- `lpdRequest`, as far as it is signed. -/
structure LpdRequest where
  agentID : Field
  clientID : Field
  timestamp : Int
  nonce : Field
  e2eePubKey : Field

/-- `lpdOffer`, as far as it is signed. -/
structure LpdOffer where
  agentID : Field
  requestNonce : Field
  access : AccessResp

/-- `authPayload(peerID, nonce)`. -/
def authPayload (peerID nonce : Field) : Bytes :=
  signedFields Domain.controlAuth.bytes (contents [peerID, nonce])

/-- `clientSignaturePayload(request)`. -/
def clientSignaturePayload (request : AccessReq) : Bytes :=
  signedFields Domain.clientAccess.bytes
    (contents [request.clientID, request.targetAgent, request.clientIP, request.e2eePubKey])

/-- `agentSignaturePayload(request, response)`. -/
def agentSignaturePayload (request : AccessReq) (response : AccessResp) : Bytes :=
  signedFields Domain.agentAccess.bytes (contents
    [request.clientID, request.targetAgent, request.e2eePubKey, response.e2eePubKey, word 4 response.kcpPort (by decide)])

/-- `lpdRequestPayload(request)`. -/
def lpdRequestPayload (request : LpdRequest) : Bytes :=
  signedFields Domain.lpdRequest.bytes (contents
    [request.agentID, request.clientID, word 8 request.timestamp (by decide), request.nonce, request.e2eePubKey])

/-- `lpdOfferPayload(offer, clientPublic)`. -/
def lpdOfferPayload (offer : LpdOffer) (clientPublic : Field) : Bytes :=
  signedFields Domain.lpdOffer.bytes (contents
    [offer.agentID, offer.requestNonce, clientPublic, offer.access.e2eePubKey, word 4 offer.access.kcpPort (by decide)])

/-- A message that is signed. -/
inductive Message where
  | auth (peerID nonce : Field)
  | clientAccess (request : AccessReq)
  | agentAccess (request : AccessReq) (response : AccessResp)
  | lpdRequest (request : LpdRequest)
  | lpdOffer (offer : LpdOffer) (clientPublic : Field)

/-- What is signed. -/
def Message.payload : Message → Bytes
  | .auth peerID nonce => authPayload peerID nonce
  | .clientAccess request => clientSignaturePayload request
  | .agentAccess request response => agentSignaturePayload request response
  | .lpdRequest request => lpdRequestPayload request
  | .lpdOffer offer clientPublic => lpdOfferPayload offer clientPublic

def Message.domain : Message → Domain
  | .auth .. => .controlAuth
  | .clientAccess _ => .clientAccess
  | .agentAccess .. => .agentAccess
  | .lpdRequest _ => .lpdRequest
  | .lpdOffer .. => .lpdOffer

def Message.fields : Message → List Field
  | .auth peerID nonce => [peerID, nonce]
  | .clientAccess request => [request.clientID, request.targetAgent, request.clientIP, request.e2eePubKey]
  | .agentAccess request response =>
    [request.clientID, request.targetAgent, request.e2eePubKey, response.e2eePubKey, word 4 response.kcpPort (by decide)]
  | .lpdRequest request =>
    [request.agentID, request.clientID, word 8 request.timestamp (by decide), request.nonce, request.e2eePubKey]
  | .lpdOffer offer clientPublic =>
    [offer.agentID, offer.requestNonce, clientPublic, offer.access.e2eePubKey, word 4 offer.access.kcpPort (by decide)]

theorem Message.payload_eq (m : Message) : m.payload = signedFields m.domain.bytes (contents m.fields) := by
  cases m <;> rfl

/-! ## The bytes determine the message -/

/-- Every domain. -/
def Domain.all : List Domain :=
  [.controlAuth, .clientAccess, .agentAccess, .lpdRequest, .lpdOffer, .rustControlAuth, .rustClientAccess, .rustAgentAccess]

theorem Domain.mem_all (d : Domain) : d ∈ Domain.all := by
  cases d <;> decide

theorem Domain.prefix_free : ∀ d ∈ Domain.all, ∀ e ∈ Domain.all, d.bytes <+: e.bytes → d = e := by
  decide +kernel

/-- **The bytes determine the domain and the fields.** -/
theorem signedFields_injective :
    Function.Injective fun p : Domain × List Field => signedFields p.1.bytes (contents p.2) := by
  rintro ⟨d, fs⟩ ⟨e, gs⟩ h
  dsimp only at h
  rw [signedFields_eq, signedFields_eq] at h
  have hfree : ∀ a ∈ Domain.all.map Domain.bytes, ∀ b ∈ Domain.all.map Domain.bytes, a <+: b → a = b := by
    intro a ha b hb hpref
    obtain ⟨d, hd, rfl⟩ := mem_map.mp ha
    obtain ⟨e, he, rfl⟩ := mem_map.mp hb
    rw [Domain.prefix_free d hd e he hpref]
  obtain ⟨hdom, hfs⟩ := headed_frames_inj hfree (mem_map_of_mem d.mem_all) (mem_map_of_mem e.mem_all)
    (fun _ hf => length_contents_lt hf) (fun _ hg => length_contents_lt hg) h
  have hsame : d = e := Domain.prefix_free d d.mem_all e e.mem_all (by rw [hdom])
  rw [hsame, contents_injective hfs]

/-- Messages with the same bytes are of one type and have the same fields. -/
theorem Message.of_payload {m m' : Message} (h : m.payload = m'.payload) : m.domain = m'.domain ∧ m.fields = m'.fields := by
  rw [Message.payload_eq, Message.payload_eq] at h
  have hpair := @signedFields_injective (m.domain, m.fields) (m'.domain, m'.fields) h
  exact ⟨congrArg Prod.fst hpair, congrArg Prod.snd hpair⟩

end Shadow6.CoreGo
