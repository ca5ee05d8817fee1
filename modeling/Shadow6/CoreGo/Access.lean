import Shadow6.CoreGo.Discovery

/-!
# `CoreGo.Access` — whose access a client of Core-Go accepts

`startClient` accepts an answer to its request from a Broker, or an offer from local discovery, if the signature of the
agent verifies; the agent signs what `provisionAccess` returns, its offers, and the challenges of whoever it dials. The
Broker and the network are the adversary: the calls of the agent and the answer are arbitrary, except that a signature
that verifies was made by the agent. The accepted answer then is that of a run for this client (`access_agreement`), if
the port fits the 32 bits that are signed, and no other client asks with this client's nonce and ephemeral key. Neither
is checked (`access_disagreement`).
-/

namespace Shadow6.CoreGo.Access

open Library Discovery List SignatureScheme

/-! ## The agent -/

/-- `AgentService`. -/
structure Service extends Agent where
  validIdentity : Field → Bool
  parsePeerIP : Field → Bool

/-- The runs of `provisionAccess` that have returned an answer, and what has been signed. -/
structure State where
  runs : List (AccessReq × AccessResp)
  signed : List Message

/-- The port and the ephemeral key of a new listener. -/
abbrev Listener := Fin 65536 × Field

/-- A discovery packet, the time at which it is checked, whether its nonce is new, and where it comes from. -/
structure Arrival where
  packet : Packet
  now : Int
  reserved : Bool
  remote : Field

/-- What the agent is asked: to answer a challenge, to grant access, to serve a discovery packet. -/
inductive Call where
  | auth (nonce : Field)
  | grant (request : AccessReq) (clientSig : Bytes) (listener : Option Listener)
  | discover (arrival : Arrival) (listener : Option Listener)

section

variable (S : SignatureScheme) (A : Service)

/-- `provisionAccess(request)`; without a listener one of its later steps fails. -/
def provisionAccess (s : State) (request : AccessReq) (listener : Option Listener) : Option AccessResp × State :=
  match listener with
  | none => (none, s)
  | some (port, agentPublic) =>
    if !A.parsePeerIP request.clientIP || request.e2eePubKey.val.length ≠ 32 || !A.validIdentity request.clientID ||
        !A.validIdentity request.targetAgent then (none, s)
    else
      let response : AccessResp := ⟨port.val, agentPublic⟩
      (some response, ⟨(request, response) :: s.runs, .agentAccess request response :: s.signed⟩)

/-- `grantAccess(request)`. -/
def grantAccess (s : State) (request : AccessReq) (clientSig : Bytes) (listener : Option Listener) : State :=
  if request.targetAgent ≠ A.id then s
  else match A.clientKey request.clientID with
  | none => s
  | some clientKey =>
    if !S.verify clientKey (clientSignaturePayload request) clientSig then s
    else (provisionAccess A s request listener).2

/-- One packet in `serveAgentLPDWithReplay`. -/
def discover (s : State) (a : Arrival) (listener : Option Listener) : State :=
  let request := a.packet.request
  if !admits .go S A.toAgent a.now a.packet || !a.reserved then s
  else match provisionAccess A s ⟨request.clientID, request.agentID, a.remote, request.e2eePubKey⟩ listener with
  | (none, s) => s
  | (some access, s) => { s with signed := .lpdOffer ⟨A.id, request.nonce, access⟩ request.e2eePubKey :: s.signed }

def step (s : State) : Call → State
  | .auth nonce => { s with signed := .auth A.id nonce :: s.signed }
  | .grant request clientSig listener => grantAccess S A s request clientSig listener
  | .discover arrival listener => discover S A s arrival listener

def run (calls : List Call) : State := calls.foldl (step S A) ⟨[], []⟩

end

/-! ## The client -/

/-- `ClientConfig` and the client's ephemeral key. -/
structure Client where
  id : Field
  targetAgent : Field
  agentPubKey : Bytes
  clientPublic : Field

/-- Where an answer comes from: the Broker, for the request with this address, or local discovery, for the request with
    this nonce. -/
inductive Source where
  | broker (clientIP : Field)
  | offer (nonce : Field) (version : Int) (agentID requestNonce : Field)

structure Answer where
  source : Source
  success : Bool
  access : AccessResp
  signature : Bytes

/-- The message whose signature is checked. -/
def Answer.message (c : Client) (answer : Answer) : Message :=
  match answer.source with
  | .broker clientIP => .agentAccess ⟨c.id, c.targetAgent, clientIP, c.clientPublic⟩ answer.access
  | .offer _ _ agentID requestNonce => .lpdOffer ⟨agentID, requestNonce, answer.access⟩ c.clientPublic

/-- `verifyAgentAccess`, or the checks of `performLocalDiscoveryRequestTo`. -/
def verifyAnswer (S : SignatureScheme) (c : Client) (answer : Answer) : Bool :=
  S.verify c.agentPubKey (answer.message c).payload answer.signature &&
    match answer.source with
    | .broker _ => true
    | .offer nonce version agentID requestNonce => version = 1 && agentID = c.targetAgent && answer.success &&
        answer.access.kcpPort ≠ 0 && requestNonce = nonce

/-- What `startClient` goes on with. -/
def startClient (S : SignatureScheme) (c : Client) (answer : Answer) : Option AccessResp :=
  if verifyAnswer S c answer && answer.success && 1 ≤ answer.access.kcpPort && answer.access.e2eePubKey.val.length = 32
    then some answer.access
  else none

theorem startClient_eq_some {S : SignatureScheme} {c : Client} {answer : Answer} {access : AccessResp} :
    startClient S c answer = some access ↔ (verifyAnswer S c answer && answer.success && 1 ≤ answer.access.kcpPort &&
      answer.access.e2eePubKey.val.length = 32) = true ∧ answer.access = access := by
  rw [startClient, Option.ite_none_right_eq_some, Option.some.injEq]

/-! ## What the agent has signed -/

/-- An answer is that of a run, and an offer has the answer of a run for a packet among `calls`. -/
def Vouched (calls : List Call) (runs : List (AccessReq × AccessResp)) : Message → Prop
  | .agentAccess q r => (q, r) ∈ runs
  | .lpdOffer o key => ∃ a l, .discover a l ∈ calls ∧ a.packet.request.nonce = o.requestNonce ∧
      a.packet.request.e2eePubKey = key ∧ (⟨a.packet.request.clientID, o.agentID, a.remote, key⟩, o.access) ∈ runs
  | _ => True

structure Honest (calls : List Call) (s : State) : Prop where
  ports : ∀ r ∈ s.runs, 0 ≤ r.2.kcpPort ∧ r.2.kcpPort < 256 ^ 4
  signed : ∀ m ∈ s.signed, Vouched calls s.runs m

variable {S : SignatureScheme} {A : Service} {cl : List Call} {s : State}

theorem Vouched.mono {rs rs' : List (AccessReq × AccessResp)} {m : Message} (h : Vouched cl rs m)
    (hsub : rs ⊆ rs') : Vouched cl rs' m := by
  cases m with
  | agentAccess q r => exact hsub h
  | lpdOffer o key =>
    obtain ⟨a, l, hcall, hnon, hkey, hrun⟩ := h
    exact ⟨a, l, hcall, hnon, hkey, hsub hrun⟩
  | _ => trivial

/-- A run signs its answer. -/
theorem Honest.provision (h : Honest cl s) {q : AccessReq} {l : Option Listener} {res : Option AccessResp × State}
    (hres : provisionAccess A s q l = res) :
    Honest cl res.2 ∧ ∀ r, res.1 = some r → (q, r) ∈ res.2.runs := by
  unfold provisionAccess at hres
  split at hres
  · subst hres
    exact ⟨h, nofun⟩
  rename_i p ap
  split at hres
  · subst hres
    exact ⟨h, nofun⟩
  subst hres
  have hport : (0 : Int) ≤ p.val ∧ (p.val : Int) < 256 ^ 4 := by omega
  refine ⟨⟨forall_mem_cons.mpr ⟨hport, h.ports⟩, forall_mem_cons.mpr ⟨mem_cons_self, ?_⟩⟩, ?_⟩
  · exact fun m hm => (h.signed m hm).mono (subset_cons_self _ _)
  · rintro r ⟨⟩
    exact mem_cons_self

theorem Honest.step (h : Honest cl s) {ca : Call} (hcall : ca ∈ cl) : Honest cl (step S A s ca) := by
  cases ca with
  | auth nonce => exact ⟨h.ports, forall_mem_cons.mpr ⟨trivial, h.signed⟩⟩
  | grant request cs l =>
    show Honest cl (grantAccess S A s request cs l)
    unfold grantAccess
    split
    · exact h
    split
    · exact h
    split
    · exact h
    · exact (h.provision rfl).1
  | discover a l =>
    show Honest cl (discover S A s a l)
    unfold discover
    dsimp only
    split
    · exact h
    rename_i hchk
    split
    · rename_i hfail
      exact (h.provision hfail).1
    rename_i access s' hrun
    obtain ⟨h', hmem⟩ := h.provision hrun
    have hid : a.packet.request.agentID = A.id := by
      simp only [admits, Bool.or_eq_true, Bool.not_eq_true', not_or, Bool.not_eq_false, Bool.and_eq_true,
        decide_eq_true_eq] at hchk
      exact hchk.1.1.1.1.2
    refine ⟨h'.ports, forall_mem_cons.mpr ⟨?_, h'.signed⟩⟩
    exact ⟨a, l, hcall, rfl, rfl, hid ▸ hmem access rfl⟩

theorem honest_run (S : SignatureScheme) (A : Service) (calls : List Call) : Honest calls (run S A calls) := by
  have halong : Along (step S A) (fun _ call => call ∈ calls) ⟨[], []⟩ calls := .of_forall (fun _ hcall _ => hcall) _
  exact halong.invariant (fun _ _ h hcall => h.step hcall) ⟨nofun, nofun⟩

/-! ## Agreement -/

theorem AccessResp.eq_of_word {a b : AccessResp} (ha : 0 ≤ a.kcpPort ∧ a.kcpPort < 256 ^ 4)
    (hb : 0 ≤ b.kcpPort ∧ b.kcpPort < 256 ^ 4) (hkey : a.e2eePubKey = b.e2eePubKey)
    (h : word 4 a.kcpPort (by decide) = word 4 b.kcpPort (by decide)) : a = b := by
  obtain ⟨port, key⟩ := a
  obtain ⟨port', key'⟩ := b
  have hby := congrArg (ofBE ∘ Subtype.val) h
  simp only [word, Function.comp_apply, Int.emod_eq_of_lt ha.1 ha.2, Int.emod_eq_of_lt hb.1 hb.2] at hby
  dsimp only at ha hb hkey
  rw [ofBE_toBE_of_lt (by omega), ofBE_toBE_of_lt (by omega)] at hby
  rw [hkey, show port = port' by omega]

/-- No other client asks with the nonce and the ephemeral key of this one. -/
def Unshared (c : Client) (calls : List Call) : Source → Prop
  | .broker _ => True
  | .offer nonce _ _ _ => ∀ a l, .discover a l ∈ calls → a.packet.request.nonce = nonce →
      a.packet.request.e2eePubKey = c.clientPublic → a.packet.request.clientID = c.id

/-- **The access that a client accepts is that of a run for this client**, whatever the Broker and the network do, if the
    signature was made by the agent, the port has at most 32 bits and, for an offer, no other client asks with the nonce
    and the ephemeral key of this one. And no two messages of different types have the same signed bytes. -/
theorem access_agreement (S : SignatureScheme) (A : Service) (calls : List Call) (c : Client) (answer : Answer)
    (access : AccessResp) (hsigned : S.verify c.agentPubKey (answer.message c).payload answer.signature = true →
      ∃ m ∈ (run S A calls).signed, m.payload = (answer.message c).payload)
    (haccess : startClient S c answer = some access) (hport : access.kcpPort < 256 ^ 4)
    (hunshared : Unshared c calls answer.source) :
    (∃ r ∈ (run S A calls).runs, r.1.clientID = c.id ∧ r.1.targetAgent = c.targetAgent ∧
      r.1.e2eePubKey = c.clientPublic ∧ r.2 = access) ∧
    ∀ m m' : Message, m.payload = m'.payload → m.domain = m'.domain := by
  refine ⟨?_, fun m m' h => (Message.of_payload h).1⟩
  have hhonest := honest_run S A calls
  obtain ⟨hchecks, rfl⟩ := startClient_eq_some.mp haccess
  simp only [verifyAnswer, Bool.and_eq_true, decide_eq_true_eq] at hchecks
  obtain ⟨⟨⟨⟨hverify, hanswer⟩, -⟩, hpos⟩, -⟩ := hchecks
  obtain ⟨m, hm, hpayload⟩ := hsigned hverify
  obtain ⟨hdomain, hfields⟩ := Message.of_payload hpayload
  have hvouched := hhonest.signed m hm
  obtain ⟨source, success, access, signature⟩ := answer
  cases source with
  | broker clientIP =>
    cases m with
    | agentAccess q r =>
      simp only [Message.fields, Answer.message, cons.injEq] at hfields
      obtain ⟨hid, htarget, hkey, hpub, hword, -⟩ := hfields
      have hr := hhonest.ports _ hvouched
      exact ⟨(q, r), hvouched, hid, htarget, hkey, AccessResp.eq_of_word hr ⟨by omega, hport⟩ hpub hword⟩
    | _ => cases hdomain
  | offer nonce version agentID requestNonce =>
    cases m with
    | lpdOffer o' key =>
      obtain ⟨a, l, hcall, hnonce, hkey, hrun⟩ := hvouched
      simp only [Message.fields, Answer.message, cons.injEq] at hfields
      obtain ⟨hagent, hrequest, hpublic, hpub, hword, -⟩ := hfields
      simp only [Bool.and_eq_true, decide_eq_true_eq] at hanswer
      have hid := hunshared a l hcall (hnonce.trans (hrequest.trans hanswer.2)) (hkey.trans hpublic)
      have hr := hhonest.ports _ hrun
      exact ⟨_, hrun, hid, hagent.trans hanswer.1.1.1.2, hpublic, AccessResp.eq_of_word hr ⟨by omega, hport⟩ hpub hword⟩
    | _ => cases hdomain

/-! ## A wrong port, and another client's access -/

/-- An agent with two clients. -/
def sampleService : Service where
  id := sampleField 1
  clientKey := fun id => if id = sampleField 2 then some (checksum.publicKey [8])
    else if id = sampleField 3 then some (checksum.publicKey [9]) else none
  decode := fun _ => none
  validIdentity := fun _ => true
  parsePeerIP := fun _ => true

def sampleClient : Client :=
  ⟨sampleField 2, sampleField 1, checksum.publicKey [7], sampleField 4⟩

/-- The client asks through the Broker. -/
def sampleRequest : AccessReq := ⟨sampleField 2, sampleField 1, sampleField 5, sampleField 4⟩

def sampleGrant : Call := .grant sampleRequest
  (checksum.sign [8] (clientSignaturePayload sampleRequest)) (some (4000, sampleField 6))

/-- The answer of the agent to it, with a port of the Broker's choice. -/
def sampleAnswer (port : Int) : Answer := ⟨.broker (sampleField 5), true, ⟨port, sampleField 6⟩,
  checksum.sign [7] (agentSignaturePayload sampleRequest ⟨4000, sampleField 6⟩)⟩

theorem access_agreement_granted :
    startClient .checksum sampleClient (sampleAnswer 4000) = some ⟨4000, sampleField 6⟩ ∧
    ∃ r ∈ (run .checksum sampleService [sampleGrant]).runs, r.1.clientID = sampleField 2 ∧
      r.2 = ⟨4000, sampleField 6⟩ := by
  have haccess : startClient .checksum sampleClient (sampleAnswer 4000) = some ⟨4000, sampleField 6⟩ :=
    startClient_eq_some.mpr ⟨by decide +kernel, rfl⟩
  obtain ⟨⟨r, hr, hid, -, -, haccess'⟩, -⟩ := access_agreement .checksum sampleService [sampleGrant] sampleClient
    (sampleAnswer 4000) _ (fun _ => by decide +kernel) haccess (by decide) trivial
  exact ⟨haccess, r, hr, hid, haccess'⟩

/-- The other client sends a packet with the nonce and the ephemeral key of this one. -/
def copiedPacket : Packet :=
  let request : LpdRequest := ⟨sampleField 1, sampleField 3, 0, sampleField 5, sampleField 4⟩
  ⟨1, request, checksum.sign [9] (lpdRequestPayload request)⟩

/-- The offer that answers it. -/
def copiedAnswer : Answer := ⟨.offer (sampleField 5) 1 (sampleField 1) (sampleField 5), true, ⟨4000, sampleField 6⟩,
  checksum.sign [7] (lpdOfferPayload ⟨sampleField 1, sampleField 5, ⟨4000, sampleField 6⟩⟩
    (sampleField 4))⟩

/-- **A port that the agent never returned, and an access that it gave to another client.** Only the low 32 bits of the
    port are signed, and an offer does not name the client. -/
theorem access_disagreement :
    startClient .checksum sampleClient (sampleAnswer (4000 + 2 ^ 32)) = some ⟨4000 + 2 ^ 32, sampleField 6⟩ ∧
    (run .checksum sampleService [sampleGrant]).runs.map (·.2.kcpPort) = [4000] ∧
    startClient .checksum sampleClient copiedAnswer = some ⟨4000, sampleField 6⟩ ∧
    (run .checksum sampleService
      [.discover ⟨copiedPacket, 0, true, sampleField 5⟩ (some (4000, sampleField 6))]).runs.map (·.1.clientID)
      = [sampleField 3] :=
  ⟨startClient_eq_some.mpr ⟨by decide +kernel, rfl⟩, by decide +kernel,
    startClient_eq_some.mpr ⟨by decide +kernel, rfl⟩, by decide +kernel⟩

end Shadow6.CoreGo.Access
