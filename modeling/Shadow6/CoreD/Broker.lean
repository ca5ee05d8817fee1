import Shadow6.Library.Machine

/-!
# `CoreD.Broker` — whom the broker of Core-D answers

`broker` of `Core-D/src/runtime.d` keeps its connections in sixteen slots. It remembers the client of a grant by its
slot, and a slot is free for the next connection as soon as its peer is dropped. As long as no peer leaves while a grant
of its is unanswered, every answer goes to the connection that asked (`answers_routed`). Otherwise the answer may go to
the next connection in the slot, or the agent that answers is dropped (`answer_misrouted`).

A connection is named by its number; what the network and the peers do is in the events.
-/

namespace Shadow6.CoreD

open Library Function

/-! ## The broker -/

/-- `Peer`, with the number of its connection for the handle. -/
structure Peer where
  connection : Nat
  configIndex : Nat
  agent : Bool
  pendingClient : Option (Fin 16)
  /-- The connection whose access request caused the latest grant to this agent (a history variable). -/
  asker : Nat

/-- What the broker reads in its configuration: `findPeer`, `allowed`, and whether the signature of an access request
    verifies under the client's key. -/
structure Config where
  findPeer : String → Option (Nat × Bool)
  allowed : Nat → String → Bool
  verified : Nat → (target ephemeral signature : String) → Bool

/-- A message; `other` is also what cannot be read, and the end of the connection. -/
inductive Message where
  | access (target ephemeral signature : String)
  | ready (port : Int) (ephemeral signature : String)
  | other

/-- What the broker has sent, and which agents it has dropped because their client was gone. -/
inductive Entry where
  | grant (client agent : Nat) (ephemeral signature : String)
  | ready (agent asker client : Nat) (port : Int) (ephemeral signature host : String)
  | orphaned (agent : Nat)

/-- The state of `broker`, the number of connections so far and the history, latest first. -/
structure Broker where
  peers : Fin 16 → Option Peer
  accepted : Nat
  log : List Entry

namespace Broker

def start : Broker := ⟨fun _ => none, 0, []⟩

variable (s : Broker)

/-- `drop(peers[i])`. -/
def drop (i : Fin 16) : Broker := { s with peers := update s.peers i none }

/-- The first slot without a connection. -/
def freeSlot : Option (Fin 16) := (List.finRange 16).find? fun i => (s.peers i).isNone

/-- `peerByConfig(peers, configIndex)`. -/
def peerByConfig (configIndex : Nat) : Option (Fin 16 × Peer) :=
  (List.finRange 16).findSome? fun i => ((s.peers i).filter fun p => p.configIndex = configIndex).map (i, ·)

/-- A connection, with what `authenticateBroker` returned for it. -/
def connect (login : Option (Nat × Bool)) : Broker :=
  match s.freeSlot, login with
  | some slot, some (configIndex, agent) =>
    { s with
      peers := update (fun i => (s.peers i).filter fun p => p.configIndex ≠ configIndex) slot
        (some ⟨s.accepted, configIndex, agent, none, 0⟩)
      accepted := s.accepted + 1 }
  | _, _ => { s with accepted := s.accepted + 1 }

/-- An access request of `peer`; `sent` is what `text` returned for the grant. -/
def access (cfg : Config) (i : Fin 16) (peer : Peer) (target ephemeral signature : String) (sent : Bool) : Broker :=
  match (cfg.findPeer target).bind fun t => if t.2 then s.peerByConfig t.1 else none with
  | none => s.drop i
  | some (j, agent) =>
    if !cfg.allowed peer.configIndex target || !cfg.verified peer.configIndex target ephemeral signature ||
        agent.pendingClient.isSome then s.drop i
    else if !sent then (s.drop j).drop i
    else
      { s with
        peers := update s.peers j (some { agent with pendingClient := some i, asker := peer.connection })
        log := .grant peer.connection agent.connection ephemeral signature :: s.log }

/-- The answer of `peer` for the client in a slot; `ip` is what `socketIP` found. -/
def ready (i : Fin 16) (peer : Peer) (client : Fin 16) (port : Int) (ephemeral signature : String) (ip : Option String)
    (sent : Bool) : Broker :=
  let s' := { s with peers := update s.peers i (some { peer with pendingClient := none }) }
  if port < 1 ∨ port > 65535 then s.drop i
  else
    match s.peers client, ip with
    | none, _ => { s.drop i with log := .orphaned peer.connection :: s.log }
    | some _, none => s.drop i
    | some receiver, some host =>
      if !sent then s'.drop client
      else
        { s' with log := .ready peer.connection peer.asker receiver.connection port ephemeral signature host :: s.log }

/-- A message from the peer in a slot. -/
def receive (cfg : Config) (i : Fin 16) (peer : Peer) (ip : Option String) (sent : Bool) : Message → Broker
  | .access target ephemeral signature =>
    if peer.agent then s.drop i else s.access cfg i peer target ephemeral signature sent
  | .ready port ephemeral signature =>
    match peer.agent, peer.pendingClient with
    | true, some client => s.ready i peer client port ephemeral signature ip sent
    | _, _ => s.drop i
  | .other => s.drop i

end Broker

inductive Event where
  | connect (login : Option (Nat × Bool))
  | message (i : Fin 16) (m : Message) (ip : Option String) (sent : Bool)

/-- One turn of the loop of `broker` for the listener or for one peer. -/
def step (cfg : Config) (s : Broker) : Event → Broker
  | .connect login => s.connect login
  | .message i m ip sent =>
    match s.peers i with
    | none => s
    | some peer => s.receive cfg i peer ip sent m

def run (cfg : Config) (es : List Event) : Broker := es.foldl (step cfg) .start

/-! ## Who asked -/

/-- An answer went to the connection that had asked; an agent that was dropped because its client was gone did not
    answer at all. -/
def Entry.Routed : Entry → Prop
  | .grant .. => True
  | .ready _ asker client .. => client = asker
  | .orphaned _ => False

/-- The connection in a slot. -/
def Broker.connectionAt (s : Broker) (i : Fin 16) : Option Nat := (s.peers i).map Peer.connection

/-- No peer leaves on whose behalf a grant is unanswered. -/
def Waits (cfg : Config) (s : Broker) (e : Event) : Prop :=
  ∀ i j, ((step cfg s e).peers j).bind Peer.pendingClient = some i →
    s.connectionAt i = none ∨ (step cfg s e).connectionAt i = s.connectionAt i

instance (cfg : Config) (s : Broker) (e : Event) : Decidable (Waits cfg s e) :=
  inferInstanceAs (Decidable (∀ _ _ : Fin 16, _ = _ → _ ∨ _))

/-! ## Every run -/

/-- Whom a peer waits for is in its slot. -/
def Broker.Known (s : Broker) (p : Peer) : Prop := ∀ i, p.pendingClient = some i → s.connectionAt i = some p.asker

structure Sound (s : Broker) : Prop where
  known : ∀ j, ∀ p ∈ s.peers j, s.Known p
  routed : ∀ x ∈ s.log, x.Routed

variable {cfg : Config} {s : Broker} {i : Fin 16} {pe : Peer}

/-- What a step has to keep. -/
def Keeps (s s' : Broker) : Prop := (∀ j, ∀ p ∈ s'.peers j, s.Known p) ∧ ∀ x ∈ s'.log, x.Routed

theorem known_update {ps : Fin 16 → Option Peer} {q : Option Peer} (h : ∀ j, ∀ p ∈ ps j, s.Known p) (i : Fin 16)
    (hq : ∀ p ∈ q, s.Known p) : ∀ j, ∀ p ∈ update ps i q j, s.Known p :=
  (forall_update_iff ps fun _ q => ∀ p ∈ q, s.Known p).mpr ⟨hq, fun j _ => h j⟩

theorem Sound.drop (h : Sound s) (i : Fin 16) : Keeps s (s.drop i) := ⟨known_update h.known i nofun, h.routed⟩

theorem Sound.connect (h : Sound s) (l : Option (Nat × Bool)) : Keeps s (s.connect l) := by
  unfold Broker.connect
  split
  · refine ⟨known_update (fun j p hp => ?_) _ fun p hp => by cases hp; nofun, h.routed⟩
    exact h.known j p (Option.filter_eq_some_iff.mp hp).1
  · exact ⟨h.known, h.routed⟩

theorem Sound.access (h : Sound s) (hpeer : s.peers i = some pe) (t ep sg : String) (sn : Bool) :
    Keeps s (s.access cfg i pe t ep sg sn) := by
  unfold Broker.access
  split
  · exact h.drop i
  rename_i j agent _
  split_ifs
  · exact h.drop i
  · exact ⟨known_update (h.drop j).1 i nofun, h.routed⟩
  refine ⟨known_update h.known j fun p hp client hcli => ?_, List.forall_mem_cons.mpr ⟨trivial, h.routed⟩⟩
  cases hp
  cases hcli
  rw [Broker.connectionAt, hpeer, Option.map_some]

theorem Sound.ready {cl : Fin 16} (h : Sound s) (hpeer : s.peers i = some pe)
    (hcli : pe.pendingClient = some cl) (pr : Int) (ep sg : String) (ip : Option String)
    (sn : Bool) : Keeps s (s.ready i pe cl pr ep sg ip sn) := by
  have hans := known_update h.known i (q := some { pe with pendingClient := none }) fun p hp => by cases hp; nofun
  have hasker : (s.peers cl).map Peer.connection = some pe.asker := h.known i pe hpeer cl hcli
  unfold Broker.ready
  split
  · exact h.drop i
  split
  · rename_i hnone
    rw [hnone] at hasker
    cases hasker
  · exact h.drop i
  rename_i receiver host hrcvr
  rw [hrcvr] at hasker
  split_ifs
  · exact ⟨known_update hans cl nofun, h.routed⟩
  · exact ⟨hans, List.forall_mem_cons.mpr ⟨Option.some.inj hasker, h.routed⟩⟩

theorem Sound.receive (h : Sound s) (hpeer : s.peers i = some pe) (ip : Option String) (sn : Bool) (m : Message) :
    Keeps s (s.receive cfg i pe ip sn m) := by
  cases m with
  | access t ep sg =>
    rw [Broker.receive]
    split_ifs
    · exact h.drop i
    · exact h.access hpeer t ep sg sn
  | ready p ep sg =>
    rw [Broker.receive]
    split
    · rename_i client _ hcli
      exact h.ready hpeer hcli p ep sg ip sn
    · exact h.drop i
  | other => exact h.drop i

theorem Sound.step {e : Event} (h : Sound s) (hwaits : Waits cfg s e) : Sound (CoreD.step cfg s e) := by
  have hkp : Keeps s (CoreD.step cfg s e) := by
    cases e with
    | connect l => exact h.connect l
    | message i m ip sent =>
      rw [CoreD.step]
      split
      · exact ⟨h.known, h.routed⟩
      · rename_i pe hpeer
        exact h.receive hpeer ip sent m
  refine ⟨fun j p hp i hcli => ?_, hkp.2⟩
  have hkn := hkp.1 j p hp i hcli
  rcases hwaits i j (by rw [hp]; exact hcli) with hgone | hsm
  · rw [hgone] at hkn
    cases hkn
  · rw [hsm, hkn]

/-- **Answers reach the client that asked**, in every run in which no peer leaves while a grant of its is unanswered; and
    no agent is dropped because its client is gone. -/
theorem answers_routed (cfg : Config) (es : List Event) (h : Along (step cfg) (Waits cfg) .start es) :
    ∀ x ∈ (run cfg es).log, x.Routed :=
  (h.invariant (I := Sound) (fun _ _ hs hwaits => hs.step hwaits) ⟨nofun, nofun⟩).routed

/-! ## A client that leaves -/

/-- One agent and any number of clients, whose requests are in order. -/
def sampleConfig : Config := ⟨fun id => if id = "agent" then some (1, true) else none, fun _ _ => true, fun _ _ _ _ => true⟩

/-- An agent and a client connect, and the client asks for the agent. -/
def request : List Event :=
  [.connect (some (1, true)), .connect (some (2, false)), .message 1 (.access "agent" "ephemeral" "signature") none true]

/-- The agent answers. -/
def answer : Event := .message 0 (.ready 4000 "ephemeral" "signature") (some "host") true

theorem answers_routed_request : Along (step sampleConfig) (Waits sampleConfig) .start (request ++ [answer]) ∧
    ∀ x ∈ (run sampleConfig (request ++ [answer])).log, x.Routed := by
  have halong : Along (step sampleConfig) (Waits sampleConfig) .start (request ++ [answer]) := by decide +kernel
  exact ⟨halong, answers_routed sampleConfig _ halong⟩

/-- **An answer to the wrong client**: when the client has left, the answer goes to the next client in its slot, or the
    agent is dropped if there is none. -/
theorem answer_misrouted :
    (run sampleConfig (request ++ [.message 1 .other none true, .connect (some (3, false)), answer])).log
      = [.ready 0 1 2 4000 "ephemeral" "signature" "host", .grant 1 0 "ephemeral" "signature"] ∧
    (run sampleConfig (request ++ [.message 1 .other none true, answer])).log
      = [.orphaned 0, .grant 1 0 "ephemeral" "signature"] ∧
    (run sampleConfig (request ++ [.message 1 .other none true, answer])).peers 0 = none := ⟨rfl, rfl, rfl⟩

end Shadow6.CoreD
