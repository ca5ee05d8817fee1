import Shadow6.CorePony.Runtime
import Shadow6.Library.Signature

/-!
# `CorePony.Hello` — one session for one hello

The actor `Runtime` of `runtime.pony`, which owns the sessions and relays of a process, with the check of a hello in
`crypto/session.c` (`s6p_peer_matches`, `s6p_respond`) and `AgentHandshake` of `session.pony`.

An agent remembers the nonce of a hello for 60 s after it has answered it, and forgets it in a tick only. A hello is
fresh for 30 s by the time that is signed in it. The three readings of the clock on the way (the credits, the
freshness, the table) are taken one after the other, and time passes between them; the record is written last. So when
a nonce has been forgotten, the hello that carried it is no longer fresh (`Spent`), and no hello is answered twice in
a run (`hello_once`). Sessions that end, full tables and exhausted credits only refuse more.

The table is in memory: a run ends with its process.
-/

namespace Shadow6.CorePony

open Library List Dict

/-! ## The check of a hello -/

/-- `"S6Q1"`. -/
def helloMagic : Bytes := [83, 54, 81, 49]

/-- `HELLO`. -/
def helloSize : Nat := 140

/-- `SessionLimits.max_clients()`. -/
def maxClients : Nat := 256

/-- The part of a hello that is signed. -/
def signedPart (hello : Bytes) : Bytes := hello.take 76

/-- The time at which a hello was issued, in seconds: `read64(hello + 4)`. -/
def issuedOf (hello : Bytes) : Nat := ofBE ((hello.take 12).drop 4)

/-- `hello.slice(12, 44)`. -/
def helloNonce (hello : Bytes) : Bytes := (hello.take 44).drop 12

/-- `fresh(hello + 4, now)`. -/
def fresh (hello : Bytes) (now : Nat) : Bool := decide (issuedOf hello ≤ now ∧ now - issuedOf hello ≤ 30)

/-- The clock of the process: `Time.nanos()` is a reading of it, and `Time.now()` gives the seconds of that reading. In
    the time for which a nonce is kept, the seconds pass the age of a fresh hello. -/
structure Clock where
  seconds : (nanos : Nat) → Nat
  paced : ∀ a b, a + 60000000000 ≤ b → seconds a + 30 < seconds b

/-- One clock read in two units. -/
instance : Inhabited Clock := ⟨fun nanos => nanos / 1000000000, by intro a b h; omega⟩

/-- What the process runs on. -/
structure Platform where
  clock : Clock
  scheme : SignatureScheme
  /-- `crypto_generichash` with 16 bytes of output. -/
  generichash : Bytes → Bytes
  /-- The response and the keys that `s6p_respond` makes with its random bytes once the signature is verified. -/
  answer : (seed peer hello : Bytes) → (now : Nat) → (random : Bytes) → Option (Bytes × OCapToken)
  /-- `PeerID(from)`. -/
  peerID : NetAddress → Option String

namespace Platform

variable (M : Platform)

/-- `s6p_peer_matches`. -/
def peerMatches (peer hello : Bytes) : Bool :=
  decide (peer.length = 32 ∧ hello.length = helloSize ∧ hello.take 4 = helloMagic ∧
    M.generichash peer = (hello.take 28).drop 12)

/-- `AgentHandshake.select_peer(peers, hello)`. -/
def selectPeer (peers : List Bytes) (hello : Bytes) : Option Bytes := peers.find? fun peer => M.peerMatches peer hello

/-- `signed_input` of a hello. -/
def signedInput (packet client agent : Bytes) : Bytes := packet ++ client ++ agent

/-- `s6p_respond`, as `AgentHandshake` calls it. -/
def respond (seed peer hello : Bytes) (now : Nat) (random : Bytes) : Option (Bytes × OCapToken) :=
  if seed.length ≠ 32 ∨ peer.length ≠ 32 ∨ hello.length ≠ helloSize then none
  else if hello.take 4 ≠ helloMagic ∨ ¬ fresh hello now then none
  else if ¬ M.scheme.verify peer (signedInput (signedPart hello) peer (M.scheme.publicKey seed)) (hello.drop 76) then none
  else M.answer seed peer hello now random

theorem respond_fresh {sd p hello : Bytes} {now : Nat} {rnd : Bytes} {r : Bytes × OCapToken}
    (h : M.respond sd p hello now rnd = some r) : fresh hello now = true := by
  unfold respond at h
  split at h
  · cases h
  split at h
  · cases h
  · rename_i hfsh
    exact of_not_not (not_or.mp hfsh).2

end Platform

/-! ## The actor -/

/-- The fields of `Configuration` that are read here. -/
structure Configuration where
  client : Bool
  broker : Bool
  seed : Bytes
  peerKeys : List Bytes
  /-- `_peer`. -/
  peer : NetAddress

/-- What `ClientSession.agent` is created with. -/
structure AgentSession where
  id : String
  hello : Bytes
  response : Bytes
  token : OCapToken

/-- `Runtime`. Its sessions and relays are named by the number with which they were created; `agents` lists the agent
    sessions of the run, `now` is the clock. -/
structure Runtime where
  sessions : Dict String Nat
  relays : Dict String Nat
  recent : Dict Bytes Nat
  credits : Nat
  refilled : Nat
  closed : Bool
  flowDone : Bool
  reconnectAt : Nat
  reconnectAttempt : Nat
  spawned : Nat
  agents : List AgentSession
  now : Nat

namespace Runtime

/-- `new create(...)`; an address that cannot be resolved leaves it closed. -/
def create (resolved : Bool) (now : Nat) : Runtime where
  sessions := .empty
  relays := .empty
  recent := .empty
  credits := 256
  refilled := now
  closed := !resolved
  flowDone := false
  reconnectAt := 0
  reconnectAttempt := 0
  spawned := 0
  agents := []
  now := now

variable (r : Runtime)

/-- Time passes. -/
def wait (nanos : Nat) : Runtime := { r with now := r.now + nanos }

/-- `SessionLimits.reconnect_delay(attempt)`. -/
def reconnectDelay (attempt : Nat) : Nat := 250000000 * 2 ^ min attempt 6

/-- `_admit()`. -/
def admits : Bool × Runtime :=
  let extra := (r.now - r.refilled) / 15625000
  let r := if 0 < extra then { r with credits := min (r.credits + extra) 256, refilled := r.now } else r
  if r.credits = 0 then (false, r) else (true, { r with credits := r.credits - 1 })

/-- A session or relay of this number is created for the peer. -/
def spawnSession (id : String) : Runtime :=
  { r with sessions := r.sessions.set id r.spawned, spawned := r.spawned + 1 }

/-- The end of `received` for an agent: the table, the handshake, the session. -/
def answerHello (M : Platform) (cfg : Configuration) (r : Runtime) (id : String) (hello : Bytes) (pause pause' : Nat)
    (random : Bytes) : Runtime :=
  if maxClients ≤ r.sessions.size ∨ 1024 ≤ r.recent.size then r
  else if helloNonce hello ∈ r.recent then r
  else
    match M.selectPeer cfg.peerKeys hello with
    | none => r
    | some peerKey =>
      let r := r.wait pause
      match M.respond cfg.seed peerKey hello (M.clock.seconds r.now) random with
      | none => r
      | some (response, token) =>
        let r := r.wait pause'
        let r := { r with recent := r.recent.set (helloNonce hello) (r.now + 60000000000) }
        { r.spawnSession id with agents := r.agents ++ [⟨id, hello, response, token⟩] }

/-- `received(data, from, ...)`; the pauses are before the second and the third reading of the clock. -/
def received (M : Platform) (cfg : Configuration) (r : Runtime) (data : Bytes) (sender : NetAddress)
    (pause pause' : Nat) (random : Bytes) : Runtime :=
  if r.closed then r
  else
    match M.peerID sender with
    | none => r
    | some id =>
      -- for a session or a relay that exists
      if id ∈ r.sessions then r
      else if cfg.broker ∧ id ∈ r.relays then r
      else if cfg.client ∨ data.length ≠ helloSize then r
      else if ¬ r.admits.1 then r.admits.2
      else if data.take 4 ≠ helloMagic then r.admits.2
      else if cfg.broker then
        if maxClients ≤ r.relays.size then r.admits.2
        else { r.admits.2 with relays := r.relays.set id r.spawned, spawned := r.spawned + 1 }
      else r.admits.2.answerHello M cfg id data pause pause' random

/-- `failed()`; the sessions and relays are told to close, and retire later. -/
def failed : Runtime := { r with closed := true }

/-- `bound(application)`. -/
def bound (M : Platform) (cfg : Configuration) (r : Runtime) : Runtime :=
  if r.closed then r
  else if cfg.client then
    match M.peerID cfg.peer with
    | some id => r.spawnSession id
    | none => r.failed
  else r

/-- The reconnection at the beginning of `tick`. -/
def reconnect (M : Platform) (cfg : Configuration) (r : Runtime) : Runtime :=
  if cfg.client ∧ r.sessions.size = 0 ∧ r.reconnectAt ≠ 0 ∧ r.reconnectAt ≤ r.now then
    match M.peerID cfg.peer with
    | some id => { r.spawnSession id with reconnectAt := 0 }
    | none => r
  else r

/-- `tick()`. -/
def tick (M : Platform) (cfg : Configuration) (r : Runtime) : Runtime :=
  if r.closed then r
  else
    let r := r.reconnect M cfg
    { r with recent := r.recent.filter fun _ expiresAt => !decide (expiresAt ≤ r.now) }

/-- `retired(id, session)`. -/
def retired (cfg : Configuration) (r : Runtime) (id : String) (session : Nat) : Runtime :=
  if r.sessions.find? id = some session then
    let r := { r with sessions := r.sessions.erase id }
    if cfg.client ∧ ¬ r.flowDone then
      { r with
        reconnectAt := r.now + reconnectDelay r.reconnectAttempt
        reconnectAttempt := min (r.reconnectAttempt + 1) 6 }
    else if r.flowDone then { r with closed := true }
    else r
  else r

/-- `relay_retired(id, relay)`. -/
def relayRetired (id : String) (relay : Nat) : Runtime :=
  if r.relays.find? id = some relay then { r with relays := r.relays.erase id } else r

/-- The behaviours of the actor, and the passing of time. -/
inductive Message where
  | wait (nanos : Nat)
  | bound
  | tick
  | received (data : Bytes) (sender : NetAddress) (pause pause' : Nat) (random : Bytes)
  | retired (id : String) (session : Nat)
  | relayRetired (id : String) (relay : Nat)
  | established
  /-- `flow_closed()` and `flow_drained()`. -/
  | flowClosed
  /-- `failed()` and `flow_failed()`. -/
  | failed

def step (M : Platform) (cfg : Configuration) (r : Runtime) : Message → Runtime
  | .wait nanos => r.wait nanos
  | .bound => r.bound M cfg
  | .tick => r.tick M cfg
  | .received data sender pause pause' random => r.received M cfg data sender pause pause' random
  | .retired id session => r.retired cfg id session
  | .relayRetired id relay => r.relayRetired id relay
  | .established => { r with reconnectAttempt := 0 }
  | .flowClosed => { r with flowDone := true }
  | .failed => r.failed

/-! ## A hello that has been answered -/

/-- No later moment answers this hello: its nonce is remembered, or it has been kept for as long as it had to be. The
    hello was issued at `answered` or before, by the clock of the agent. -/
def Spent (M : Platform) (r : Runtime) (hello : Bytes) : Prop :=
  ∃ answered, issuedOf hello ≤ M.clock.seconds answered ∧
    ((∃ expiresAt, r.recent.find? (helloNonce hello) = some expiresAt ∧ answered + 60000000000 ≤ expiresAt) ∨
      answered + 60000000000 ≤ r.now)

/-- Every hello of the run was answered once, and is spent. -/
structure Sound (M : Platform) (r : Runtime) : Prop where
  once : (r.agents.map fun s => signedPart s.hello).Nodup
  spent : ∀ s ∈ r.agents, r.Spent M s.hello

/-- From `r` to `r'` no agent session was created, and nothing was forgotten before its time. -/
structure Keeps (r r' : Runtime) : Prop where
  agents : r'.agents = r.agents
  now : r.now ≤ r'.now
  recent : ∀ nonce expiresAt, r.recent.find? nonce = some expiresAt →
    r'.recent.find? nonce = some expiresAt ∨ expiresAt ≤ r'.now

variable {M : Platform} {cfg : Configuration} {r r' r'' : Runtime}

theorem Keeps.of_recent_eq (hagen : r'.agents = r.agents) (hnow : r.now ≤ r'.now) (hrec : r'.recent = r.recent) :
    Keeps r r' := by
  refine ⟨hagen, hnow, ?_⟩
  intro nonce ea hfd
  rw [hrec]
  exact .inl hfd

theorem Keeps.refl (r : Runtime) : Keeps r r := .of_recent_eq rfl (le_refl _) rfl

theorem Keeps.trans (h : Keeps r r') (h' : Keeps r' r'') : Keeps r r'' where
  agents := h'.agents.trans h.agents
  now := h.now.trans h'.now
  recent := by
    intro nonce ea hfd
    rcases h.recent nonce ea hfd with hkept | hpast
    · exact h'.recent nonce ea hkept
    · exact .inr (hpast.trans h'.now)

theorem Spent.keeps {hello : Bytes} (h : r.Spent M hello) (hkp : Keeps r r') : r'.Spent M hello := by
  obtain ⟨answered, hiss, hkept | hpast⟩ := h
  · obtain ⟨expiresAt, hfd, hlate⟩ := hkept
    refine ⟨answered, hiss, ?_⟩
    rcases hkp.recent _ _ hfd with hfd' | hexp
    · exact .inl ⟨expiresAt, hfd', hlate⟩
    · exact .inr (hlate.trans hexp)
  · exact ⟨answered, hiss, .inr (hpast.trans hkp.now)⟩

theorem Sound.keeps (h : Sound M r) (hkp : Keeps r r') : Sound M r' where
  once := by
    rw [hkp.agents]
    exact h.once
  spent := by
    intro s hs
    rw [hkp.agents] at hs
    exact (h.spent s hs).keeps hkp

theorem issuedOf_signedPart (hello : Bytes) : issuedOf (signedPart hello) = issuedOf hello := by
  unfold issuedOf signedPart
  rw [take_take]
  rfl

theorem helloNonce_signedPart (hello : Bytes) : helloNonce (signedPart hello) = helloNonce hello := by
  unfold helloNonce signedPart
  rw [take_take]
  rfl

/-- **A spent hello is refused**, by its nonce or by its age; so is any other with the same signed part. -/
theorem Spent.refuses {hello hello' : Bytes} (h : r.Spent M hello) (hsig : signedPart hello' = signedPart hello)
    (hnon : helloNonce hello' ∉ r.recent) {now : Nat} (hnow : r.now ≤ now) :
    fresh hello' (M.clock.seconds now) = false := by
  obtain ⟨answered, hiss, hkept | hpast⟩ := h
  · obtain ⟨expiresAt, hfd, -⟩ := hkept
    rw [← helloNonce_signedPart, ← hsig, helloNonce_signedPart] at hfd
    exact absurd (mem_of_find? hfd) hnon
  have hlate := M.clock.paced answered now (hpast.trans hnow)
  rw [← issuedOf_signedPart, ← hsig, issuedOf_signedPart] at hiss
  unfold fresh
  rw [decide_eq_false_iff_not]
  omega

/-! ## What one message does -/

variable (r)

theorem keeps_wait (ns : Nat) : Keeps r (r.wait ns) :=
  .of_recent_eq rfl (Nat.le_add_right _ _) rfl

theorem keeps_admits : Keeps r r.admits.2 := by
  unfold admits
  dsimp only
  split <;> split <;> exact .of_recent_eq rfl (le_refl _) rfl

theorem keeps_bound : Keeps r (r.bound M cfg) := by
  unfold bound
  split
  · exact .refl r
  split
  · split <;> exact .of_recent_eq rfl (le_refl _) rfl
  · exact .refl r

theorem keeps_reconnect : Keeps r (r.reconnect M cfg) := by
  unfold reconnect
  split
  · split <;> exact .of_recent_eq rfl (le_refl _) rfl
  · exact .refl r

theorem keeps_tick : Keeps r (r.tick M cfg) := by
  unfold tick
  split
  · exact .refl r
  refine (keeps_reconnect (M := M) r).trans ⟨rfl, le_refl _, ?_⟩
  intro nonce ea hfd
  by_cases hexp : ea ≤ (r.reconnect M cfg).now
  · exact .inr hexp
  refine .inl ?_
  rw [Dict.find?_filter, hfd, Option.filter_some, if_pos]
  rw [decide_eq_false hexp]
  rfl

theorem keeps_retired (id : String) (ss : Nat) : Keeps r (r.retired cfg id ss) := by
  unfold retired
  split
  · dsimp only
    split
    · exact .of_recent_eq rfl (le_refl _) rfl
    · split <;> exact .of_recent_eq rfl (le_refl _) rfl
  · exact .refl r

theorem keeps_relayRetired (id : String) (rl : Nat) : Keeps r (r.relayRetired id rl) := by
  unfold relayRetired
  split
  · exact .of_recent_eq rfl (le_refl _) rfl
  · exact .refl r

variable {r}

/-- The session for a hello that was answered; everything before it was not this hello. -/
theorem Sound.answered {id : String} {hello response : Bytes} {token : OCapToken} {moment : Nat} (h : Sound M r)
    (hnon : helloNonce hello ∉ r.recent) (hnow : r.now ≤ moment) (hlat : moment ≤ r'.now)
    (hfsh : fresh hello (M.clock.seconds moment) = true)
    (hagen : r'.agents = r.agents ++ [⟨id, hello, response, token⟩])
    (hrec : r'.recent = r.recent.set (helloNonce hello) (r'.now + 60000000000)) : Sound M r' := by
  have hnew : ∀ s ∈ r.agents, signedPart s.hello ≠ signedPart hello := by
    intro s hs heq
    rw [(h.spent s hs).refuses heq.symm hnon hnow] at hfsh
    cases hfsh
  have hkept : ∀ s ∈ r.agents, r'.Spent M s.hello := by
    intro s hs
    obtain ⟨answered, hiss, hkept | hpast⟩ := h.spent s hs
    · obtain ⟨expiresAt, hfd, hlate⟩ := hkept
      refine ⟨answered, hiss, .inl ⟨expiresAt, ?_, hlate⟩⟩
      rw [hrec]
      exact find?_set_of_not_mem hnon hfd
    · exact ⟨answered, hiss, .inr (hpast.trans (hnow.trans hlat))⟩
  have hiss : issuedOf hello ≤ M.clock.seconds moment := (of_decide_eq_true hfsh).1
  constructor
  · rw [hagen, map_append, nodup_append]
    refine ⟨h.once, nodup_singleton _, ?_⟩
    intro a ha b hb
    obtain ⟨s, hs, rfl⟩ := mem_map.mp ha
    rw [map_singleton, mem_singleton] at hb
    rw [hb]
    exact hnew s hs
  · rw [hagen]
    refine forall_mem_append.mpr ⟨hkept, forall_mem_singleton.mpr ?_⟩
    refine ⟨moment, hiss, .inl ⟨r'.now + 60000000000, ?_, Nat.add_le_add_right hlat _⟩⟩
    rw [hrec, find?_set_self]

theorem Sound.answerHello {id : String} {hello rnd : Bytes} {p p' : Nat} (h : Sound M r) :
    Sound M (r.answerHello M cfg id hello p p' rnd) := by
  unfold Runtime.answerHello
  split
  · exact h
  split
  · exact h
  rename_i hnon
  cases M.selectPeer cfg.peerKeys hello with
  | none => exact h
  | some pk =>
    dsimp only
    cases hres : M.respond cfg.seed pk hello (M.clock.seconds (r.wait p).now) rnd with
    | none => exact h.keeps (keeps_wait r p)
    | some answer =>
      have hfsh := M.respond_fresh hres
      -- the freshness is read before the table is written
      exact h.answered hnon (Nat.le_add_right _ _) (Nat.le_add_right _ _) hfsh rfl rfl

theorem Sound.received {dt rnd : Bytes} {sd : NetAddress} {p p' : Nat} (h : Sound M r) :
    Sound M (r.received M cfg dt sd p p' rnd) := by
  have hadm := h.keeps (keeps_admits r)
  unfold Runtime.received
  split
  · exact h
  cases M.peerID sd with
  | none => exact h
  | some id =>
    dsimp only
    split
    · exact h
    split
    · exact h
    split
    · exact h
    split
    · exact hadm
    split
    · exact hadm
    split
    · split
      · exact hadm
      · exact hadm.keeps (.of_recent_eq rfl (le_refl _) rfl)
    · exact hadm.answerHello

theorem Sound.step (h : Sound M r) (m : Message) : Sound M (r.step M cfg m) := by
  cases m with
  | wait ns => exact h.keeps (keeps_wait r ns)
  | bound => exact h.keeps (keeps_bound r)
  | tick => exact h.keeps (keeps_tick r)
  | received data sender p p' random => exact h.received
  | retired id session => exact h.keeps (keeps_retired r id session)
  | relayRetired id rl => exact h.keeps (keeps_relayRetired r id rl)
  | established | flowClosed | failed => exact h.keeps (.of_recent_eq rfl (le_refl _) rfl)

/-- **One hello, one session.** In every run of the actor, no two agent sessions were created from hellos with the same
    signed part. -/
theorem hello_once (M : Platform) (cfg : Configuration) (resolved : Bool) (now : Nat) (messages : List Message) :
    ((messages.foldl (step M cfg) (create resolved now)).agents.map fun s => signedPart s.hello).Nodup := by
  have hstart : Sound M (create resolved now) := ⟨nodup_nil, by rintro s ⟨⟩⟩
  exact (foldl_invariant (fun _ m h => h.step m) hstart messages).once

end Runtime

end Shadow6.CorePony
