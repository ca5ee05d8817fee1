import Shadow6.Library.Dict
import Shadow6.Library.Machine
import Shadow6.Library.Replay
import Shadow6.NodeIpc.Wire
import Shadow6.Portable.Admission

/-!
# `NodeIpc.AtMostOnce` — how often a request reaches the handler

`ReplayCache` and the two servers of `Node-IPC/shadow6_ipc.mjs`. A body is checked, its nonce is reserved, and the
handler is called; nothing is awaited between, so bodies are taken one after the other. The check and the reservation
read the clock separately. The reservation first deletes what has expired at its own reading, and this is where the
boundary is open: a request checked in the last second of its window and reserved in the next one has its own entry
deleted, and is handled again. A second gap is in the nonce. A pattern is tested on the text of a value, so an array
that holds the nonce passes; as a key of the `Map` it is equal to no other key.

Apart from these two, a request is handled at most once.
-/

namespace Shadow6.NodeIpc

open Library Json Portable List Dict

/-! ## The replay cache -/

/-- A key of a `Map`: a string, or an object that is equal to itself only. -/
inductive Key where
  | text (s : Text)
  | object (identity : Nat)
deriving DecidableEq

/-- The key that a parsed nonce is. A number, a boolean or `null` never passes the pattern of a nonce. -/
def keyOf (identity : Nat) : Json → Key
  | .str s => .text s
  | _ => .object identity

/-- `ReplayCache`. -/
structure ReplayCache where
  capacity : Nat
  entries : Dict Key Int

/-- `reserve(nonce, expires)`; `now` is what `this.clock()` returns. -/
def ReplayCache.reserve (c : ReplayCache) (now : Int) (nonce : Key) (expires : Int) : Except JsError Unit × ReplayCache :=
  let c := { c with entries := c.entries.filter fun _ expiry => decide (now ≤ expiry) }
  if nonce ∈ c.entries then (.error (typeError "IPC replay detected"), c)
  else if c.capacity ≤ c.entries.size then (.error (typeError "IPC replay capacity reached"), c)
  else (.ok (), { c with entries := c.entries.set nonce expires })

/-! ## A server -/

/-- What a server does with a body before it reserves the nonce, given its readings of the clock. -/
abbrev Check := (lower upper : Int) → (body : Bytes) → Except JsError Request

/-- `FastRPCServer`. -/
def fastRPCServer (C : Crypto) (key : Bytes) : Check := fastRpcCheck C key

/-- `RawIPCServer`: one reading. -/
def rawIPCServer (C : Crypto) (key : Bytes) : Check := fun lower _ body => rawCheck C key lower body

/-- A request that has reached the handler. -/
structure Handled where
  body : Bytes
  nonce : Key
  issuedAt : Int
deriving DecidableEq

/-- The expiry of the entry of a request. -/
def Handled.deadline (h : Handled) : Int := h.issuedAt + 60

/-- A server, with the clock, the number of bodies parsed so far (each parsed object is a new one) and the requests
    that have reached the handler, each with the reading at its reservation. -/
structure Server where
  clock : Int
  cache : ReplayCache
  parsed : Nat
  handled : List (Handled × Int)

open Server

def Server.start (capacity : Nat) (clock : Int) : Server := ⟨clock, ⟨capacity, Dict.empty⟩, 0, []⟩

/-- A body is delivered. `first`, `second` and `third` are the seconds that pass before the readings for the lower and
    the upper end of the window and before the reading of the reservation. -/
structure Delivery where
  body : Bytes
  first : Nat
  second : Nat
  third : Nat

/-- The readings of the clock during a delivery. -/
def Delivery.lower (d : Delivery) (clock : Int) : Int := clock + d.first

def Delivery.upper (d : Delivery) (clock : Int) : Int := d.lower clock + d.second

def Delivery.reservation (d : Delivery) (clock : Int) : Int := d.upper clock + d.third

/-- `exchange(body)` up to the call of the handler. -/
def Server.step (check : Check) (s : Server) (d : Delivery) : Server :=
  match check (d.lower s.clock) (d.upper s.clock) d.body with
  | .error _ => { s with clock := d.reservation s.clock, parsed := s.parsed + 1 }
  | .ok r =>
    let key := keyOf s.parsed r.nonce
    match s.cache.reserve (d.reservation s.clock) key (r.issuedAt + 60) with
    | (.error _, cache) => { s with clock := d.reservation s.clock, cache, parsed := s.parsed + 1 }
    | (.ok (), cache) =>
      ⟨d.reservation s.clock, cache, s.parsed + 1, s.handled ++ [(⟨d.body, key, r.issuedAt⟩, d.reservation s.clock)]⟩

/-- The bodies that have reached the handler. -/
def Server.bodies (s : Server) : List Bytes := s.handled.map fun h => h.1.body

/-! ## What both servers do -/

/-- What a body says does not depend on the clock, and is accepted until 60 seconds after its issue. -/
structure Lawful (check : Check) : Prop where
  determined : ∀ {lower upper lower' upper' : Int} {body : Bytes} {r r' : Request}, check lower upper body = .ok r →
    check lower' upper' body = .ok r' → r = r'
  fresh : ∀ {lower upper : Int} {body : Bytes} {r : Request}, check lower upper body = .ok r → lower ≤ r.issuedAt + 60

variable (C : Crypto) (key : Bytes)

theorem fastRPCServer_lawful : Lawful (fastRPCServer C key) where
  determined := by
    rintro lower upper lower' upper' body ⟨nonce, ia⟩ ⟨nonce', ia'⟩ h h'
    obtain ⟨message, hprs, hnon, hiss, -⟩ := fastRpcCheck_ok h
    obtain ⟨message', hprs', hnon', hiss', -⟩ := fastRpcCheck_ok h'
    rw [hprs] at hprs'
    cases hprs'
    rw [hnon] at hnon'
    rw [hiss] at hiss'
    cases hnon'
    cases hiss'
    rfl
  fresh := by
    intro lower upper body r h
    obtain ⟨message, -, -, -, hlower⟩ := fastRpcCheck_ok h
    exact hlower

theorem rawIPCServer_lawful : Lawful (rawIPCServer C key) where
  determined := by
    rintro lower upper lower' upper' body ⟨nonce, ia⟩ ⟨nonce', ia'⟩ h h'
    obtain ⟨hnon, -, plain, hpl, hiss⟩ := rawCheck_ok h
    obtain ⟨hnon', -, plain', hpl', hiss'⟩ := rawCheck_ok h'
    rw [hpl] at hpl'
    cases hpl'
    dsimp only at hnon hnon' hiss hiss'
    rw [hnon, hnon', hiss, hiss']
  fresh := by
    intro lower upper body r h
    exact (rawCheck_ok h).2.1

/-- **What a reservation does**: it deletes what has expired and, if the nonce is new, writes it. -/
theorem ReplayCache.reserve_cases (c : ReplayCache) (now : Int) (non : Key) (es : Int) :
    (∃ e, c.reserve now non es
      = (.error e, { c with entries := c.entries.filter fun _ ex => decide (now ≤ ex) })) ∨
    (non ∉ c.entries.filter (fun _ ex => decide (now ≤ ex)) ∧ c.reserve now non es
      = (.ok (), { c with entries := (c.entries.filter fun _ ex => decide (now ≤ ex)).set non es })) := by
  unfold ReplayCache.reserve
  by_cases hmem : non ∈ c.entries.filter fun _ ex => decide (now ≤ ex)
  · rw [if_pos hmem]
    exact .inl ⟨_, rfl⟩
  rw [if_neg hmem]
  split_ifs with hfull
  · exact .inl ⟨_, rfl⟩
  · exact .inr ⟨hmem, rfl⟩

/-- A body that passes its check and gets its nonce reserved reaches the handler. -/
theorem Server.step_of_check {chc : Check} {s : Server} {d : Delivery} {r : Request} {ca : ReplayCache}
    (hchk : chc (d.lower s.clock) (d.upper s.clock) d.body = .ok r)
    (hres : s.cache.reserve (d.reservation s.clock) (keyOf s.parsed r.nonce) (r.issuedAt + 60) = (.ok (), ca)) :
    s.step chc d = ⟨d.reservation s.clock, ca, s.parsed + 1,
      s.handled ++ [(⟨d.body, keyOf s.parsed r.nonce, r.issuedAt⟩, d.reservation s.clock)]⟩ := by
  rw [step, hchk]
  dsimp only
  rw [hres]

/-! ## The condition -/

def Key.isText : Key → Bool
  | .text _ => true
  | .object _ => false

/-- A body that has been handled before is delivered again with the boundary closed: its nonce is a string, and the
    clock does not pass the end of its window between the check and the reservation. -/
def Guarded (s : Server) (d : Delivery) : Prop :=
  ∀ h ∈ s.handled, h.1.body = d.body →
    h.1.nonce.isText = true ∧ (d.lower s.clock ≤ h.1.deadline → d.reservation s.clock ≤ h.1.deadline)

instance (s : Server) (d : Delivery) : Decidable (Guarded s d) :=
  inferInstanceAs (Decidable (∀ h ∈ _, _ → _ ∧ (_ → _ ≤ _)))

/-! ## Every run -/

/-- The cache has the entry of a request whose nonce is a string. -/
def Recorded (c : ReplayCache) (h : Handled) : Prop :=
  h.nonce.isText = true → c.entries.find? h.nonce = some h.deadline

/-- A handled request as it was read. -/
def Handled.Reads (check : Check) (h : Handled) : Prop :=
  ∃ lower upper identity r, check lower upper h.body = .ok r ∧ h.issuedAt = r.issuedAt ∧ h.nonce = keyOf identity r.nonce

structure Sound (check : Check) (s : Server) : Prop where
  retained : Retained Handled.deadline (Recorded s.cache) s.clock s.handled
  reads : ∀ a ∈ s.handled, a.1.Reads check
  once : s.bodies.Nodup

theorem Sound.start (chc : Check) (cap : Nat) (clk : Int) : Sound chc (.start cap clk) where
  retained := retained_nil _ _ _
  reads := by simp [Server.start]
  once := by simp [Server.bodies, Server.start]

section

variable {ch : Check} {s : Server}

/-- The clock goes on and expired entries are deleted. -/
theorem Sound.sweep (h : Sound ch s) {now : Int} (hnow : s.clock ≤ now) (p : Nat) :
    Sound ch ⟨now, { s.cache with entries := s.cache.entries.filter fun _ ex => decide (now ≤ ex) }, p,
      s.handled⟩ where
  retained := by
    refine (h.retained.later hnow).drop ?_
    intro a _ hrec
    by_cases hlive : now ≤ a.1.deadline
    · left
      intro htext
      rw [Dict.find?_filter, hrec htext]
      simp [hlive]
    · exact .inr (not_le.mp hlive)
  reads := h.reads
  once := h.once

theorem Sound.accept (h : Sound ch s) {r : Handled} (hkey : r.nonce ∉ s.cache.entries) (hrds : r.Reads ch)
    (hnew : r.body ∉ s.bodies) (p : Nat) :
    Sound ch ⟨s.clock, { s.cache with entries := s.cache.entries.set r.nonce r.deadline }, p,
      s.handled ++ [(r, s.clock)]⟩ where
  retained := by
    have hkept : ∀ a ∈ s.handled, Recorded s.cache a.1 →
        Recorded { s.cache with entries := s.cache.entries.set r.nonce r.deadline } a.1 := by
      intro a _ hrec htext
      exact find?_set_of_not_mem hkey (hrec htext)
    refine Retained.accept (h.retained.drop fun a ha hrec => .inl (hkept a ha hrec)) ?_ s.clock
    intro _
    exact find?_set_self _ _ _
  reads := forall_mem_append.mpr ⟨h.reads, forall_mem_singleton.mpr hrds⟩
  once := by
    show ((s.handled ++ [(r, s.clock)]).map fun h => h.1.body).Nodup
    rw [map_append, map_singleton]
    refine nodup_append.mpr ⟨h.once, nodup_singleton _, ?_⟩
    intro a ha b hb heq
    rw [mem_singleton.mp hb] at heq
    exact hnew (heq ▸ ha)

theorem Delivery.clock_le (d : Delivery) (clock : Int) : clock ≤ d.lower clock ∧ clock ≤ d.reservation clock := by
  unfold Delivery.reservation Delivery.upper Delivery.lower
  omega

/-- **A second delivery finds the entry of the first.** -/
theorem Sound.found (hlaw : Lawful ch) (h : Sound ch s) {d : Delivery} (hguard : Guarded s d) {r : Request}
    (hchk : ch (d.lower s.clock) (d.upper s.clock) d.body = .ok r) (hmem : d.body ∈ s.bodies) (idn : Nat) :
    keyOf idn r.nonce ∈ s.cache.entries.filter fun _ ex => decide (d.reservation s.clock ≤ ex) := by
  obtain ⟨a, ha, hbody⟩ := mem_map.mp hmem
  obtain ⟨htext, hcl⟩ := hguard a ha hbody
  obtain ⟨lower, upper, idn', r', hchk', hiss, hnon⟩ := h.reads a ha
  rw [hbody] at hchk'
  obtain rfl := hlaw.determined hchk hchk'
  -- the request is fresh, so the reservation is made inside its window
  have hfsh : d.lower s.clock ≤ a.1.deadline := by
    rw [Handled.deadline, hiss]
    exact hlaw.fresh hchk
  have hentry : s.cache.entries.find? a.1.nonce = some a.1.deadline := by
    rcases h.retained a ha with hrec | hlate
    · exact hrec htext
    · exact absurd ((d.clock_le s.clock).1.trans hfsh) (not_le.mpr hlate)
  have hkey : keyOf idn r.nonce = a.1.nonce := by
    rw [hnon] at htext ⊢
    cases hr : r.nonce with
    | str t => rfl
    | null | bool | int | arr | obj | foreign =>
      rw [hr] at htext
      cases htext
  rw [hkey, mem_iff_find?]
  refine ⟨a.1.deadline, ?_⟩
  rw [Dict.find?_filter, hentry]
  simp [hcl hfsh]

theorem Sound.step (hlaw : Lawful ch) (h : Sound ch s) {d : Delivery} (hguard : Guarded s d) :
    Sound ch (s.step ch d) := by
  have hclk := (d.clock_le s.clock).2
  cases hchk : ch (d.lower s.clock) (d.upper s.clock) d.body with
  | error e =>
    rw [Server.step, hchk]
    exact ⟨h.retained.later hclk, h.reads, h.once⟩
  | ok r =>
    rcases s.cache.reserve_cases (d.reservation s.clock) (keyOf s.parsed r.nonce) (r.issuedAt + 60) with
      ⟨e, hres⟩ | ⟨hnew, hres⟩
    · rw [Server.step, hchk]
      dsimp only
      rw [hres]
      exact h.sweep hclk _
    rw [step_of_check hchk hres]
    have hswp := h.sweep hclk (s.parsed + 1)
    refine hswp.accept (r := ⟨d.body, keyOf s.parsed r.nonce, r.issuedAt⟩) hnew ?_ ?_ _
    · exact ⟨_, _, s.parsed, r, hchk, rfl, rfl⟩
    · intro hmem
      exact hnew (h.found hlaw hguard hchk hmem s.parsed)

end

/-- The state of a server after some deliveries. -/
def Server.run (check : Check) (capacity : Nat) (clock : Int) (deliveries : List Delivery) : Server :=
  deliveries.foldl (step check) (.start capacity clock)

theorem Lawful.once {chc : Check} (hlaw : Lawful chc) {cap : Nat} {clk : Int} {ds : List Delivery}
    (h : Along (step chc) Guarded (.start cap clk) ds) :
    (run chc cap clk ds).bodies.Nodup :=
  (h.invariant (fun _ _ hsd hguard => Sound.step hlaw hsd hguard) (Sound.start chc cap clk)).once

/-- **At most once.** For any keys, capacity and bodies, at any readings of a clock that does not go back: as long as
    every second delivery of a handled body is `Guarded`, no body reaches the handler of a FastRPC server twice, nor
    of a RawIPC server. -/
theorem handled_at_most_once (capacity : Nat) (clock : Int) (deliveries : List Delivery) :
    (Along (step (fastRPCServer C key)) Guarded (.start capacity clock) deliveries →
      (run (fastRPCServer C key) capacity clock deliveries).bodies.Nodup) ∧
    (Along (step (rawIPCServer C key)) Guarded (.start capacity clock) deliveries →
      (run (rawIPCServer C key) capacity clock deliveries).bodies.Nodup) :=
  ⟨fun h => (fastRPCServer_lawful C key).once h, fun h => (rawIPCServer_lawful C key).once h⟩

/-! ## Requests that are delivered twice -/

/-- Functions the model can be run with. -/
def sampleCrypto : Crypto := ⟨fun _ _ => replicate 32 0, Aead.checksum, id⟩

/-- The header of a RawIPC frame with eight bytes of plaintext, its nonce zero. -/
def sampleHeader : Bytes := magic ++ [1, 1, 0, 0] ++ toBE 4 24 ++ replicate 12 0

/-- A RawIPC request without payload, issued at 0. -/
def sampleFrame : Bytes :=
  sampleHeader ++ Aead.checksum.encrypt (replicate 32 0) (replicate 12 0) sampleHeader (toBE 8 0)

/-- The text of a nonce, or an array that holds it. -/
def sampleNonce (array : Bool) : Json := if array then .arr [.str (replicate 32 '0')] else .str (replicate 32 '0')

/-- A FastRPC request issued at 0. -/
def sampleMessage (array : Bool) : Members :=
  [("id", .str ['a']), ("issued_at", .int 0), ("jsonrpc", .str "2.0"),
    ("mac", .str (replicate 64 '0')), ("method", .str ['m']), ("nonce", sampleNonce array), ("params", .obj [])]

def sampleBody (array : Bool) : Bytes := utf8 (render Python.escapeAscii (.obj (sampleMessage array)))

theorem sampleMessage_readable (array : Bool) : Readable dialect 0 (.obj (sampleMessage array)) := by
  have hzero : ∀ r, Stops r → dialect.number (decimal 0 ++ r) = some (0, r) := by
    intro r hrs
    simp [dialect, scanInt_decimal 0 hrs.not_digit, Python.floatTail_stops hrs]
  have hnonce : Readable dialect 1 (sampleNonce array) := by
    cases array with
    | false => exact ⟨rfl, rfl⟩
    | true => exact ⟨rfl, ⟨rfl, rfl⟩, trivial⟩
  have hkeys : ((sampleMessage array).map Prod.fst).Nodup := by cases array <;> decide +kernel
  exact ⟨rfl, hkeys, rfl, ⟨rfl, rfl⟩, rfl, ⟨rfl, hzero⟩, rfl, ⟨rfl, rfl⟩, rfl, ⟨rfl, rfl⟩, rfl, ⟨rfl, rfl⟩,
    rfl, hnonce, rfl, ⟨rfl, nodup_nil, trivial⟩, trivial⟩

theorem parseCanonical_sample (array : Bool) :
    parseCanonical id (sampleBody array) = .ok (.obj (sampleMessage array)) := by
  have hsz : ¬ ((sampleBody array).length < 2 ∨ 1048576 < (sampleBody array).length) := by
    cases array <;> decide +kernel
  have hcan : canonical id (.obj (sampleMessage array)) = .ok (sampleBody array) := by cases array <;> rfl
  rw [parseCanonical, if_neg hsz, sampleBody, utf8Decode_utf8]
  dsimp only
  rw [parseDocument_render Python.escapeAscii_escapes (sampleMessage_readable array)]
  dsimp only
  rw [hcan]
  exact if_neg (by simp [sampleBody])

theorem fastRpcCheck_sample (array : Bool) :
    fastRPCServer sampleCrypto [] 0 0 (sampleBody array) = .ok ⟨sampleNonce array, 0⟩ := by
  rw [fastRPCServer, fastRpcCheck, show sampleCrypto.nfc = id from rfl, parseCanonical_sample]
  cases array <;> rfl

/-- The first delivery of a FastRPC request reaches the handler. -/
theorem step_sample (array : Bool) :
    step (fastRPCServer sampleCrypto []) (.start 4096 0) ⟨sampleBody array, 0, 0, 0⟩ =
      ⟨0, ⟨4096, Dict.empty.set (keyOf 0 (sampleNonce array)) 60⟩, 1,
        [(⟨sampleBody array, keyOf 0 (sampleNonce array), 0⟩, 0)]⟩ := by
  have hcheck := fastRpcCheck_sample array
  generalize fastRPCServer sampleCrypto [] = check at hcheck ⊢
  generalize sampleBody array = body at hcheck ⊢
  exact step_of_check (s := .start 4096 0) (d := ⟨body, 0, 0, 0⟩) hcheck rfl

/-- A FastRPC request whose nonce is a string, and a RawIPC request at the end of its window, each delivered twice. -/
theorem handled_at_most_once_sample :
    (run (fastRPCServer sampleCrypto []) 4096 0 [⟨sampleBody false, 0, 0, 0⟩]).bodies = [sampleBody false] ∧
    (run (fastRPCServer sampleCrypto []) 4096 0 [⟨sampleBody false, 0, 0, 0⟩, ⟨sampleBody false, 0, 0, 0⟩]).bodies.Nodup ∧
    (run (rawIPCServer sampleCrypto []) 4096 60 [⟨sampleFrame, 0, 0, 0⟩]).bodies = [sampleFrame] ∧
    (run (rawIPCServer sampleCrypto []) 4096 60 [⟨sampleFrame, 0, 0, 0⟩, ⟨sampleFrame, 0, 0, 0⟩]).bodies.Nodup := by
  have hfast : Along (step (fastRPCServer sampleCrypto [])) Guarded (.start 4096 0)
      [⟨sampleBody false, 0, 0, 0⟩, ⟨sampleBody false, 0, 0, 0⟩] := by
    refine ⟨nofun, ?_, trivial⟩
    rw [step_sample]
    exact forall_mem_singleton.mpr fun _ => by decide
  have hraw : Along (step (rawIPCServer sampleCrypto [])) Guarded (.start 4096 60)
      [⟨sampleFrame, 0, 0, 0⟩, ⟨sampleFrame, 0, 0, 0⟩] := by decide +kernel
  refine ⟨?_, (handled_at_most_once sampleCrypto [] 4096 0 _).1 hfast, by decide +kernel,
    (handled_at_most_once sampleCrypto [] 4096 60 _).2 hraw⟩
  rw [run, foldl_cons, foldl_nil, step_sample]
  rfl

/-- **A request handled twice.** A RawIPC request that is checked at the end of its window and reserved one second
    later; and a FastRPC request whose nonce is an array, at one instant. -/
theorem request_handled_twice :
    (run (rawIPCServer sampleCrypto []) 4096 60 [⟨sampleFrame, 0, 0, 0⟩, ⟨sampleFrame, 0, 0, 1⟩]).bodies
      = [sampleFrame, sampleFrame] ∧
    (run (fastRPCServer sampleCrypto []) 4096 0 [⟨sampleBody true, 0, 0, 0⟩, ⟨sampleBody true, 0, 0, 0⟩]).bodies
      = [sampleBody true, sampleBody true] := by
  constructor
  · decide +kernel
  have hcheck := fastRpcCheck_sample true
  have hfirst := step_sample true
  generalize fastRPCServer sampleCrypto [] = check at hcheck hfirst ⊢
  generalize sampleBody true = body at hcheck hfirst ⊢
  have hsecond := step_of_check (s := (start 4096 0).step check ⟨body, 0, 0, 0⟩) (d := ⟨body, 0, 0, 0⟩)
    (by rw [hfirst]; exact hcheck) (by rw [hfirst]; rfl)
  rw [run, foldl_cons, foldl_cons, foldl_nil, hsecond, hfirst]
  rfl

end Shadow6.NodeIpc
