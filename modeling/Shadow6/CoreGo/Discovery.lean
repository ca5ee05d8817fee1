import Shadow6.Library.Dict
import Shadow6.Library.Machine
import Shadow6.Library.Replay
import Shadow6.CoreGo.SignedFields

/-!
# `CoreGo.Discovery` — single use of a local discovery request

`serveAgentLPDWithReplay` of Core-Go and `serve_agent_lpd_socket` of Core-Rust: the listeners of an agent share a cache of
nonces. A listener reads the clock, checks a packet at that time, and then takes the lock of the cache with the time it
has read. If the lock is taken in the order of the readings, a signed request is served once (`discovery_single_use`). A
listener that another one overtakes can serve it again (`discovery_overtaken`).
-/

namespace Shadow6.CoreGo.Discovery

open Library List Dict

inductive Core where
  | go
  | rust

/-- `AgentConfig`; `decode` is the base64 decoding of Core-Rust. -/
structure Agent where
  id : Field
  clientKey : Field → Option Bytes
  decode : Field → Option Bytes

/-- A decoded packet. In Core-Rust the nonce is its base64 text, and there is no `e2eePubKey`. -/
structure Packet where
  version : Int
  request : LpdRequest
  signature : Bytes

def Core.fields : Core → LpdRequest → List Field
  | .go, r => [r.agentID, r.clientID, word 8 r.timestamp eight_le, r.nonce, r.e2eePubKey]
  | .rust, r => [r.agentID, r.clientID, word 8 r.timestamp eight_le, r.nonce]

/-- `lpdRequestPayload`, `discovery_request_payload`. -/
def Core.payload (core : Core) (r : LpdRequest) : Bytes :=
  signedFields Domain.lpdRequest.bytes (contents (core.fields r))

/-- The timestamp is an `int64` in Core-Go and a `u64` in Core-Rust. -/
def Core.timely : Core → (timestamp now : Int) → Bool
  | .go, timestamp, now => -2 ^ 63 ≤ timestamp && timestamp < 2 ^ 63 && !(timestamp < now - 30 || now + 30 < timestamp)
  | .rust, timestamp, now => 0 ≤ timestamp && timestamp < 2 ^ 64 && (now - timestamp).natAbs ≤ 30

def Core.sized (A : Agent) : Core → LpdRequest → Bool
  | .go, r => r.nonce.val.length = 32 && r.e2eePubKey.val.length = 32
  | .rust, r => (A.decode r.nonce).any (·.length = 32)

/-- Which entries of the cache stay. -/
def Core.live : Core → (timestamp now : Int) → Bool
  | .go, timestamp, now => !(timestamp < now - 60)
  | .rust, timestamp, now => (now - timestamp).toNat ≤ 60

/-- Under the lock: drop the old entries, then `reserve` the nonce. -/
def Core.reserve (core : Core) (seen : Dict Field Int) (nonce : Field) (now : Int) : Bool × Dict Field Int :=
  let seen := seen.filter fun _ timestamp => core.live timestamp now
  if (seen.find? nonce).isSome || 50000 ≤ seen.size then (false, seen) else (true, seen.set nonce now)

/-- `held` has, for each listener that waits for the lock, its packet and the time it has read; `last` is the time with
    which the lock was last taken, and `served` what `provisionAccess` was run for. -/
structure State where
  clock : Int
  held : List (Packet × Int)
  seen : Dict Field Int
  last : Int
  served : List (Packet × Int)

inductive Event where
  | tick (seconds : Nat)
  | receive (packet : Packet)
  | lock (listener : Nat)

def init (clock : Int) : State := ⟨clock, [], .empty, clock, []⟩

section

variable (core : Core) (S : SignatureScheme) (A : Agent)

/-- The checks of a packet. -/
def admits (now : Int) (p : Packet) : Bool :=
  p.version = 1 && p.request.agentID = A.id && core.sized A p.request && core.timely p.request.timestamp now &&
    (A.clientKey p.request.clientID).any fun key => S.verify key (core.payload p.request) p.signature

def step (s : State) : Event → State
  | .tick seconds => { s with clock := s.clock + seconds }
  | .receive p => if admits core S A s.clock p then { s with held := s.held ++ [(p, s.clock)] } else s
  | .lock listener =>
    match s.held[listener]? with
    | none => s
    | some (p, now) =>
      let result := core.reserve s.seen p.request.nonce now
      ⟨s.clock, s.held.eraseIdx listener, result.2, now, if result.1 then s.served ++ [(p, now)] else s.served⟩

def run (clock : Int) (events : List Event) : State := events.foldl (step core S A) (init clock)

end

/-- A listener takes the lock with a time that is not before that of the one before it. -/
def inOrder (s : State) : Event → Bool
  | .lock listener => s.held[listener]?.all (s.last ≤ ·.2)
  | _ => true

/-! ## The cache retains what can still be accepted -/

def nonce (p : Packet) : Field := p.request.nonce

def deadline (p : Packet) : Int := p.request.timestamp + 30

def Recorded (seen : Dict Field Int) (p : Packet) : Prop :=
  ∃ t, seen.find? (nonce p) = some t ∧ deadline p ≤ t + 60

/-- The request was in time at the reading. -/
def InTime (core : Core) (h : Packet × Int) : Prop := core.timely h.1.request.timestamp h.2 = true

structure Sound (core : Core) (s : State) : Prop where
  held : ∀ h ∈ s.held, InTime core h
  served : ∀ h ∈ s.served, InTime core h
  retained : Retained deadline (Recorded s.seen) s.last s.served
  separated : Separated nonce deadline s.served

variable {cr : Core} {S : SignatureScheme} {A : Agent} {s : State} {p : Packet} {now : Int}

theorem inTime_of_admits (h : admits cr S A now p = true) : InTime cr (p, now) := by
  simp only [admits, Bool.and_eq_true] at h
  exact h.1.2

theorem InTime.bounds (h : InTime cr (p, now)) : now ≤ deadline p ∧ deadline p ≤ now + 60 := by
  unfold deadline
  cases cr <;> simp [InTime, Core.timely] at h <;> omega

theorem live_or_lt (core : Core) (t now : Int) : core.live t now = true ∨ t + 60 < now := by
  cases core <;> simp [Core.live] <;> omega

theorem Sound.lock (h : Sound cr s) (hp : InTime cr (p, now)) (hle : s.last ≤ now) :
    let result := cr.reserve s.seen p.request.nonce now
    let served := if result.1 then s.served ++ [(p, now)] else s.served
    Retained deadline (Recorded result.2) now served ∧ Separated nonce deadline served := by
  have hswp : Retained deadline (Recorded (s.seen.filter fun _ t => cr.live t now)) now s.served := by
    refine (h.retained.later hle).drop ?_
    rintro a - ⟨t, ht, hdead⟩
    rcases live_or_lt cr t now with hlive | hold
    · exact .inl ⟨t, by rw [Dict.find?_filter, ht, Option.filter_some, if_pos hlive], hdead⟩
    · exact .inr (lt_of_le_of_lt hdead hold)
  dsimp only [Core.reserve]
  split
  · exact ⟨hswp, h.separated⟩
  rename_i hnew
  simp only [Bool.or_eq_true, not_or, Option.not_isSome_iff_eq_none] at hnew
  -- a nonce with a record is another one
  have hoth : ∀ a, Recorded (s.seen.filter fun _ t => cr.live t now) a → nonce a ≠ nonce p := by
    rintro a ⟨t, ht, -⟩ heq
    rw [heq, nonce, hnew.1] at ht
    cases ht
  constructor
  · refine (hswp.drop ?_).accept ⟨now, find?_set_self .., hp.bounds.2⟩ now
    rintro a - ⟨t, ht, hdead⟩
    exact .inl ⟨t, (find?_set_of_ne _ _ (hoth a.1 ⟨t, ht, hdead⟩)).trans ht, hdead⟩
  · exact h.separated.accept hswp fun a _ hkey hrec => absurd hkey (hoth a.1 hrec)

theorem Sound.step (h : Sound cr s) {e : Event} (hin : inOrder s e = true) : Sound cr (step cr S A s e) := by
  cases e with
  | tick seconds => exact { h with }
  | receive p =>
    unfold Discovery.step
    dsimp only
    split
    · rename_i hadm
      refine ⟨forall_mem_append.mpr ⟨h.held, ?_⟩, h.served, h.retained, h.separated⟩
      exact forall_mem_singleton.mpr (inTime_of_admits hadm)
    · exact h
  | lock l =>
    unfold Discovery.step
    dsimp only
    split
    · exact h
    rename_i p now hheld
    have hp := h.held _ (mem_of_getElem? hheld)
    simp only [inOrder, hheld, Option.all_some, decide_eq_true_eq] at hin
    obtain ⟨hret, hsep⟩ := h.lock hp hin
    refine ⟨fun q hq => h.held q (mem_of_mem_eraseIdx hq), ?_, hret, hsep⟩
    split
    · exact forall_mem_append.mpr ⟨h.served, forall_mem_singleton.mpr hp⟩
    · exact h.served

/-! ## Single use -/

/-- The signed bytes determine the nonce and the timestamp. -/
theorem payload_inj {a b : Packet × Int} (ha : InTime cr a) (hb : InTime cr b)
    (h : cr.payload a.1.request = cr.payload b.1.request) : nonce a.1 = nonce b.1 ∧ deadline a.1 = deadline b.1 := by
  have hpair := @signedFields_injective (.lpdRequest, cr.fields _) (.lpdRequest, cr.fields _) h
  have hfs : word 8 a.1.request.timestamp (by decide) = word 8 b.1.request.timestamp (by decide) ∧
      nonce a.1 = nonce b.1 := by
    cases cr <;> simp only [Core.fields, Prod.mk.injEq, cons.injEq] at hpair <;>
      exact ⟨hpair.2.2.2.1, hpair.2.2.2.2.1⟩
  have hby := congrArg (ofBE ∘ Subtype.val) hfs.1
  simp only [word, Function.comp_apply] at hby
  rw [ofBE_toBE_of_lt (by omega), ofBE_toBE_of_lt (by omega)] at hby
  refine ⟨hfs.2, ?_⟩
  unfold deadline
  cases cr <;> simp [InTime, Core.timely] at ha hb <;> omega

/-- **A signed request is served at most once, and nothing that could still be accepted is forgotten**, for any number of
    listeners and any packets, if the lock is taken in the order of the readings. A full cache refuses. -/
theorem discovery_single_use (core : Core) (S : SignatureScheme) (A : Agent) (clock : Int) (events : List Event)
    (horder : Along (step core S A) (fun s e => inOrder s e) (init clock) events) :
    ((run core S A clock events).served.Pairwise fun a b => core.payload a.1.request ≠ core.payload b.1.request) ∧
    (∀ a ∈ (run core S A clock events).served, a.1.request.nonce ∈ (run core S A clock events).seen ∨
      ∀ now, (run core S A clock events).last ≤ now → admits core S A now a.1 = false) ∧
    ∀ (seen : Dict Field Int) nonce now, 50000 ≤ (seen.filter fun _ t => core.live t now).size →
      (core.reserve seen nonce now).1 = false := by
  have h : Sound core (run core S A clock events) := horder.invariant (fun _ _ h hin => h.step hin)
    ⟨nofun, nofun, retained_nil _ _ _, separated_nil _ _⟩
  refine ⟨?_, ?_, ?_⟩
  · refine h.separated.imp_of_mem ?_
    intro a b ha hb hseparated heq
    obtain ⟨hnonce, hdeadline⟩ := payload_inj (h.served a ha) (h.served b hb) heq
    have hlate := hseparated hnonce
    have hearly := (h.served b hb).bounds.1
    omega
  · intro a ha
    refine (h.retained a ha).imp (fun ⟨_, ht, _⟩ => mem_of_find? ht) ?_
    intro hlate now hnow
    rw [Bool.eq_false_iff]
    intro hadmits
    have hearly := (inTime_of_admits hadmits).bounds.1
    omega
  · intro seen nonce now hfull
    simp [Core.reserve, hfull]

def sampleField (n : UInt8) : Field := ⟨replicate 32 n, by rw [length_replicate]; decide⟩

def sampleAgent : Agent := ⟨sampleField 1, fun _ => some (SignatureScheme.checksum.publicKey [8]), fun f => some f.val⟩

def samplePacket (core : Core) (timestamp : Int) (nonce : UInt8) : Packet :=
  let request : LpdRequest := ⟨sampleField 1, sampleField 2, timestamp, sampleField nonce, sampleField 4⟩
  ⟨1, request, SignatureScheme.checksum.sign [8] (core.payload request)⟩

/-- Two listeners receive a request, a third one another request, and a copy of the first comes again in its last second. -/
def resent (core : Core) : List Event :=
  [.receive (samplePacket core 100 5), .receive (samplePacket core 100 5), .tick 20, .receive (samplePacket core 110 6),
    .lock 0, .lock 0, .lock 0, .tick 20, .receive (samplePacket core 100 5), .lock 0]

theorem discovery_single_use_resent :
    (run .go .checksum sampleAgent 90 (resent .go)).served.map (fun a => (a.1.request.nonce, a.2))
      = [(sampleField 5, 90), (sampleField 6, 110)] ∧
    (run .go .checksum sampleAgent 90 (resent .go)).last = 130 ∧
    (run .go .checksum sampleAgent 90 (resent .go)).served.Pairwise fun a b =>
      Core.go.payload a.1.request ≠ Core.go.payload b.1.request :=
  ⟨by decide +kernel, by decide +kernel,
    (discovery_single_use .go .checksum sampleAgent 90 (resent .go) (by decide +kernel)).1⟩

/-- A request with the time 100 is served at 70. A listener reads 130 for a copy of it; another one reads 131 and takes
    the lock first. -/
def overtaken (core : Core) : List Event :=
  [.receive (samplePacket core 100 5), .lock 0, .tick 60, .receive (samplePacket core 100 5), .tick 1,
    .receive (samplePacket core 131 6), .lock 1, .lock 0]

/-- **A request is served twice** in both Cores. -/
theorem discovery_overtaken :
    (run .go .checksum sampleAgent 70 (overtaken .go)).served.map (fun a => (a.1.request.timestamp, a.1.request.nonce))
      = [(100, sampleField 5), (131, sampleField 6), (100, sampleField 5)] ∧
    (run .rust .checksum sampleAgent 70 (overtaken .rust)).served.map
      (fun a => (a.1.request.timestamp, a.1.request.nonce))
      = [(100, sampleField 5), (131, sampleField 6), (100, sampleField 5)] :=
  ⟨by decide +kernel, by decide +kernel⟩

/-! ## The size of the cache -/

/-- **The cache is bounded**, in whatever order the listeners take the lock. -/
theorem cache_bounded (core : Core) (S : SignatureScheme) (A : Agent) (clock : Int) (events : List Event) :
    (run core S A clock events).seen.size ≤ 50000 := by
  refine foldl_invariant (I := fun s : State => s.seen.size ≤ 50000) ?_ (Nat.zero_le _) events
  intro s e h
  cases e with
  | tick seconds => exact h
  | receive p =>
    unfold step
    dsimp only
    split_ifs
    · exact h
    · exact h
  | lock l =>
    unfold step
    dsimp only
    split
    · exact h
    dsimp only [Core.reserve]
    split
    -- the old entries are dropped
    · exact (length_filter_le _ _).trans h
    rename_i hnew
    simp only [Bool.or_eq_true, not_or, Option.not_isSome_iff_eq_none, decide_eq_true_eq, not_le] at hnew
    rw [size_set_absent hnew.1]
    exact hnew.2

end Shadow6.CoreGo.Discovery
