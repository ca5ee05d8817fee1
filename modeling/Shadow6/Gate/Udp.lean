import Shadow6.Library.Dict
import Shadow6.Library.Machine
import Shadow6.Library.Signature

/-!
# `Gate.Udp` — the replay table of the UDP gate

`udpEnvelope`, `validEnvelope` and `acceptNonce` of `Gate/udp.go`, with the goroutines of `runUDP` and `handleUDP` that
share one table. A goroutine reads the clock, checks its datagram against that reading, and then waits for the lock;
others go on in the meantime. So a datagram that was in time when it was checked can get to the table after another
goroutine has read a later clock and swept its record away, and is accepted again (`accepted_again`). No envelope is
accepted twice if the table was not swept beyond its window when a goroutine takes the lock (`accepted_once`).

Times are seconds, as integers; the clock is far from the end of the range of `int64`.
-/

namespace Shadow6.Gate.Udp

open Library List Dict

def udpHeaderBytes : Nat := 77

/-- With `ed25519.SignatureSize`. -/
def udpEnvelopeBytes : Nat := udpHeaderBytes + 64

def maxUDPReplays : Nat := 65536

/-- The fields of `Config` that are read here; `peerKeys(c)` decodes them. -/
structure Config where
  maxFrameBytes : Nat
  peerKeys : List Bytes

/-- `udpPayloadLimit(c)`. -/
def udpPayloadLimit (c : Config) : Nat :=
  if 65507 - udpEnvelopeBytes < c.maxFrameBytes then 65507 - udpEnvelopeBytes else c.maxFrameBytes

/-! ## Envelopes -/

/-- `msg[start:stop]`. -/
def slice (msg : Bytes) (start stop : Nat) : Bytes := (msg.take stop).drop start

/-- `int64(u)`. -/
def toInt64 (u : Nat) : Int := if u < 2 ^ 63 then u else u - 2 ^ 64

/-- `timestamp` of a datagram. -/
def timestamp (msg : Bytes) : Int := toInt64 (ofBE (slice msg 5 13))

/-- `pub` of a datagram. -/
def publicKey (msg : Bytes) : Bytes := slice msg 45 77

/-- The nonce of a datagram. -/
def envelopeNonce (msg : Bytes) : Bytes := slice msg 13 29

/-- `expectedKind`: a request, or the response to one. -/
def expectedKind (responseTo : Option Bytes) : UInt8 := if responseTo.isSome then 1 else 0

/-- `binding`: the nonce of the request, or zeros. -/
def binding (responseTo : Option Bytes) : Bytes := responseTo.getD (replicate 16 0)

/-- `udpEnvelope(k, payload, responseTo)` at a time, with the nonce it has drawn. -/
def udpEnvelope (scheme : SignatureScheme) (k : Bytes) (payload : Bytes) (responseTo : Option Bytes) (time : Nat)
    (nonce : Bytes) : Option Bytes :=
  if 65507 - udpEnvelopeBytes < payload.length ∨ responseTo.any (fun r => decide (r.length ≠ 16)) then none
  else
    let out := [0x53, 0x36, 0x55, 0x32] ++ [expectedKind responseTo] ++ toBE 8 time ++ nonce ++ binding responseTo
      ++ scheme.publicKey k ++ payload
    some (out ++ scheme.sign k out)

/-- What `validEnvelope` checks before it goes to the table. -/
def checkEnvelope (verify : (pub message signature : Bytes) → Bool) (c : Config) (msg : Bytes)
    (responseTo : Option Bytes) (now : Int) : Bool :=
  if msg.length < udpEnvelopeBytes ∨ udpPayloadLimit c + udpEnvelopeBytes < msg.length ∨
      msg.take 4 ≠ [0x53, 0x36, 0x55, 0x32] then false
  else if responseTo.any (fun r => decide (r.length ≠ 16)) then false
  else if msg[4]? ≠ some (expectedKind responseTo) then false
  else if slice msg 29 45 ≠ binding responseTo then false
  else if timestamp msg < now - 30 ∨ now + 30 < timestamp msg then false
  else decide (publicKey msg ∈ c.peerKeys) &&
    verify (publicKey msg) (msg.take (msg.length - 64)) (msg.drop (msg.length - 64))

/-! ## The table -/

/-- `gateState`. -/
structure GateState where
  replays : Dict Bytes Int
  nextSweep : Int

/-- `newGateState(limit)`. -/
def newGateState : GateState := ⟨.empty, 0⟩

namespace GateState

/-- The sweep at the beginning of `acceptNonce`. -/
def sweep (state : GateState) (now : Int) : GateState :=
  if state.nextSweep ≤ now then ⟨state.replays.filter fun _ expiry => !decide (expiry < now), now + 1⟩ else state

/-- `acceptNonce(pub, nonce, timestamp, now)`; the lock is held throughout. -/
def acceptNonce (state : GateState) (pub nonce : Bytes) (timestamp now : Int) : GateState × Bool :=
  let state := state.sweep now
  if pub ++ nonce ∈ state.replays then (state, false)
  else if maxUDPReplays ≤ state.replays.size then (state, false)
  else ({ state with replays := state.replays.set (pub ++ nonce) (timestamp + 30) }, true)

end GateState

/-! ## Goroutines -/

/-- A goroutine that has checked its datagram and waits for the lock. -/
structure Goroutine where
  msg : Bytes
  now : Int

/-- The clock, the table, the goroutines that wait for the lock, and the datagrams that were accepted so far. -/
structure Server where
  clock : Int
  state : GateState
  waiting : List Goroutine
  accepted : List Bytes

inductive Event where
  | tick (seconds : Nat)
  /-- A goroutine reads the clock and checks a datagram, for one of the configurations that share the table. -/
  | check (c : Config) (msg : Bytes) (responseTo : Option Bytes)
  /-- One of the waiting goroutines takes the lock. -/
  | lock (i : Nat)

namespace Server

variable (verify : (pub message signature : Bytes) → Bool)

def start (clock : Int) : Server := ⟨clock, newGateState, [], []⟩

/-- A waiting goroutine goes through `acceptNonce`. -/
def accept (g : Server) (r : Goroutine) : GateState × Bool :=
  g.state.acceptNonce (publicKey r.msg) (envelopeNonce r.msg) (timestamp r.msg) r.now

def step (g : Server) : Event → Server
  | .tick seconds => { g with clock := g.clock + seconds }
  | .check c msg responseTo =>
    if checkEnvelope verify c msg responseTo g.clock then { g with waiting := g.waiting ++ [⟨msg, g.clock⟩] } else g
  | .lock i =>
    match g.waiting[i]? with
    | none => g
    | some r =>
      let (state, accepted) := g.accept r
      { g with
        state
        waiting := g.waiting.eraseIdx i
        accepted := if accepted then g.accepted ++ [r.msg] else g.accepted }

def run (clock : Int) (es : List Event) : Server := es.foldl (step verify) (start clock)

end Server

/-! ## What the table knows of an accepted envelope -/

section

variable {stt : GateState} {msg : Bytes} {now : Int}

/-- The record of an accepted envelope is in the table, or the table was swept after its window. -/
def Remembered (state : GateState) (msg : Bytes) : Prop :=
  state.replays.find? (publicKey msg ++ envelopeNonce msg) = some (timestamp msg + 30) ∨
    timestamp msg + 32 ≤ state.nextSweep

theorem sweep_cases (sta : GateState) (now : Int) :
    sta.sweep now = sta ∨ sta.nextSweep ≤ now ∧ (sta.sweep now).nextSweep = now + 1 ∧
      ∀ k, (sta.sweep now).replays.find? k = (sta.replays.find? k).filter fun ex => !decide (ex < now) := by
  unfold GateState.sweep
  split_ifs with hsweep
  · refine .inr ⟨hsweep, rfl, fun k => ?_⟩
    rw [Dict.find?_filter]
  · exact .inl rfl

/-- A sweep forgets an envelope only after its window. -/
theorem Remembered.sweep (h : Remembered stt msg) (now : Int) : Remembered (stt.sweep now) msg := by
  rcases sweep_cases stt now with hsm | ⟨hle, hnx, hfd⟩
  · rw [hsm]
    exact h
  rcases h with hrec | hswp
  · by_cases hold : timestamp msg + 30 < now
    · right
      omega
    · left
      rw [hfd, hrec, Option.filter_some, if_pos (by simpa using not_lt.mp hold)]
  right
  rw [hnx]
  omega

/-- Another record is written under a key that has none. -/
theorem Remembered.set (h : Remembered stt msg) {k : Bytes} (hk : k ∉ stt.replays) (ex : Int) :
    Remembered { stt with replays := stt.replays.set k ex } msg := by
  rcases h with hrec | hswp
  · exact .inl (find?_set_of_not_mem hk hrec)
  · exact .inr hswp

/-- **What `acceptNonce` can do**: refuse after its sweep, or accept a key without a record and write it. -/
theorem acceptNonce_cases (sta : GateState) (pub non : Bytes) (t now : Int) :
    sta.acceptNonce pub non t now = (sta.sweep now, false) ∨
    (pub ++ non ∉ (sta.sweep now).replays ∧ sta.acceptNonce pub non t now
      = ({ sta.sweep now with replays := (sta.sweep now).replays.set (pub ++ non) (t + 30) }, true)) := by
  unfold GateState.acceptNonce
  dsimp only
  split_ifs with hmem hfull
  · exact .inl rfl
  · exact .inl rfl
  · exact .inr ⟨hmem, rfl⟩

end

namespace Server

variable {vf : (pub message signature : Bytes) → Bool} {g : Server}

/-- What the signature of an envelope covers and the table looks at. -/
def signedFields (msg : Bytes) : Bytes × Bytes × Int := (publicKey msg, envelopeNonce msg, timestamp msg)

/-- The envelope of a goroutine that takes the lock has not been swept out of its window. -/
def Timely (g : Server) : Event → Prop
  | .lock i => ∀ r ∈ g.waiting[i]?, g.state.nextSweep ≤ timestamp r.msg + 31
  | _ => True

/-- The invariant of the server. -/
structure Sound (g : Server) : Prop where
  inTime : ∀ r ∈ g.waiting, r.now ≤ timestamp r.msg + 30
  remembered : ∀ msg ∈ g.accepted, Remembered g.state msg
  once : (g.accepted.map signedFields).Nodup

theorem sound_start (clk : Int) : Sound (start clk) :=
  ⟨fun _ h => absurd h not_mem_nil, fun _ h => absurd h not_mem_nil, nodup_nil⟩

theorem checkEnvelope_inTime {c : Config} {msg : Bytes} {r : Option Bytes} {now : Int}
    (h : checkEnvelope vf c msg r now = true) : now ≤ timestamp msg + 30 := by
  unfold checkEnvelope at h
  split_ifs at h with hshp hres hkd hbin htime
  omega

/-- An envelope that was accepted is refused by a goroutine that is in time. -/
theorem Sound.not_again (h : Sound g) {r : Goroutine} (hnow : r.now ≤ timestamp r.msg + 30)
    (htim : g.state.nextSweep ≤ timestamp r.msg + 31)
    (habs : publicKey r.msg ++ envelopeNonce r.msg ∉ (g.state.sweep r.now).replays) :
    signedFields r.msg ∉ g.accepted.map signedFields := by
  intro hmem
  obtain ⟨msg, hmsg, hfs⟩ := mem_map.mp hmem
  simp only [signedFields, Prod.mk.injEq] at hfs
  obtain ⟨hpub, hnon, htime⟩ := hfs
  rcases (h.remembered msg hmsg).sweep r.now with hrec | hswp
  · rw [hpub, hnon] at hrec
    exact habs (mem_of_find? hrec)
  -- neither an earlier sweep nor this one was late enough
  rcases sweep_cases g.state r.now with hsm | ⟨-, hnx, -⟩
  · rw [hsm] at hswp
    omega
  · omega

/-- **One event.** -/
theorem Sound.step (h : Sound g) {ev : Event} (htim : Timely g ev) : Sound (step vf g ev) := by
  cases ev with
  | tick seconds => exact { h with }
  | check c msg rt =>
    rw [Server.step]
    split_ifs with hchk
    · refine ⟨forall_mem_append.mpr ⟨h.inTime, forall_mem_singleton.mpr ?_⟩, h.remembered, h.once⟩
      exact checkEnvelope_inTime hchk
    · exact h
  | lock i =>
    rw [Server.step]
    cases hr : g.waiting[i]? with
    | none => exact h
    | some r =>
      have hnow := h.inTime r (mem_of_getElem? hr)
      have hwait : ∀ r' ∈ g.waiting.eraseIdx i, r'.now ≤ timestamp r'.msg + 30 :=
        fun r' hr' => h.inTime r' (mem_of_mem_eraseIdx hr')
      dsimp only
      rcases acceptNonce_cases g.state (publicKey r.msg) (envelopeNonce r.msg) (timestamp r.msg) r.now with
        href | ⟨habs, hacc⟩
      · rw [accept, href]
        exact ⟨hwait, fun msg hmsg => (h.remembered msg hmsg).sweep r.now, h.once⟩
      rw [accept, hacc]
      refine ⟨hwait, fun msg hmsg => ?_, ?_⟩
      · rcases mem_append.mp hmsg with hmsg | hmsg
        · exact ((h.remembered msg hmsg).sweep r.now).set habs _
        · rw [mem_singleton.mp hmsg]
          exact .inl (find?_set_self _ _ _)
      · have hnew := h.not_again hnow (htim r hr) habs
        show ((g.accepted ++ [r.msg]).map signedFields).Nodup
        rw [map_append, nodup_append]
        refine ⟨h.once, nodup_singleton _, ?_⟩
        rintro _ hmem _ hlast rfl
        exact hnew (mem_singleton.mp hlast ▸ hmem)

/-- **No envelope is accepted twice.** For all interleavings of any number of goroutines, with a clock that does not go
    back: if the table has not been swept beyond the window of an envelope when its goroutine takes the lock, two
    accepted datagrams differ in the signed key, nonce or timestamp. -/
theorem accepted_once (verify : (pub message signature : Bytes) → Bool) {clock : Int} {es : List Event}
    (h : Along (step verify) Timely (start clock) es) : ((run verify clock es).accepted.map signedFields).Nodup :=
  (h.invariant (fun _ _ hg hev => hg.step hev) (sound_start clock)).once

/-! ## Two runs -/

/-- An envelope of a trusted peer, signed at a time. -/
def sampleEnvelope (time : Nat) : Bytes :=
  (udpEnvelope .checksum [7] [1] none time (replicate 16 (UInt8.ofNat time))).getD []

def sampleCheck (time : Nat) : Event := .check ⟨1024, [SignatureScheme.checksum.publicKey [7]]⟩ (sampleEnvelope time) none

instance (g : Server) : ∀ ev, Decidable (Timely g ev)
  | .lock i => inferInstanceAs (Decidable (∀ r ∈ g.waiting[i]?, _ ≤ _))
  | .tick _ | .check _ _ _ => inferInstanceAs (Decidable True)

/-- Two goroutines with one envelope, at the end of its window, that take the lock one after the other. -/
def promptRun : List Event :=
  [.tick 30, sampleCheck 0, sampleCheck 0, .lock 0, .lock 0, .tick 1, sampleCheck 31, .lock 0]

theorem accepted_once_prompt :
    (run SignatureScheme.checksum.verify 0 promptRun).accepted = [sampleEnvelope 0, sampleEnvelope 31] ∧
    ((run SignatureScheme.checksum.verify 0 promptRun).accepted.map signedFields).Nodup :=
  ⟨by decide +kernel, accepted_once _ (by decide +kernel)⟩

/-- The same goroutines; the second is held up, and the record of the envelope is swept away before it takes the
    lock. -/
def delayedRun : List Event :=
  [.tick 30, sampleCheck 0, sampleCheck 0, .lock 0, .tick 1, sampleCheck 31, .lock 1, .lock 0]

/-- **A delayed goroutine accepts an envelope again.** -/
theorem accepted_again : (run SignatureScheme.checksum.verify 0 delayedRun).accepted
      = [sampleEnvelope 0, sampleEnvelope 31, sampleEnvelope 0] := by
  decide +kernel

end Server

end Shadow6.Gate.Udp
