import Shadow6.Portable.Python

/-!
# `NetworkAdapter.Profile` — limits, core policies and clocks of the S6NA adapter

The start-up configuration of `Network-Adapter/shadow6_network.py`. A `Limits` value carries the bounds
that `Limits.__post_init__` checks, so limits out of bounds cannot be built. Instants and durations are
an arbitrary type with the operations the adapter applies to them (`Timing`): the source uses floating
point, and nothing proved here depends on its rounding.
-/

namespace Shadow6.NetworkAdapter

open Library

/-! ## Limits -/

/-- `Limits`: start-up limits with their absolute caps. -/
structure Limits where
  maxMessage : Nat := 16 * 1024 * 1024
  maxStreams : Nat := 64
  maxInflight : Nat := 16 * 1024 * 1024
  maxWindow : Nat := 64
  reassemblySeconds : Nat := 30
  maxExtensions : Nat := 16
  payloadBytes : Nat := 0
  windowFrames : Nat := 0
  maxMessage_safe : 1024 ≤ maxMessage ∧ maxMessage ≤ 256 * 1024 * 1024 := by decide
  maxStreams_safe : 1 ≤ maxStreams ∧ maxStreams ≤ 4096 := by decide
  maxInflight_safe : 1024 ≤ maxInflight ∧ maxInflight ≤ 512 * 1024 * 1024 := by decide
  maxWindow_safe : 1 ≤ maxWindow ∧ maxWindow ≤ 4096 := by decide
  reassemblySeconds_safe : 1 ≤ reassemblySeconds ∧ reassemblySeconds ≤ 300 := by decide
  maxExtensions_safe : maxExtensions ≤ 128 := by decide
  payloadBytes_safe : payloadBytes ≤ 65536 := by decide
  windowFrames_safe : windowFrames ≤ 4096 := by decide
  inflight_covers_message : maxMessage ≤ maxInflight := by decide
  payloadBytes_floor : payloadBytes = 0 ∨ 64 ≤ payloadBytes := by decide

/-! ## Core policies -/

/-- The profiles of the adapter: the twelve Cores and the Micro-Mux variant of Gleam. -/
inductive Core where
  | go | rust | zig | ada | d | nim | cpp | pony | hare | carp | gleam | idris | gleamMux
deriving DecidableEq, Repr

/-- What a profile fixes for the adapter: payload bytes of a frame and frames in flight. -/
structure Policy where
  payload : Nat
  window : Nat
deriving DecidableEq, Repr

/-- `PROFILES`. -/
def profiles : Core → Policy
  | .go => ⟨65536, 64⟩
  | .rust => ⟨65536, 64⟩
  | .zig => ⟨32768, 64⟩
  | .ada => ⟨448, 32⟩
  | .d => ⟨1200, 32⟩
  | .nim => ⟨16384, 64⟩
  | .cpp => ⟨32768, 64⟩
  | .pony => ⟨960, 32⟩
  | .hare => ⟨896, 16⟩
  | .carp => ⟨960, 16⟩
  | .gleam => ⟨4096, 32⟩
  | .idris => ⟨1024, 32⟩
  | .gleamMux => ⟨1100, 64⟩

/-- The transport argument of the constructors. -/
inductive Transport where
  | secureStream
  | microMux
deriving DecidableEq, Repr

/-- `profile_name(core, transport)`. -/
def profileName (core : Core) : Option Transport → Except PyError Core
  | none => .ok core
  | some transport =>
    if ¬ (core = .gleam ∨ core = .gleamMux) then
      .error (.value "unsupported core transport selection")
    else if core = .gleamMux ∧ transport ≠ .microMux then
      .error (.value "conflicting Gleam mode")
    else .ok (if transport = .microMux then .gleamMux else .gleam)

/-! ## Clocks -/

/-- The RTT estimator state (`srtt`, `rttvar`, `rto`). -/
structure Estimator (τ : Type) where
  srtt : Option τ
  rttvar : Option τ
  rto : τ

/-- What the adapter does with instants: comparisons, deadlines and the RTT estimator. -/
structure Timing (τ : Type) where
  /-- the initial retransmission timeout, `.2` -/
  initialRto : τ
  /-- `now < deadline` -/
  isBefore : τ → τ → Bool
  /-- `now >= deadline` -/
  isReached : τ → τ → Bool
  /-- `now + rto` -/
  firstDeadline : τ → τ → τ
  /-- `now + min(5.0, rto * 2 ** attempts)` -/
  retryDeadline : τ → τ → Nat → τ
  /-- `now + reassembly_seconds` -/
  reassemblyDeadline : τ → Nat → τ
  /-- `_sample`, for a frame sent at the second instant and acknowledged at the first -/
  sample : Estimator τ → τ → τ → Estimator τ

/-- The formulas of the source over exact rationals, in seconds. -/
def Timing.seconds : Timing ℚ where
  initialRto := 1 / 5
  isBefore := fun now deadline => decide (now < deadline)
  isReached := fun now deadline => decide (deadline ≤ now)
  firstDeadline := fun now rto => now + rto
  retryDeadline := fun now rto attempts => now + min 5 (rto * 2 ^ attempts)
  reassemblyDeadline := fun now seconds => now + seconds
  sample := fun est now sent =>
    let rtt := max 0 (now - sent)
    let (srtt, rttvar) := match est.srtt, est.rttvar with
      | some srtt, some rttvar => (7 / 8 * srtt + 1 / 8 * rtt, 3 / 4 * rttvar + 1 / 4 * |srtt - rtt|)
      | _, _ => (rtt, rtt / 2)
    { srtt := some srtt, rttvar := some rttvar, rto := max (1 / 20) (min 5 (srtt + 4 * rttvar)) }

end Shadow6.NetworkAdapter
