import Mathlib.Data.Nat.Bitwise
import Shadow6.Library.Bytes
import Shadow6.Library.Dict
import Shadow6.Library.Machine

/-!
# `CoreGleam.Replay` — the replay bitmaps of a session

`accept/2` of `shadow6_replay.erl`, and `route`, `dispatch`, `new_stream` and `handle_info` of `shadow6_session.erl`. The
session process keeps one bitmap for each stream, next to the workers that it has started for the streams. A worker
that goes down is forgotten, its bitmap is not, so what was accepted once stays accepted when the stream gets a new
worker.

Whether a process is alive and what the supervisor answers is up to the run.
-/

namespace Shadow6.CoreGleam

open Library List

/-! ## `shadow6_replay` -/

/-- `{Highest, Bits}`. -/
structure Bitmap where
  highest : Int
  bits : Nat

/-- The guard `Sequence >= 0, Sequence < (1 bsl 64)`. -/
def InRange (sequence : Int) : Prop := 0 ≤ sequence ∧ sequence < 2 ^ 64

instance (sequence : Int) : Decidable (InRange sequence) := inferInstanceAs (Decidable (_ ∧ _))

/-- `(Bits bsl Delta) band ((1 bsl 128) - 1)`, or 0 for a long shift. -/
def shifted (bits delta : Nat) : Nat := if 128 ≤ delta then 0 else bits <<< delta &&& (1 <<< 128 - 1)

/-- `accept(Sequence, Previous)`; `none` is `replay`. -/
def accept (sequence : Int) (previous : Option Bitmap) : Option Bitmap :=
  if InRange sequence then
    match previous with
    | none => some ⟨sequence, 1⟩
    | some ⟨highest, bits⟩ =>
      let delta := sequence - highest
      if 0 < delta then some ⟨sequence, shifted bits delta.toNat ||| 1⟩
      else if delta ≤ -128 then none
      else
        let flag := 1 <<< (-delta).toNat
        if bits &&& flag = 0 then some ⟨highest, bits ||| flag⟩ else none
  else none

/-- Not 128 or more behind the highest sequence that was accepted. -/
def Recent (sequence : Int) (previous : Option Bitmap) : Prop := ∀ b ∈ previous, b.highest - 128 < sequence

/-- The bitmap records what was accepted. -/
def Records (accepted : List Int) : Option Bitmap → Prop
  | none => accepted = []
  | some ⟨highest, bits⟩ =>
    highest ∈ accepted ∧ (∀ n ∈ accepted, n ≤ highest) ∧
      ∀ i, bits.testBit i = true ↔ i < 128 ∧ highest - i ∈ accepted

section

variable {acc : List Int} {highest n : Int} {bs : Nat}

theorem testBit_shifted (bits dl i : Nat) :
    (shifted bits dl).testBit i = true ↔ dl ≤ i ∧ i < 128 ∧ bits.testBit (i - dl) = true := by
  unfold shifted
  split_ifs with hlong
  · rw [Nat.zero_testBit]
    exact iff_of_false Bool.false_ne_true (by omega)
  simp only [Nat.testBit_and, Nat.testBit_shiftLeft, Nat.one_shiftLeft, Nat.testBit_two_pow_sub_one, Bool.and_eq_true,
    decide_eq_true_eq]
  tauto

/-- A new highest sequence: the old bits move up, and bit 0 is its own. -/
theorem Records.raise (h : Records acc (some ⟨highest, bs⟩)) (hn : highest < n) :
    Records (n :: acc) (some ⟨n, shifted bs (n - highest).toNat ||| 1⟩) := by
  obtain ⟨-, hle, hbits⟩ := h
  refine ⟨mem_cons_self, forall_mem_cons.mpr ⟨le_rfl, fun m hm => (hle m hm).trans hn.le⟩, fun i => ?_⟩
  rw [Nat.testBit_or, Bool.or_eq_true, testBit_shifted, hbits, Nat.testBit_one_eq_true_iff_self_eq_zero, mem_cons]
  constructor
  · rintro (⟨hi, hlt, -, hmem⟩ | rfl)
    · rw [show highest - ((i - (n - highest).toNat : Nat) : Int) = n - i by omega] at hmem
      exact ⟨hlt, .inr hmem⟩
    · exact ⟨by omega, .inl (by omega)⟩
  · rintro ⟨hlt, heq | hmem⟩
    · exact .inr (by omega)
    · -- what was accepted before is not above the old highest sequence
      have hold := hle _ hmem
      refine .inl ⟨by omega, hlt, by omega, ?_⟩
      rw [show highest - ((i - (n - highest).toNat : Nat) : Int) = n - i by omega]
      exact hmem

/-- A sequence within the window: one bit more. -/
theorem Records.fill (h : Records acc (some ⟨highest, bs⟩)) (hn : n ≤ highest) (hrec : highest - 128 < n) :
    Records (n :: acc) (some ⟨highest, bs ||| 1 <<< (highest - n).toNat⟩) := by
  obtain ⟨hmem, hle, hbits⟩ := h
  refine ⟨mem_cons_of_mem _ hmem, forall_mem_cons.mpr ⟨hn, hle⟩, fun i => ?_⟩
  rw [Nat.testBit_or, Bool.or_eq_true, hbits, Nat.one_shiftLeft, Nat.testBit_two_pow, decide_eq_true_eq, mem_cons]
  constructor
  · rintro (⟨hlt, hmem⟩ | hi)
    · exact ⟨hlt, .inr hmem⟩
    · exact ⟨by omega, .inl (by omega)⟩
  · rintro ⟨hlt, heq | hmem⟩
    · exact .inr (by omega)
    · exact .inl ⟨hlt, hmem⟩

theorem and_flag_eq_zero (bits k : Nat) : bits &&& 1 <<< k = 0 ↔ bits.testBit k = false := by
  rw [Nat.one_shiftLeft, Nat.and_two_pow]
  cases bits.testBit k <;> simp

/-- **What `accept` does.** It takes exactly the sequences that were never taken and are not too old, and goes on
    recording. -/
theorem accept_spec {p : Option Bitmap} (h : Records acc p) (n : Int) :
    ((accept n p).isSome = true ↔ InRange n ∧ n ∉ acc ∧ Recent n p) ∧
      ∀ next, accept n p = some next → Records (n :: acc) (some next) := by
  unfold accept
  by_cases hrg : InRange n
  swap
  · rw [if_neg hrg]
    exact ⟨iff_of_false Bool.false_ne_true fun hall => hrg hall.1, nofun⟩
  rw [if_pos hrg]
  cases p with
  | none =>
    cases h
    refine ⟨iff_of_true rfl ⟨hrg, not_mem_nil, nofun⟩, ?_⟩
    rintro next ⟨⟩
    refine ⟨mem_cons_self, by simp, fun i => ?_⟩
    rw [Nat.testBit_one_eq_true_iff_self_eq_zero, mem_singleton]
    omega
  | some b =>
    obtain ⟨highest, bs⟩ := b
    have hrec : Recent n (some ⟨highest, bs⟩) ↔ highest - 128 < n :=
      ⟨fun hall => hall _ rfl, fun hlt b hb => by cases hb; exact hlt⟩
    dsimp only
    split_ifs with hup hold hflag
    · refine ⟨iff_of_true rfl ⟨hrg, fun hmem => ?_, hrec.mpr (by omega)⟩, ?_⟩
      · have hle := h.2.1 n hmem
        omega
      · rintro next ⟨⟩
        exact h.raise (by omega)
    · refine ⟨iff_of_false Bool.false_ne_true fun hall => ?_, nofun⟩
      have hlt := hrec.mp hall.2.2
      omega
    all_goals
      have hbit := h.2.2 (highest - n).toNat
      rw [show highest - ((highest - n).toNat : Int) = n by omega] at hbit
      rw [show (-(n - highest)).toNat = (highest - n).toNat by omega] at *
      rw [and_flag_eq_zero] at hflag
    · refine ⟨iff_of_true rfl ⟨hrg, fun hmem => ?_, hrec.mpr (by omega)⟩, ?_⟩
      · rw [hbit.mpr ⟨by omega, hmem⟩] at hflag
        cases hflag
      · rintro next ⟨⟩
        exact h.fill (by omega) (by omega)
    · refine ⟨iff_of_false Bool.false_ne_true fun hall => hall.2.1 ?_, nofun⟩
      exact (hbit.mp (Bool.eq_true_of_not_eq_false hflag)).2

end

/-- A sequence of packets of one stream: the bitmap and what was accepted. -/
def acceptAll : List Int → Option Bitmap × List Int
  | [] => (none, [])
  | n :: earlier =>
    let (previous, accepted) := acceptAll earlier
    match accept n previous with
    | none => (previous, accepted)
    | some next => (some next, n :: accepted)

theorem records_acceptAll (ns : List Int) : Records (acceptAll ns).2 (acceptAll ns).1 := by
  induction ns with
  | nil => rfl
  | cons n er ih =>
    rw [acceptAll]
    dsimp only
    split
    · exact ih
    · rename_i next hnx
      exact (accept_spec ih n).2 next hnx

/-! ## `shadow6_session` -/

/-- `MAX_STREAMS`. -/
def maxStreams : Nat := 4096

/-- The message that is cast to a worker, `{packet, Sequence, Plaintext, Peer}`. -/
structure Packet (peer : Type) where
  sequence : Int
  plaintext : Bytes
  peer : peer

/-- The state of a session; `pid` are the processes. -/
structure SessionState (pid : Type) where
  streams : Dict Nat pid
  replay : Dict Nat Bitmap

section

variable {pid peer : Type}

/-- `new_stream(StreamId, Streams)`, if the supervisor answers `{ok, New}`; with any other answer the session ends. -/
def newStream (child : Option pid) (streamId : Nat) (streams : Dict Nat pid) : Option (Option pid × Dict Nat pid) :=
  if streams.size < maxStreams then child.map fun new => (some new, streams.set streamId new)
  else some (none, streams)

/-- The worker for a stream: the one that is there, if it is alive, or a new one. -/
def worker (alive : pid → Bool) (child : Option pid) (streamId : Nat) (streams : Dict Nat pid) :
    Option (Option pid × Dict Nat pid) :=
  match streams.find? streamId with
  | some existing => if alive existing then some (some existing, streams) else newStream child streamId streams
  | none => newStream child streamId streams

/-- `dispatch(StreamId, Sequence, Plaintext, Peer, State)`: the state and the message that is cast. -/
def dispatch (alive : pid → Bool) (child : Option pid) (streamId : Nat) (packet : Packet peer) (s : SessionState pid) :
    Option (SessionState pid × Option (pid × Nat × Packet peer)) :=
  (worker alive child streamId s.streams).map fun (target, streams) =>
    ({ s with streams }, target.map fun p => (p, streamId, packet))

/-- `route(StreamId, Sequence, Plaintext, Peer, State)`, with what was accepted. -/
def route (alive : pid → Bool) (child : Option pid) (streamId : Nat) (packet : Packet peer) (s : SessionState pid) :
    Option (SessionState pid × Option (pid × Nat × Packet peer) × List (Nat × Int)) :=
  let previous := s.replay.find? streamId
  if previous.isSome ∨ s.replay.size < maxStreams then
    match accept packet.sequence previous with
    | none => some (s, none, [])
    | some accepted =>
      (dispatch alive child streamId packet { s with replay := s.replay.set streamId accepted }).map
        fun (next, cast) => (next, cast, [(streamId, packet.sequence)])
  else some (s, none, [])

/-- What a session process receives. -/
inductive Event (pid peer : Type) where
  /-- an authenticated packet, with the processes as they are -/
  | packet (alive : pid → Bool) (child : Option pid) (streamId : Nat) (packet : Packet peer)
  /-- `'DOWN'` of a worker -/
  | down (p : pid)
  /-- anything else: an invalid or oversized datagram, another message -/
  | other

/-- A session (`none` after its end) with the messages it has cast and the packets it has accepted. -/
structure History (pid peer : Type) where
  session : Option (SessionState pid)
  casts : List (pid × Nat × Packet peer)
  accepted : List (Nat × Int)

def History.init : History pid peer := ⟨some ⟨.empty, .empty⟩, [], []⟩

/-- One message of the session. -/
def History.step [DecidableEq pid] (h : History pid peer) (e : Event pid peer) : History pid peer :=
  match h.session with
  | none => h
  | some s =>
    match e with
    | .packet alive child streamId packet =>
      match route alive child streamId packet s with
      | none => { h with session := none }
      | some (next, cast, accepted) => ⟨some next, cast.toList ++ h.casts, accepted ++ h.accepted⟩
    | .down p => { h with session := some { s with streams := s.streams.filter fun _ q => decide (q ≠ p) } }
    | .other => h

/-- The stream and the sequence of a message. -/
def castKey (c : pid × Nat × Packet peer) : Nat × Int := (c.2.1, c.2.2.sequence)

/-- The bitmaps record what was accepted on each stream, each packet once, and only such packets are cast. -/
structure Sound (h : History pid peer) : Prop where
  records : ∀ s ∈ h.session, ∀ id, Records ((h.accepted.filter fun a => a.1 = id).map Prod.snd) (s.replay.find? id)
  once : h.accepted.Nodup
  cast : (h.casts.map castKey).Sublist h.accepted

/-- **What routing can do**: nothing, or accept the packet and cast nothing else. -/
theorem route_cases {alive : pid → Bool} {child : Option pid} {id : Nat} {packet : Packet peer}
    {s next : SessionState pid} {cast : Option (pid × Nat × Packet peer)} {accepted : List (Nat × Int)}
    (h : route alive child id packet s = some (next, cast, accepted)) :
    (next = s ∧ cast = none ∧ accepted = []) ∨
      ∃ b, accept packet.sequence (s.replay.find? id) = some b ∧ next.replay = s.replay.set id b ∧
        accepted = [(id, packet.sequence)] ∧ ∀ c ∈ cast, castKey c = (id, packet.sequence) := by
  unfold route at h
  dsimp only at h
  split_ifs at h with hroom
  swap
  · cases h
    exact .inl ⟨rfl, rfl, rfl⟩
  split at h
  · cases h
    exact .inl ⟨rfl, rfl, rfl⟩
  rename_i b hb
  obtain ⟨⟨s', cs'⟩, hdis, heq⟩ := Option.map_eq_some_iff.mp h
  obtain ⟨⟨target, ss⟩, -, hcast⟩ := Option.map_eq_some_iff.mp hdis
  cases heq
  cases hcast
  refine .inr ⟨b, hb, rfl, rfl, ?_⟩
  intro c hc
  obtain ⟨p, -, rfl⟩ := Option.map_eq_some_iff.mp hc
  rfl

variable {h : History pid peer}

theorem sound_init : Sound (History.init : History pid peer) where
  records := by
    rintro s ⟨⟩ id
    rfl
  once := .nil
  cast := .slnil

/-- A packet is accepted on one stream, the bitmaps of the others are left. -/
theorem Sound.route (hsound : Sound h) {s next : SessionState pid} (hs : h.session = some s) {alive : pid → Bool}
    {child : Option pid} {id : Nat} {packet : Packet peer} {cast : Option (pid × Nat × Packet peer)}
    {accepted : List (Nat × Int)} (hroute : route alive child id packet s = some (next, cast, accepted)) :
    Sound ⟨some next, cast.toList ++ h.casts, accepted ++ h.accepted⟩ := by
  have hrecords := hsound.records s hs
  rcases route_cases hroute with ⟨rfl, rfl, rfl⟩ | ⟨b, hb, hrep, rfl, hcast⟩
  · refine ⟨?_, hsound.once, hsound.cast⟩
    rintro _ ⟨⟩
    exact hrecords
  obtain ⟨hexact, hnext⟩ := accept_spec (hrecords id) packet.sequence
  refine ⟨?_, ?_, ?_⟩
  · rintro _ ⟨⟩ id'
    rw [hrep, Dict.find?_set]
    by_cases hid : id' = id
    · subst hid
      simpa using hnext b hb
    · simpa [hid, Ne.symm hid] using hrecords id'
  · refine nodup_cons.mpr ⟨fun hmem => ?_, hsound.once⟩
    refine (hexact.mp (by rw [hb]; rfl)).2.1 ?_
    exact mem_map.mpr ⟨_, mem_filter.mpr ⟨hmem, by simp⟩, rfl⟩
  · cases cast with
    | none => exact hsound.cast.cons _
    | some c =>
      show (castKey c :: h.casts.map castKey).Sublist _
      rw [hcast c rfl]
      exact hsound.cast.cons_cons _

theorem Sound.step [DecidableEq pid] (hsound : Sound h) (e : Event pid peer) : Sound (h.step e) := by
  unfold History.step
  split
  · exact hsound
  rename_i s hs
  cases e with
  | packet alive child id packet =>
    dsimp only
    split
    · exact ⟨nofun, hsound.once, hsound.cast⟩
    · rename_i hroute
      exact hsound.route hs hroute
  | down p =>
    refine ⟨?_, hsound.once, hsound.cast⟩
    rintro _ ⟨⟩
    exact hsound.records s hs
  | other => exact hsound

/-- **Replay protection of a session.**
    * On one stream, a sequence is accepted exactly if it was never accepted and lies above the highest one less 128,
      and the bits of the bitmap are the sequences that were accepted.
    * Whatever happens to the workers, no sequence of a stream is cast to a worker twice. -/
theorem replay_protection (pid peer : Type) [DecidableEq pid] : (∀ (ns : List Int) (n : Int),
      ((accept n (acceptAll ns).1).isSome = true ↔
        InRange n ∧ n ∉ (acceptAll ns).2 ∧ ∀ b ∈ (acceptAll ns).1, b.highest - 128 < n) ∧
      ∀ b ∈ (acceptAll ns).1, ∀ i < 128, (b.bits.testBit i = true ↔ b.highest - i ∈ (acceptAll ns).2)) ∧
    ∀ es : List (Event pid peer), ((es.foldl History.step History.init).casts.map castKey).Nodup := by
  refine ⟨fun ns n => ⟨(accept_spec (records_acceptAll ns) n).1, ?_⟩, fun es => ?_⟩
  · intro b hb i hi
    have hrecords := records_acceptAll ns
    rw [Option.mem_def.mp hb] at hrecords
    rw [hrecords.2.2 i]
    exact and_iff_right hi
  · have hsound : Sound (es.foldl History.step (History.init : History pid peer)) :=
      foldl_invariant (fun _ e hs => hs.step e) sound_init es
    exact hsound.once.sublist hsound.cast

end

end Shadow6.CoreGleam
