import Shadow6.Library.Dict
import Shadow6.NetworkAdapter.Codec

/-!
# `NetworkAdapter.Adapter` — the Python `ReliableAdapter`

`ReliableAdapter` of `Network-Adapter/shadow6_network.py` as functions on an explicit state. A Python
method that raises keeps what it changed before the exception, so every operation returns its result
*and* the state it leaves, for errors too (`Outcome`). Each operation reads the clock at most once; the
instant it reads is an argument.

`encoded` is a history variable, not a field of the source: the frames handed to the cipher so far.
-/

namespace Shadow6.NetworkAdapter

open Library Function

variable {τ : Type}

/-! ## Construction -/

/-- The fields of an adapter that no operation changes. -/
structure Setup (τ : Type) where
  limits : Limits
  policy : Policy
  codec : Codec
  extensions : List Text
  timing : Timing τ
  nfc : Text → Text
  codec_streams : codec.maxStreams = limits.maxStreams

/-- `ReliableAdapter.__init__`: the checked configuration (the state it starts from is `init`). -/
def Setup.create (C : Crypto) (core : Core) (key : Bytes) (side : Nat) (extensions : List Text)
    (timing : Timing τ) (limits : Limits) (transport : Option Transport) (nfc : Text → Text) :
    Except PyError (Setup τ) :=
  match profileName core transport with
  | .error e => .error e
  | .ok core =>
    let policy := profiles core
    if core = .gleamMux ∧ policy.payload < limits.payloadBytes then
      .error (.value "Micro-Mux payload exceeds conservative MTU profile")
    else
      let payload := if limits.payloadBytes = 0 then policy.payload else limits.payloadBytes
      match h : Codec.create C key payload side limits.maxStreams with
      | .error e => .error e
      | .ok codec =>
        if limits.maxExtensions < extensions.dedup.length ∨ ∃ x ∈ extensions, x = [] ∨ 64 < x.length then
          .error (.value "invalid extension allowlist")
        else .ok { limits, policy, codec, extensions, timing, nfc,
                   codec_streams := (Codec.create_ok h).2.2.2.2 }

/-- What a successful construction fixes. -/
theorem Setup.create_ok {C : Crypto} {core : Core} {key : Bytes} {side : Nat} {extensions : List Text}
    {timing : Timing τ} {limits : Limits} {transport : Option Transport} {nfc : Text → Text} {S : Setup τ}
    (h : Setup.create C core key side extensions timing limits transport nfc = .ok S) :
    ∃ profile, profileName core transport = .ok profile ∧ S.policy = profiles profile ∧ S.limits = limits ∧
      S.codec.crypto = C ∧ S.codec.tx = deriveKey C key side ∧ S.codec.rx = deriveKey C key (1 - side) ∧
      S.codec.payload = (if limits.payloadBytes = 0 then (profiles profile).payload else limits.payloadBytes) := by
  unfold Setup.create at h
  split at h
  · cases h
  rename_i profile hprof
  dsimp only at h
  split at h
  · cases h
  split at h
  · cases h
  rename_i codec hcodec
  split at h
  · cases h
  cases h
  obtain ⟨hcry, htx, hrx, hpay, -⟩ := Codec.create_ok hcodec
  exact ⟨profile, hprof, rfl, rfl, hcry, htx, hrx, hpay⟩

/-- The effective window: `min(window_frames or policy.window, max_window)`. -/
def Setup.window (S : Setup τ) : Nat :=
  min (if S.limits.windowFrames = 0 then S.policy.window else S.limits.windowFrames) S.limits.maxWindow

/-- The default limits with short chunks. -/
def Limits.small : Limits := { payloadBytes := 64 }

/-- One side of a small configuration over the `ada` profile: 64-byte chunks. -/
def Setup.small (side : Nat) : Setup ℚ where
  limits := .small
  policy := profiles .ada
  codec :=
    { crypto := .checksum, tx := deriveKey .checksum (List.replicate 32 7) side,
      rx := deriveKey .checksum (List.replicate 32 7) (1 - side), payload := 64, maxStreams := 64,
      payload_bounds := by decide, maxStreams_bounds := by decide }
  extensions := []
  timing := .seconds
  nfc := id
  codec_streams := rfl

/-- It is what the constructor builds. -/
theorem Setup.create_small {sd : Nat} (h : sd = 0 ∨ sd = 1) :
    Setup.create .checksum .ada (List.replicate 32 7) sd [] .seconds .small none id = .ok (Setup.small sd) := by
  rcases h with rfl | rfl <;> rfl

/-! ## State -/

/-- A queued message `[message, data, index, count]`: chunks below `index` were taken. -/
structure Item where
  message : Nat
  data : Bytes
  index : Nat
  count : Nat

/-- A frame in flight `[wire, deadline, attempts, size, sent, retried]`. -/
structure Pending (τ : Type) where
  wire : Bytes
  deadline : τ
  attempts : Nat
  size : Nat
  sent : τ
  retried : Bool

/-- A message not fully acknowledged `[remaining, bytes]`. -/
structure Outgoing where
  remaining : Int
  bytes : Nat

/-- A message under reassembly. -/
structure Reassembly (τ : Type) where
  count : Nat
  parts : Dict Nat Bytes
  bytes : Nat
  deadline : τ

/-- The reassembly state with one more part. -/
def Reassembly.add (r : Reassembly τ) (index : Nat) (payload : Bytes) : Reassembly τ :=
  { r with parts := r.parts.set index payload, bytes := r.bytes + payload.length }

/-- The parts in chunk order, joined (`b"".join(parts[i] for i in range(count))`). -/
def Reassembly.join (r : Reassembly τ) : Option Bytes :=
  ((List.range r.count).mapM fun i => r.parts.find? i).map List.flatten

/-- A message identity: stream and message number. -/
abbrev Identity := Nat × Nat

/-- A chunk identity: stream, message number and chunk index. -/
abbrev ChunkKey := Nat × Nat × Nat

/-- The state of a `ReliableAdapter`. -/
structure ReliableAdapter (τ : Type) where
  nextMessage : Nat → Nat
  pending : Dict ChunkKey (Pending τ)
  queues : Nat → List Item
  activeStreams : List Nat
  incoming : Dict Identity (Reassembly τ)
  incomingBytes : Int
  buffered : Int
  completed : Finset Identity
  completedOrder : List Identity
  outgoing : Dict Identity Outgoing
  estimator : Estimator τ
  closed : Bool
  encoded : List Frame

/-- The state after `__init__`. -/
def Setup.init (S : Setup τ) : ReliableAdapter τ where
  nextMessage := fun _ => 0
  pending := .empty
  queues := fun _ => []
  activeStreams := []
  incoming := .empty
  incomingBytes := 0
  buffered := 0
  completed := ∅
  completedOrder := []
  outgoing := .empty
  estimator := ⟨none, none, S.timing.initialRto⟩
  closed := false
  encoded := []

/-- What a call returns or raises, and the state it leaves. -/
abbrev Outcome (τ α : Type) := Except PyError α × ReliableAdapter τ

/-- `AdapterClosed("S6NA adapter is closed")`. -/
def adapterClosed : PyError := ⟨.adapterClosed, "S6NA adapter is closed"⟩

namespace ReliableAdapter

/-! ## Sending -/

variable (S : Setup τ)

/-- The chunk frame at the front of a queue. -/
def chunkFrame (stream : Nat) (item : Item) : Frame where
  kind := .data
  stream := stream
  message := item.message
  index := item.index
  count := item.count
  payload := chunk S.codec.payload item.data item.index

/-- A queue after its front chunk was taken. -/
def advance (item : Item) (items : List Item) : List Item :=
  if item.index + 1 = item.count then items else { item with index := item.index + 1 } :: items

/-- The state after the front chunk of `stream` went out. -/
def transmitted (now : τ) (stream : Nat) (rest : List Nat) (item : Item)
    (items : List Item) (a : ReliableAdapter τ) : ReliableAdapter τ :=
  let frame := chunkFrame S stream item
  { a with
    encoded := frame :: a.encoded
    pending := a.pending.set (stream, item.message, item.index)
      { wire := S.codec.sealed frame, deadline := S.timing.firstDeadline now a.estimator.rto, attempts := 0,
        size := frame.payload.length, sent := now, retried := false }
    queues := update a.queues stream (advance item items)
    activeStreams := if (advance item items).isEmpty then rest else rest ++ [stream] }

variable (a : ReliableAdapter τ)

/-- One round of the loop in `outbound`: take the next chunk of the next active stream. -/
def transmit (now : τ) : Outcome τ Bytes :=
  match a.activeStreams with
  | [] => (.error ⟨.indexError, "pop from an empty deque"⟩, a)
  | stream :: rest =>
    match a.queues stream with
    | [] => (.error ⟨.indexError, "deque index out of range"⟩, { a with activeStreams := rest })
    | item :: items =>
      match S.codec.encode (chunkFrame S stream item) with
      | .error e => (.error e, { a with activeStreams := rest })
      | .ok wire => (.ok wire, a.transmitted S now stream rest item items)

/-- The loop of `outbound`; every round adds a pending frame, so the free window bounds the rounds. -/
def outboundLoop (S : Setup τ) (now : τ) : Nat → ReliableAdapter τ → Outcome τ (List Bytes)
  | 0, a => (.ok [], a)
  | fuel + 1, a =>
    if a.pending.size < S.window ∧ a.activeStreams ≠ [] then
      match transmit S a now with
      | (.error e, a) => (.error e, a)
      | (.ok wire, a) =>
        match outboundLoop S now fuel a with
        | (.error e, a) => (.error e, a)
        | (.ok wires, a) => (.ok (wire :: wires), a)
    else (.ok [], a)

/-- `outbound(now)`. -/
def outbound (now : τ) : Outcome τ (List Bytes) :=
  if a.closed then (.error adapterClosed, a)
  else outboundLoop S now (S.window - a.pending.size) a

/-- The state after a message was queued. -/
def enqueue (stream : Nat) (data : Bytes) (a : ReliableAdapter τ) : ReliableAdapter τ :=
  let message := a.nextMessage stream
  let count := chunkCount data.length S.codec.payload
  { a with
    nextMessage := update a.nextMessage stream (message + 1)
    activeStreams := if (a.queues stream).isEmpty then a.activeStreams ++ [stream] else a.activeStreams
    queues := update a.queues stream (a.queues stream ++ [⟨message, data, 0, count⟩])
    outgoing := a.outgoing.set (stream, message) ⟨count, data.length⟩
    buffered := a.buffered + data.length }

/-- `send(stream, data)`. -/
def send (stream : Int) (data : Bytes) (now : τ) : Outcome τ (List Bytes) :=
  if a.closed then (.error adapterClosed, a)
  else if ¬ (0 ≤ stream ∧ stream < S.limits.maxStreams) then (.error (.value "invalid stream"), a)
  else if data = [] ∨ S.limits.maxMessage < data.length then
    (.error (.value "message is outside configured bounds"), a)
  else if 65535 < chunkCount data.length S.codec.payload then
    (.error (.value "message exceeds chunk count"), a)
  else if (S.limits.maxInflight : Int) < a.buffered + data.length ∨ 4096 ≤ a.outgoing.size then
    (.error ⟨.adapterBackpressure, "adapter backpressure limit reached"⟩, a)
  else if 2 ^ 64 - 1 ≤ a.nextMessage stream.toNat then
    (.error ⟨.overflowError, "message sequence exhausted; rekey"⟩, a)
  else outbound S (a.enqueue S stream.toNat data) now

/-- `application_credit()`. -/
def applicationCredit : Int :=
  if a.closed then 0
  else max 0 (min (S.window - a.outgoing.sumOf fun _ o => o.remaining) (4096 - a.outgoing.size))

/-- `send_flow_controlled(stream, data)`. -/
def sendFlowControlled (stream : Int) (data : Bytes) (now : τ) : Outcome τ (List Bytes) :=
  if a.closed then (.error adapterClosed, a)
  else if ¬ (0 ≤ stream ∧ stream < S.limits.maxStreams) then (.error (.value "invalid stream"), a)
  else if data = [] ∨ S.limits.maxMessage < data.length then
    (.error (.value "message is outside configured bounds"), a)
  else if 65535 < chunkCount data.length S.codec.payload then
    (.error (.value "message exceeds chunk count"), a)
  else if a.applicationCredit S < chunkCount data.length S.codec.payload then
    (.error ⟨.adapterBackpressure, "S6NA application frame credit exhausted"⟩, a)
  else send S a stream data now

/-! ## Extensions -/

/-- The state after an extension took a message number. -/
def reserve (stream : Nat) (a : ReliableAdapter τ) : ReliableAdapter τ :=
  { a with nextMessage := update a.nextMessage stream (a.nextMessage stream + 1) }

theorem le_reserve {a : ReliableAdapter τ} (stream s : Nat) : a.nextMessage s ≤ (a.reserve stream).nextMessage s := by
  by_cases hs : s = stream <;> simp [reserve, hs]

/-- Note a frame handed to the cipher. -/
def note (f : Frame) (a : ReliableAdapter τ) : ReliableAdapter τ := { a with encoded := f :: a.encoded }

/-- The frame of an extension. -/
def extensionFrame (stream message : Nat) (payload : Bytes) : Frame :=
  { kind := .extension, stream, message, index := 0, count := 1, payload }

/-- `extension(stream, name, value)`. The message number is used up even when the frame cannot be
    encoded. -/
def extension (S : Setup τ) (a : ReliableAdapter τ) (stream : Int) (name : Text) (value : Json) : Outcome τ Bytes :=
  if a.closed then (.error adapterClosed, a)
  else if ¬ (0 ≤ stream ∧ stream < S.limits.maxStreams) then (.error (.value "invalid stream"), a)
  else if name ∉ S.extensions then (.error ⟨.permissionError, "extension is not enabled"⟩, a)
  else match Portable.Python.portable (Portable.extensionValue name value) with
  | .error e => (.error e, a)
  | .ok payload =>
    if 2 ^ 64 - 1 ≤ a.nextMessage stream.toNat then
      (.error ⟨.overflowError, "message sequence exhausted; rekey"⟩, a)
    else
      let frame := extensionFrame stream.toNat (a.nextMessage stream.toNat) payload
      match S.codec.encode frame with
      | .error e => (.error e, a.reserve stream.toNat)
      | .ok wire => (.ok wire, (a.reserve stream.toNat).note frame)

/-! ## Receiving -/

/-- What `receive` returns: acknowledgements, completed messages, extension events. -/
structure Received where
  acks : List Bytes
  messages : List (Nat × Bytes)
  events : List (Nat × Text × Json)

/-- `_remember(key)`: the last 4096 completed identities. -/
def remember (key : Identity) (a : ReliableAdapter τ) : ReliableAdapter τ :=
  match a.completedOrder ++ [key] with
  | oldest :: rest =>
    if 4096 < (oldest :: rest).length then
      { a with completed := (insert key a.completed).erase oldest, completedOrder := rest }
    else { a with completed := insert key a.completed, completedOrder := oldest :: rest }
  | [] => a

theorem remember_eq (key : Identity) : ∃ c o, a.remember key = { a with completed := c, completedOrder := o } := by
  unfold remember
  split
  · split_ifs
    · exact ⟨_, _, rfl⟩
    · exact ⟨_, _, rfl⟩
  · exact ⟨a.completed, a.completedOrder, rfl⟩

/-- One chunk of an outgoing message was acknowledged; the last one releases its bytes. -/
def release (id : Identity) (o : Outgoing) (a : ReliableAdapter τ) : ReliableAdapter τ :=
  if o.remaining - 1 = 0 then
    { a with buffered := a.buffered - o.bytes, outgoing := a.outgoing.erase id }
  else { a with outgoing := a.outgoing.set id { o with remaining := o.remaining - 1 } }

/-- Karn's rule: only frames that were never retransmitted are sampled. -/
def sampled (now : τ) (p : Pending τ) (a : ReliableAdapter τ) : ReliableAdapter τ :=
  if p.retried then a else { a with estimator := S.timing.sample a.estimator now p.sent }

theorem sampled_eq (now : τ) (p : Pending τ) (a : ReliableAdapter τ) :
    ∃ e, a.sampled S now p = { a with estimator := e } := by
  unfold sampled
  split_ifs
  · exact ⟨a.estimator, rfl⟩
  · exact ⟨_, rfl⟩

/-- `receive`, the `ACK` branch. -/
def receiveAck (f : Frame) (now : τ) : Outcome τ Received :=
  match a.pending.find? (f.stream, f.message, f.index) with
  | none => (.ok ⟨[], [], []⟩, a)
  | some p =>
    let a := { a with pending := a.pending.erase (f.stream, f.message, f.index) }
    match a.outgoing.find? (f.stream, f.message) with
    | none => (.error ⟨.keyError, "outgoing"⟩, a)
    | some o => (.ok ⟨[], [], []⟩, (a.release (f.stream, f.message) o).sampled S now p)

/-- `receive`, the `EXTENSION` branch. -/
def receiveExtension (f : Frame) (ack : Bytes) : Outcome τ Received :=
  if (f.stream, f.message) ∈ a.completed then (.ok ⟨[ack], [], []⟩, a)
  else match Portable.Python.readExtension S.nfc S.extensions f.payload with
  | .error e => (.error e, a)
  | .ok (name, value) =>
    (.ok ⟨[ack], [], [(f.stream, name, value)]⟩, a.remember (f.stream, f.message))

/-- The state with `r` stored under `id`. -/
def stored (id : Identity) (r : Reassembly τ) (a : ReliableAdapter τ) : ReliableAdapter τ :=
  { a with incoming := a.incoming.set id r }

/-- The end of the `DATA` branch: `r` is stored, and the message is returned when it is complete. -/
def settle (f : Frame) (ack : Bytes) (r : Reassembly τ) : Outcome τ Received :=
  let id := (f.stream, f.message)
  let a := a.stored id r
  if r.parts.size = f.count then
    match r.join with
    | none => (.error ⟨.keyError, "parts"⟩, a)
    | some data =>
      if S.limits.maxMessage < data.length then
        (.error (.value "reassembled message is oversized"), a)
      else (.ok ⟨[ack], [(f.stream, data)], []⟩,
        { a with incoming := a.incoming.erase id, incomingBytes := a.incomingBytes - r.bytes }.remember id)
  else (.ok ⟨[ack], [], []⟩, a)

/-- `receive`, the `DATA` branch. -/
def receiveData (f : Frame) (ack : Bytes) (now : τ) : Outcome τ Received :=
  let id := (f.stream, f.message)
  if id ∈ a.completed then (.ok ⟨[ack], [], []⟩, a)
  else if f.payload = [] then (.error (.value "empty data chunk"), a)
  else
    let found := a.incoming.find? id
    if found.isNone ∧ 4096 ≤ a.incoming.size then
      (.error ⟨.adapterBackpressure, "reassembly message limit reached"⟩, a)
    else
      let r := found.getD ⟨f.count, .empty, 0, S.timing.reassemblyDeadline now S.limits.reassemblySeconds⟩
      if r.count ≠ f.count then (.error (.value "contradictory chunk count"), a)
      else if (r.parts.find? f.index).isSome then settle S a f ack r
      else if (S.limits.maxInflight : Int) < a.incomingBytes + f.payload.length then
        (.error ⟨.adapterBackpressure, "reassembly limit reached"⟩, a)
      else if S.limits.maxMessage < r.bytes + f.payload.length then
        (.error (.value "reassembled message is oversized"), a)
      else settle S { a with incomingBytes := a.incomingBytes + f.payload.length } f ack
        (r.add f.index f.payload)

/-- The acknowledgement of a received frame. -/
def ackFrame (f : Frame) : Frame := { f with kind := .ack, payload := [] }

/-- `receive(wire)`. -/
def receive (wire : Bytes) (now : τ) : Outcome τ Received :=
  if a.closed then (.error adapterClosed, a)
  else match S.codec.decode wire with
  | .error e => (.error e, a)
  | .ok f =>
    if f.kind = .ack then receiveAck S a f now
    else match S.codec.encode (ackFrame f) with
    | .error e => (.error e, a)
    | .ok ack =>
      if f.kind = .extension then receiveExtension S (a.note (ackFrame f)) f ack
      else receiveData S (a.note (ackFrame f)) f ack now

/-! ## Retransmission -/

/-- Drop the reassembly states whose deadline has passed. -/
def expire (now : τ) (a : ReliableAdapter τ) : ReliableAdapter τ := { a with
  incoming := a.incoming.filter fun _ r => !S.timing.isReached now r.deadline
  incomingBytes := a.incomingBytes
    - (a.incoming.filter fun _ r => S.timing.isReached now r.deadline).sumOf fun _ r => r.bytes }

/-- The loop over pending frames: entries after the loop, and the frames to resend or the key that ran
    out of attempts (entries before it keep their update). -/
def resendLoop (T : Timing τ) (now rto : τ) :
    List (ChunkKey × Pending τ) → List (ChunkKey × Pending τ) × Except ChunkKey (List Bytes)
  | [] => ([], .ok [])
  | (key, p) :: rest =>
    if T.isBefore now p.deadline then
      let (rest, frames) := resendLoop T now rto rest
      ((key, p) :: rest, frames)
    else if 8 ≤ p.attempts then ((key, p) :: rest, .error key)
    else
      let p' := { p with attempts := p.attempts + 1, retried := true,
                         deadline := T.retryDeadline now rto (p.attempts + 1) }
      let (rest, frames) := resendLoop T now rto rest
      ((key, p') :: rest, frames.map (p.wire :: ·))

theorem resendLoop_keys (T : Timing τ) (now rto : τ) (l : List (ChunkKey × Pending τ)) :
    (resendLoop T now rto l).1.map Prod.fst = l.map Prod.fst := by
  induction l with
  | nil => rfl
  | cons e es ih =>
    simp only [resendLoop]
    split_ifs <;> simp [ih]

/-- The pending frames after the loop. -/
def resent (now : τ) (a : ReliableAdapter τ) : ReliableAdapter τ := { a with
  pending := ⟨(resendLoop S.timing now a.estimator.rto a.pending.entries).1,
    (resendLoop_keys S.timing now a.estimator.rto a.pending.entries).symm ▸ a.pending.nodup⟩ }

/-- `AdapterRetryLimit(f"retransmission limit reached for stream {key[0]} message {key[1]}")`. -/
def retryLimit (key : ChunkKey) : PyError :=
  ⟨.adapterRetryLimit,
    "retransmission limit reached for stream " ++ toString key.1 ++ " message " ++ toString key.2.1⟩

/-- `retransmit()`. -/
def retransmit (now : τ) : Outcome τ (List Bytes) :=
  if a.closed then (.error adapterClosed, a)
  else
    let a := a.expire S now
    match (resendLoop S.timing now a.estimator.rto a.pending.entries).2 with
    | .error key => (.error (retryLimit key), a.resent S now)
    | .ok frames =>
      match outbound S (a.resent S now) now with
      | (.error e, a) => (.error e, a)
      | (.ok wires, a) => (.ok (frames ++ wires), a)

/-- `close()`. -/
def close : ReliableAdapter τ :=
  if a.closed then a
  else { a with
    closed := true, pending := .empty, outgoing := .empty, incoming := .empty, completed := ∅
    completedOrder := [], activeStreams := [], queues := fun _ => [], incomingBytes := 0, buffered := 0 }

end ReliableAdapter

/-! ## Operations as data -/

/-- A call on an adapter, with the instant its clock shows. -/
inductive Op (τ : Type) where
  | send (stream : Int) (data : Bytes) (now : τ)
  | sendFlowControlled (stream : Int) (data : Bytes) (now : τ)
  | extension (stream : Int) (name : Text) (value : Json)
  | outbound (now : τ)
  | receive (wire : Bytes) (now : τ)
  | retransmit (now : τ)
  | close

/-- What a call returns. -/
inductive Reply where
  | frames (wires : List Bytes)
  | received (r : ReliableAdapter.Received)
  | none

/-- The frames a reply hands to the carrier. -/
def Reply.wires : Reply → List Bytes
  | .frames wires => wires
  | .received r => r.acks
  | .none => []

/-- Run one call. -/
def Setup.apply (S : Setup τ) (a : ReliableAdapter τ) : Op τ → Except PyError Reply × ReliableAdapter τ
  | .send stream data now => (a.send S stream data now).map (Except.map .frames) id
  | .sendFlowControlled stream data now => (a.sendFlowControlled S stream data now).map (Except.map .frames) id
  | .extension stream name value => (a.extension S stream name value).map (Except.map fun w => .frames [w]) id
  | .outbound now => (a.outbound S now).map (Except.map .frames) id
  | .receive wire now => (a.receive S wire now).map (Except.map .received) id
  | .retransmit now => (a.retransmit S now).map (Except.map .frames) id
  | .close => (.ok .none, a.close)

/-- Run a sequence of calls; a call that raises does not end the run. -/
def Setup.run (S : Setup τ) (a : ReliableAdapter τ) (ops : List (Op τ)) : ReliableAdapter τ :=
  ops.foldl (fun a op => (S.apply a op).2) a

end Shadow6.NetworkAdapter
