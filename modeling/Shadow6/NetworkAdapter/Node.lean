import Shadow6.NetworkAdapter.Adapter
import Shadow6.Portable.Node

/-!
# `NetworkAdapter.Node` — the Node.js `ReliableAdapter`

`Codec` and `ReliableAdapter` of `Network-Adapter/shadow6_network.mjs`, written from that source, on records of
the same shape as the Python ones (`Item`, `Pending`, `Outgoing`, `Reassembly`, `Frame`). What the two
backends keep differently is modelled as Node.js keeps it: the active streams in an array with a head
position, the completed identities in a ring of 4096 slots, the header in a buffer written at offsets.

A `Map` whose string keys are `${stream}:${message}:${index}` is a `Dict` over the numbers themselves.
-/

namespace Shadow6.NetworkAdapter.Node

open Library Function

variable {τ : Type}

/-! ## Profiles and construction -/

/-- `PROFILES`. -/
def profiles : Core → Policy
  | .go => ⟨65536, 64⟩
  | .rust => ⟨65536, 64⟩
  | .zig => ⟨32768, 64⟩
  | .ada => ⟨448, 32⟩
  | .d => ⟨1200, 32⟩
  | .nim => ⟨16384, 64⟩
  | .cpp => ⟨32768, 64⟩
  | .pony => ⟨960, 32⟩
  | .hare => ⟨896, 16⟩
  | .carp => ⟨960, 16⟩
  | .gleam => ⟨4096, 32⟩
  | .idris => ⟨1024, 32⟩
  | .gleamMux => ⟨1100, 64⟩

/-- `profileName(core, transport)`. -/
def profileName (core : Core) : Option Transport → Except JsError Core
  | none => .ok core
  | some transport =>
    if ¬ (core = .gleam ∨ core = .gleamMux) ∨ (core = .gleamMux ∧ transport ≠ .microMux) then
      .error (.plain "unsupported core transport selection")
    else .ok (if transport = .microMux then .gleamMux else .gleam)

/-- The constructor of `Codec`. -/
def createCodec (C : Crypto) (key : Bytes) (payload side maxStreams : Nat) : Except JsError Codec :=
  if key.length ≠ 32 then .error (.plain "adapter key must be 32 bytes")
  else if hp : payload < 64 ∨ 65536 < payload then .error (.plain "invalid adapter payload")
  else if side ≠ 0 ∧ side ≠ 1 then .error (.plain "invalid side")
  else if hs : maxStreams < 1 ∨ 4096 < maxStreams then .error (.plain "invalid stream limit")
  else .ok { crypto := C, tx := deriveKey C key side, rx := deriveKey C key (1 - side), payload, maxStreams,
             payload_bounds := by omega, maxStreams_bounds := by omega }

/-- What a successful construction fixes. -/
theorem createCodec_ok {C : Crypto} {key : Bytes} {payload side maxStreams : Nat} {c : Codec}
    (h : createCodec C key payload side maxStreams = .ok c) :
    c.crypto = C ∧ c.tx = deriveKey C key side ∧ c.rx = deriveKey C key (1 - side) ∧ c.payload = payload ∧
      c.maxStreams = maxStreams := by
  unfold createCodec at h
  split_ifs at h
  cases h
  exact ⟨rfl, rfl, rfl, rfl, rfl⟩

/-- The constructor of `ReliableAdapter`: the checked configuration. Strings measure in UTF-16 units, and a
    repeated extension is refused. -/
def create (C : Crypto) (core : Core) (key : Bytes) (side : Nat) (extensions : List Text)
    (timing : Timing τ) (limits : Limits) (transport : Option Transport) (nfc : Text → Text) :
    Except JsError (Setup τ) :=
  match profileName core transport with
  | .error e => .error e
  | .ok core =>
    let policy := profiles core
    if core = .gleamMux ∧ 1100 < limits.payloadBytes then
      .error (.plain "Micro-Mux payload exceeds conservative MTU profile")
    else
      let payload := if limits.payloadBytes = 0 then policy.payload else limits.payloadBytes
      match h : createCodec C key payload side limits.maxStreams with
      | .error e => .error e
      | .ok codec =>
        if extensions.dedup.length ≠ extensions.length ∨ limits.maxExtensions < extensions.dedup.length ∨
            ∃ x ∈ extensions, (Portable.Node.utf16 x).length < 1 ∨ 64 < (Portable.Node.utf16 x).length then
          .error (.plain "invalid extension allowlist")
        else .ok { limits, policy, codec, extensions, timing, nfc,
                   codec_streams := (createCodec_ok h).2.2.2.2 }

/-! ## Codec -/

/-- `buffer.write…(value, offset)`: the bytes of `h` from `offset` on replaced. -/
def writeAt (h : Bytes) (offset : Nat) (bs : Bytes) : Bytes := h.take offset ++ bs ++ h.drop (offset + bs.length)

/-- `buffer.read…(offset)` of an integer of `w` bytes. -/
def readAt (h : Bytes) (offset w : Nat) : Nat := ofBE ((h.drop offset).take w)

/-- The header `encode` builds in a zeroed buffer. -/
def header (f : Frame) : Bytes :=
  let h := List.replicate 32 0
  let h := writeAt h 0 magic
  let h := writeAt h 4 (toBE 1 1)
  let h := writeAt h 5 (toBE 1 f.kind.code)
  let h := writeAt h 8 (toBE 8 f.stream)
  let h := writeAt h 16 (toBE 8 f.message)
  let h := writeAt h 24 (toBE 2 f.index)
  let h := writeAt h 26 (toBE 2 f.count)
  writeAt h 28 (toBE 4 f.payload.length)

/-- `nonce(header)`. -/
def nonce (C : Crypto) (header : Bytes) : Bytes := (C.sha256 (nonceLabel ++ header)).take 12

/-- `encode(kind, stream, message, index, count, payload)`. -/
def encode (c : Codec) (f : Frame) : Except JsError Bytes :=
  if c.maxStreams ≤ f.stream ∨ 2 ^ 64 - 1 < f.message then .error (.plain "invalid frame identity")
  else if c.payload < f.payload.length ∨ f.count < 1 ∨ 65535 < f.count ∨ f.count ≤ f.index then
    .error (.plain "invalid frame bounds")
  else
    let h := header f
    .ok (h ++ c.crypto.encrypt c.tx (nonce c.crypto h) f.payload h)

/-- `decode(wire)`: one check of the header, then the body and the tag apart. -/
def decode (c : Codec) (wire : Bytes) : Except JsError Frame :=
  if wire.length < headerSize + tagBytes ∨ headerSize + c.payload + tagBytes < wire.length then
    .error (.plain "invalid frame size")
  else
    let h := wire.take headerSize
    let stream := readAt h 8 8
    let message := readAt h 16 8
    let index := readAt h 24 2
    let count := readAt h 26 2
    match Kind.ofCode (readAt h 5 1) with
    | none => .error (.plain "invalid frame header")
    | some kind =>
      if h.take 4 ≠ magic ∨ readAt h 4 1 ≠ 1 ∨ readAt h 6 2 ≠ 0 ∨
          readAt h 28 4 ≠ wire.length - headerSize - tagBytes ∨ c.maxStreams ≤ stream ∨ count < 1 ∨
          count ≤ index then
        .error (.plain "invalid frame header")
      else
        let body := (wire.drop headerSize).take (wire.length - headerSize - tagBytes)
        let tag := wire.drop (wire.length - tagBytes)
        match c.crypto.decrypt c.rx (nonce c.crypto h) (body ++ tag) h with
        | none => .error (.plain "frame authentication failed")
        | some payload =>
          if kind = .ack ∧ payload ≠ [] then .error (.plain "invalid acknowledgment")
          else .ok { kind, stream, message, index, count, payload }

/-! ## State -/

/-- The state of a `ReliableAdapter`. -/
structure ReliableAdapter (τ : Type) where
  next : Nat → Nat
  pending : Dict ChunkKey (Pending τ)
  outgoing : Dict Identity Outgoing
  queues : Nat → List Item
  activeStreams : List Nat
  activeHead : Nat
  incoming : Dict Identity (Reassembly τ)
  incomingBytes : Int
  completed : Finset Identity
  order : List Identity
  orderHead : Nat
  buffered : Int
  estimator : Estimator τ
  closed : Bool

/-- The state the constructor leaves. -/
def init (S : Setup τ) : ReliableAdapter τ where
  next := fun _ => 0
  pending := .empty
  outgoing := .empty
  queues := fun _ => []
  activeStreams := []
  activeHead := 0
  incoming := .empty
  incomingBytes := 0
  completed := ∅
  order := []
  orderHead := 0
  buffered := 0
  estimator := ⟨none, none, S.timing.initialRto⟩
  closed := false

/-- What a call returns or throws, and the state it leaves. -/
abbrev Outcome (τ α : Type) := Except JsError α × ReliableAdapter τ

/-- The error of `ensureOpen()`. -/
def closedError : JsError := ⟨some .closed, "S6NA adapter is closed"⟩

/-- `backpressure()`. -/
def backpressure : JsError := ⟨some .backpressure, "S6NA backpressure limit reached"⟩

namespace ReliableAdapter

/-! ## Sending -/

variable (S : Setup τ) (b : ReliableAdapter τ)

/-- One round of the loop in `outbound`. The item's index is advanced before the frame is encoded. -/
def transmit (now : τ) : Outcome τ Bytes :=
  match b.activeStreams[b.activeHead]? with
  | none => (.error (.plain "Cannot read properties of undefined (reading '0')"), b)
  | some stream =>
    let b := { b with activeHead := b.activeHead + 1 }
    match b.queues stream with
    | [] => (.error (.plain "Cannot read properties of undefined (reading 'index')"), b)
    | item :: items =>
      let start := item.index * S.codec.payload
      let payload := (item.data.drop start).take S.codec.payload
      let taken := { item with index := item.index + 1 }
      let b := { b with queues := update b.queues stream (taken :: items) }
      match encode S.codec ⟨.data, stream, item.message, item.index, item.count, payload⟩ with
      | .error e => (.error e, b)
      | .ok wire =>
        let queue := if taken.index = taken.count then items else taken :: items
        (.ok wire,
          { b with
            pending := b.pending.set (stream, item.message, item.index)
              { wire, deadline := S.timing.firstDeadline now b.estimator.rto, attempts := 0,
                size := payload.length, sent := now, retried := false }
            queues := update b.queues stream queue
            activeStreams := if queue.length ≠ 0 then b.activeStreams ++ [stream] else b.activeStreams })

/-- The loop of `outbound`; every round adds a pending frame, so the free window bounds the rounds. -/
def outboundLoop (S : Setup τ) (now : τ) : Nat → ReliableAdapter τ → List Bytes → Outcome τ (List Bytes)
  | 0, b, out => (.ok out, b)
  | fuel + 1, b, out =>
    if b.pending.size < S.window ∧ b.activeHead < b.activeStreams.length then
      match transmit S b now with
      | (.error e, b) => (.error e, b)
      | (.ok wire, b) => outboundLoop S now fuel b (out ++ [wire])
    else (.ok out, b)

/-- What `outbound` does with the consumed part of `activeStreams` at its end. -/
def compact : ReliableAdapter τ :=
  if b.activeHead = b.activeStreams.length then { b with activeStreams := [], activeHead := 0 }
  else if 1024 < b.activeHead then
    { b with activeStreams := b.activeStreams.drop b.activeHead, activeHead := 0 }
  else b

/-- `outbound()`. -/
def outbound (now : τ) : Outcome τ (List Bytes) :=
  if b.closed then (.error closedError, b)
  else match outboundLoop S now (S.window - b.pending.size) b [] with
  | (.error e, b) => (.error e, b)
  | (.ok out, b) => (.ok out, b.compact)

/-- `Math.ceil(length / size)`. -/
def ceilDiv (length size : Nat) : Nat := if length % size = 0 then length / size else length / size + 1

/-- The state after a message was queued. -/
def enqueue (s : Nat) (data : Bytes) (b : ReliableAdapter τ) : ReliableAdapter τ :=
  let m := b.next s
  let count := ceilDiv data.length S.codec.payload
  { b with
    next := update b.next s (m + 1)
    activeStreams := if (b.queues s).length = 0 then b.activeStreams ++ [s] else b.activeStreams
    queues := update b.queues s (b.queues s ++ [⟨m, data, 0, count⟩])
    outgoing := b.outgoing.set (s, m) ⟨count, data.length⟩
    buffered := b.buffered + data.length }

/-- `send(stream, data)`. -/
def send (stream : Int) (data : Bytes) (now : τ) : Outcome τ (List Bytes) :=
  if b.closed then (.error closedError, b)
  else if stream < 0 ∨ (S.limits.maxStreams : Int) ≤ stream ∨ data.length = 0 ∨
      S.limits.maxMessage < data.length then (.error (.plain "invalid message"), b)
  else if (S.limits.maxInflight : Int) < b.buffered + data.length ∨ 4096 ≤ b.outgoing.size then
    (.error backpressure, b)
  else if b.next stream.toNat = 2 ^ 64 - 1 then (.error (.plain "message sequence exhausted; rekey"), b)
  else if 65535 < ceilDiv data.length S.codec.payload then (.error (.plain "message exceeds chunk count"), b)
  else outbound S (b.enqueue S stream.toNat data) now

/-- `applicationCredit()`. -/
def applicationCredit : Int :=
  if b.closed then 0
  else
    let outstanding := b.outgoing.sumOf fun _ o => o.remaining
    max 0 (min (S.window - outstanding) (4096 - b.outgoing.size))

/-- `sendFlowControlled(stream, data)`. -/
def sendFlowControlled (stream : Int) (data : Bytes) (now : τ) : Outcome τ (List Bytes) :=
  if b.closed then (.error closedError, b)
  else if stream < 0 ∨ (S.limits.maxStreams : Int) ≤ stream then (.error (.plain "invalid stream"), b)
  else if data.length = 0 ∨ S.limits.maxMessage < data.length then (.error (.plain "invalid message"), b)
  else
    let count := ceilDiv data.length S.codec.payload
    if 65535 < count then (.error (.plain "message exceeds chunk count"), b)
    else if b.applicationCredit S < count then (.error backpressure, b)
    else send S b stream data now

/-- `extension(stream, name, value)`. The message number is used up before the value is looked at. -/
def extension (S : Setup τ) (b : ReliableAdapter τ) (stream : Int) (name : Text) (value : Json) : Outcome τ Bytes :=
  if b.closed then (.error closedError, b)
  else if stream < 0 ∨ (S.limits.maxStreams : Int) ≤ stream ∨ name ∉ S.extensions then
    (.error (.plain "extension is not enabled"), b)
  else
    let s := stream.toNat
    let m := b.next s
    if m = 2 ^ 64 - 1 then (.error (.plain "message sequence exhausted; rekey"), b)
    else
      let b := { b with next := update b.next s (m + 1) }
      match Portable.Node.canonical (Portable.extensionValue name value) with
      | .error e => (.error e, b)
      | .ok payload => (encode S.codec ⟨.extension, s, m, 0, 1, payload⟩, b)

/-! ## Receiving -/

/-- `remember(k)`: a ring of the last 4096 completed identities. -/
def remember (k : Identity) (b : ReliableAdapter τ) : ReliableAdapter τ :=
  if k ∈ b.completed then b
  else if b.order.length < 4096 then { b with order := b.order ++ [k], completed := insert k b.completed }
  else
    let kept := match b.order[b.orderHead]? with
      | some oldest => b.completed.erase oldest
      | none => b.completed
    { b with
      completed := insert k kept
      order := b.order.set b.orderHead k
      orderHead := (b.orderHead + 1) % 4096 }

/-- `--message.remaining`; the last chunk releases the bytes of the message. -/
def release (mk : Identity) (o : Outgoing) (b : ReliableAdapter τ) : ReliableAdapter τ :=
  let remaining := o.remaining - 1
  if remaining = 0 then { b with buffered := b.buffered - o.bytes, outgoing := b.outgoing.erase mk }
  else { b with outgoing := b.outgoing.set mk { o with remaining } }

/-- `receive`, the `ACK` branch. -/
def receiveAck (f : Frame) (now : τ) : Outcome τ NetworkAdapter.ReliableAdapter.Received :=
  match b.pending.find? (f.stream, f.message, f.index) with
  | none => (.ok ⟨[], [], []⟩, b)
  | some p =>
    let b := { b with pending := b.pending.erase (f.stream, f.message, f.index) }
    match b.outgoing.find? (f.stream, f.message) with
    | none => (.error (.plain "Cannot read properties of undefined (reading 'remaining')"), b)
    | some o =>
      let b := b.release (f.stream, f.message) o
      (.ok ⟨[], [], []⟩,
        if !p.retried then { b with estimator := S.timing.sample b.estimator now p.sent } else b)

/-- `receive`, the `EXTENSION` branch. -/
def receiveExtension (f : Frame) (ack : Bytes) : Outcome τ NetworkAdapter.ReliableAdapter.Received :=
  let mk := (f.stream, f.message)
  if mk ∈ b.completed then (.ok ⟨[ack], [], []⟩, b)
  else match Portable.Node.readExtension S.nfc S.extensions f.payload with
  | .error e => (.error e, b)
  | .ok (name, value) => (.ok ⟨[ack], [], [(f.stream, name, value)]⟩, b.remember mk)

/-- `Buffer.concat` of the parts `0 … count-1`. -/
def concatParts (count : Nat) (parts : Dict Nat Bytes) : Option Bytes :=
  ((List.range count).mapM fun i => parts.find? i).map List.flatten

/-- The end of the `DATA` branch: `state` is stored, and the message is returned when it is complete. -/
def settle (f : Frame) (ack : Bytes) (state : Reassembly τ) : Outcome τ NetworkAdapter.ReliableAdapter.Received :=
  let mk := (f.stream, f.message)
  let b := { b with incoming := b.incoming.set mk state }
  if state.parts.size = f.count then
    match concatParts f.count state.parts with
    | none => (.error (.plain "The \"list[0]\" argument must be an instance of Buffer or Uint8Array"), b)
    | some data =>
      if S.limits.maxMessage < data.length then (.error (.plain "reassembled message is oversized"), b)
      else (.ok ⟨[ack], [(f.stream, data)], []⟩,
        { b with incoming := b.incoming.erase mk
                 incomingBytes := b.incomingBytes - state.bytes }.remember mk)
  else (.ok ⟨[ack], [], []⟩, b)

/-- `this.incoming.get(mk) || {count, parts, bytes, deadline}`. -/
def stateFor (now : τ) (f : Frame) (b : ReliableAdapter τ) : Reassembly τ :=
  match b.incoming.find? (f.stream, f.message) with
  | some state => state
  | none => ⟨f.count, .empty, 0, S.timing.reassemblyDeadline now S.limits.reassemblySeconds⟩

/-- `receive`, the `DATA` branch. -/
def receiveData (f : Frame) (ack : Bytes) (now : τ) : Outcome τ NetworkAdapter.ReliableAdapter.Received :=
  let mk := (f.stream, f.message)
  if mk ∈ b.completed then (.ok ⟨[ack], [], []⟩, b)
  else if f.payload.length = 0 then (.error (.plain "empty data chunk"), b)
  else if mk ∉ b.incoming ∧ 4096 ≤ b.incoming.size then (.error backpressure, b)
  else
    let state := b.stateFor S now f
    if state.count ≠ f.count then (.error (.plain "contradictory chunk count"), b)
    else if f.index ∉ state.parts then
      if (S.limits.maxInflight : Int) < b.incomingBytes + f.payload.length then (.error backpressure, b)
      else if S.limits.maxMessage < state.bytes + f.payload.length then
        (.error (.plain "reassembled message is oversized"), b)
      else settle S { b with incomingBytes := b.incomingBytes + f.payload.length } f ack
        { state with parts := state.parts.set f.index f.payload, bytes := state.bytes + f.payload.length }
    else settle S b f ack state

/-- `receive(wire)`. -/
def receive (wire : Bytes) (now : τ) : Outcome τ NetworkAdapter.ReliableAdapter.Received :=
  if b.closed then (.error closedError, b)
  else match decode S.codec wire with
  | .error e => (.error e, b)
  | .ok f =>
    if f.kind = .ack then receiveAck S b f now
    else match encode S.codec ⟨.ack, f.stream, f.message, f.index, f.count, []⟩ with
    | .error e => (.error e, b)
    | .ok ack =>
      if f.kind = .extension then receiveExtension S b f ack else receiveData S b f ack now

/-! ## Retransmission -/

/-- The loop over `pending` in `retransmit`: the entries after it, and the frames to resend after those in
    `out`, or the key that ran out of attempts. -/
def resendLoop (T : Timing τ) (now rto : τ) : List (ChunkKey × Pending τ) → List Bytes →
    List (ChunkKey × Pending τ) × Except ChunkKey (List Bytes)
  | [], out => ([], .ok out)
  | (key, p) :: rest, out =>
    if T.isBefore now p.deadline then
      let (rest, result) := resendLoop T now rto rest out
      ((key, p) :: rest, result)
    else if 8 ≤ p.attempts then ((key, p) :: rest, .error key)
    else
      let attempts := p.attempts + 1
      let p' := { p with attempts, retried := true, deadline := T.retryDeadline now rto attempts }
      let (rest, result) := resendLoop T now rto rest (out ++ [p.wire])
      ((key, p') :: rest, result)

theorem resendLoop_keys (T : Timing τ) (now rto : τ) (l : List (ChunkKey × Pending τ)) (out : List Bytes) :
    (resendLoop T now rto l out).1.map Prod.fst = l.map Prod.fst := by
  induction l generalizing out with
  | nil => rfl
  | cons e es ih =>
    simp only [resendLoop]
    split_ifs <;> simp [ih]

/-- The entries of `pending` after the loop. -/
def resent (now : τ) (b : ReliableAdapter τ) : ReliableAdapter τ := { b with
  pending := ⟨(resendLoop S.timing now b.estimator.rto b.pending.entries []).1,
    (resendLoop_keys S.timing now b.estimator.rto b.pending.entries []).symm ▸ b.pending.nodup⟩ }

/-- The loop over `incoming` in `retransmit`: drop what is overdue. -/
def expire (now : τ) (b : ReliableAdapter τ) : ReliableAdapter τ := { b with
  incoming := b.incoming.filter fun _ s => !S.timing.isReached now s.deadline
  incomingBytes := b.incomingBytes
    - (b.incoming.filter fun _ s => S.timing.isReached now s.deadline).sumOf fun _ s => s.bytes }

/-- The error of `retransmit` for a frame that was sent eight more times. -/
def retryExhausted (key : ChunkKey) : JsError :=
  ⟨some .retryExhausted, "retransmission limit reached " ++ toString key.1 ++ ":" ++ toString key.2.1 ++ ":"
    ++ toString key.2.2⟩

/-- `retransmit()`: frames first, reassembly deadlines after. -/
def retransmit (now : τ) : Outcome τ (List Bytes) :=
  if b.closed then (.error closedError, b)
  else match (resendLoop S.timing now b.estimator.rto b.pending.entries []).2 with
  | .error key => (.error (retryExhausted key), b.resent S now)
  | .ok out =>
    match outbound S ((b.resent S now).expire S now) now with
    | (.error e, b) => (.error e, b)
    | (.ok wires, b) => (.ok (out ++ wires), b)

/-- `close()`; `orderHead` stays where it is. -/
def close : ReliableAdapter τ :=
  if b.closed then b
  else { b with
    closed := true, pending := .empty, outgoing := .empty, incoming := .empty, completed := ∅, order := []
    activeStreams := [], activeHead := 0, queues := fun _ => [], incomingBytes := 0, buffered := 0 }

end ReliableAdapter

/-- Run one call. -/
def apply (S : Setup τ) (b : ReliableAdapter τ) : Op τ → Except JsError Reply × ReliableAdapter τ
  | .send stream data now => (b.send S stream data now).map (Except.map .frames) id
  | .sendFlowControlled stream data now => (b.sendFlowControlled S stream data now).map (Except.map .frames) id
  | .extension stream name value => (b.extension S stream name value).map (Except.map fun w => .frames [w]) id
  | .outbound now => (b.outbound S now).map (Except.map .frames) id
  | .receive wire now => (b.receive S wire now).map (Except.map .received) id
  | .retransmit now => (b.retransmit S now).map (Except.map .frames) id
  | .close => (.ok .none, b.close)

end Shadow6.NetworkAdapter.Node
