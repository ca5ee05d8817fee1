import Shadow6.NetworkAdapter.Link

/-!
# `Credited.Pool` — application streams over one adapter

Model of `CreditedSession` and `CreditedPool` in `libshadow6/__init__.py` and of the `DatagramEndpoint` they
use. A pool shares one adapter between the sessions of several streams. A session sends records under the
adapter's frame credit; completed records wait in the queue of their session until the application takes them,
as records (`receive_record`) or as bytes (`receive`). A poll that finds a queue full closes the pool.

A pool has no thread of its own: datagrams are read by the calls of the sessions only. The two pools of an
attachment are joined by the network of `NetworkAdapter.Link`, which loses, repeats and reorders records.
-/

namespace Shadow6.Credited

open Library NetworkAdapter

variable {τ : Type}

/-! ## `DatagramEndpoint` -/

/-- A datagram of the pinned peer, with the clock when it is handed to the adapter and when the adapter is
    asked for more frames. -/
structure Datagram (τ : Type) where
  wire : Bytes
  received : τ
  flushed : τ

/-- Completed records and extension events, in the order in which the adapter reports them. -/
abbrev Completed := List (Nat × Bytes) × List (Nat × Text × Json)

/-- The loop of `poll` over the datagrams that are there. An exception ends it, and what was completed is
    gone with it. -/
def pollLoop (S : Setup τ) : List (Datagram τ) → Endpoint τ → Completed → Except PyError Completed × Endpoint τ
  | [], e, done => (.ok done, e)
  | d :: ds, e, done =>
    match (e.adapter.receive S d.wire d.received).1 with
    | .error err => (.error err, e.call S (.receive d.wire d.received))
    | .ok r =>
      let e := e.call S (.receive d.wire d.received)
      match (e.adapter.outbound S d.flushed).1 with
      | .error err => (.error err, e.call S (.outbound d.flushed))
      | .ok _ => pollLoop S ds (e.call S (.outbound d.flushed)) (done.1 ++ r.messages, done.2 ++ r.events)

/-- `DatagramEndpoint.poll`: at most 64 datagrams, then the retransmissions that are due at `now`. -/
def endpointPoll (S : Setup τ) (e : Endpoint τ) (datagrams : List (Datagram τ)) (now : τ) :
    Except PyError Completed × Endpoint τ :=
  if e.adapter.closed then (.error adapterClosed, e)
  else
    match pollLoop S (datagrams.take 64) e ([], []) with
    | (.error err, e) => (.error err, e)
    | (.ok done, e) =>
      match (e.adapter.retransmit S now).1 with
      | .error err => (.error err, e.call S (.retransmit now))
      | .ok _ => (.ok done, e.call S (.retransmit now))

/-! ## `CreditedPool` -/

/-- What a call on a session raises: a `Shadow6Error`, or an exception that is passed on. -/
inductive Error where
  | shadow6 (text : String)
  | python (e : PyError)
deriving DecidableEq

/-- The queues of an open `CreditedSession`. -/
structure Session where
  maximum : Nat
  received : List Bytes
  streamBuffer : Bytes

/-- A `CreditedPool` with the sessions that are open; a session that is not in the table is closed. -/
structure Pool (τ : Type) where
  endpoint : Endpoint τ
  sessions : Dict Nat Session
  closed : Bool

namespace Pool

def s6naClosed : Error := .shadow6 "S6NA_CLOSED"

def windowViolation : Error := .shadow6 "S6NA_APPLICATION_WINDOW_VIOLATION"

variable (S : Setup τ)

/-- `close()`. -/
def close (S : Setup τ) (p : Pool τ) : Pool τ :=
  if p.closed then p
  else { endpoint := p.endpoint.call S .close, sessions := .empty, closed := true }

variable (p : Pool τ)

/-- `open(stream, maximum)`. -/
def openStream (stream : Int) (maximum : Int) : Except Error Unit × Pool τ :=
  if p.closed then (.error s6naClosed, p)
  else if ¬ (0 ≤ stream ∧ stream < S.limits.maxStreams) then
    (.error (.python (.value "invalid S6NA application stream")), p)
  else if stream.toNat ∈ p.sessions then (.error (.shadow6 "S6NA_STREAM_IN_USE"), p)
  else if ¬ (1 ≤ maximum ∧ maximum ≤ 64) then (.error (.python (.value "invalid S6NA receive window")), p)
  else (.ok (), { p with sessions := p.sessions.set stream.toNat ⟨maximum.toNat, [], []⟩ })

/-- Completed records go to the queues of their sessions; those of other streams are dropped. -/
def deliver (S : Setup τ) : List (Nat × Bytes) → Pool τ → Except Error Unit × Pool τ
  | [], p => (.ok (), p)
  | (stream, record) :: rest, p =>
    match p.sessions.find? stream with
    | none => deliver S rest p
    | some s =>
      if s.maximum ≤ s.received.length then (.error windowViolation, p.close S)
      else deliver S rest
        { p with sessions := p.sessions.set stream { s with received := s.received ++ [record] } }

/-- `poll`. -/
def poll (datagrams : List (Datagram τ)) (now : τ) : Except Error Unit × Pool τ :=
  if p.closed then (.error s6naClosed, p)
  else
    match endpointPoll S p.endpoint datagrams now with
    | (.error err, e) => (.error (.python err), { p with endpoint := e })
    | (.ok done, e) =>
      if done.2 ≠ [] then (.error (.shadow6 "S6NA_UNEXPECTED_EXTENSION"), { p with endpoint := e }.close S)
      else { p with endpoint := e }.deliver S done.1

/-! ## `CreditedSession` -/

/-- `application_credit()`. -/
def applicationCredit (S : Setup τ) (p : Pool τ) : Int := p.endpoint.adapter.applicationCredit S

/-- `send_record(data)`. -/
def sendRecord (stream : Nat) (data : Bytes) (now : τ) : Except Error Int × Pool τ :=
  if p.closed ∨ stream ∉ p.sessions then (.error s6naClosed, p)
  else
    let p' := { p with endpoint := p.endpoint.call S (.sendFlowControlled stream data now) }
    match (p.endpoint.adapter.sendFlowControlled S stream data now).1 with
    | .error err =>
      (.error (if err.kind = .adapterBackpressure then .shadow6 "S6NA_BACKPRESSURE" else .python err), p')
    | .ok _ => (.ok (p'.applicationCredit S), p')

/-- `data[offset:offset+maximum] for offset in range(0, len(data), maximum)`. -/
def pieces (maximum : Nat) (data : Bytes) : List Bytes :=
  (List.range (chunkCount data.length maximum)).map (chunk maximum data)

/-- The loop of `send`; the clock shows `now i` at its `i`-th record. -/
def sendPieces (S : Setup τ) (stream : Nat) (now : Nat → τ) : List Bytes → Pool τ → Except Error Unit × Pool τ
  | [], p => (.ok (), p)
  | data :: rest, p =>
    match p.sendRecord S stream data (now 0) with
    | (.error err, p) => (.error err, p)
    | (.ok _, p) => sendPieces S stream (fun i => now (i + 1)) rest p

/-- `send(data)`. -/
def send (stream : Nat) (data : Bytes) (now : Nat → τ) : Except Error Int × Pool τ :=
  if stream ∉ p.sessions then (.error s6naClosed, p)
  else if data = [] then (.error (.python (.value "S6NA application bytes must be non-empty")), p)
  else
    let records := pieces S.limits.maxMessage data
    let frames := (records.map fun record => chunkCount record.length S.codec.payload).sum
    -- `credit_reservable`
    if ¬ (frames : Int) ≤ p.applicationCredit S then (.error (.shadow6 "S6NA_BACKPRESSURE"), p)
    else
      match sendPieces S stream now records p with
      | (.error err, p) => (.error err, p)
      | (.ok _, p) => (.ok (p.applicationCredit S), p)

/-- `_received.popleft()`, if there is a record. -/
def popRecord (stream : Nat) : Option Bytes × Pool τ :=
  match p.sessions.find? stream with
  | some ⟨maximum, record :: rest, streamBuffer⟩ =>
    (some record, { p with sessions := p.sessions.set stream ⟨maximum, rest, streamBuffer⟩ })
  | _ => (none, p)

/-- The datagrams one poll finds, and the clock at its end. -/
structure Batch (τ : Type) where
  datagrams : List (Datagram τ)
  now : τ

/-- The polling loop of `receive_record`, with the batches it finds until the deadline. -/
def waitRecord (S : Setup τ) (stream : Nat) : List (Batch τ) → Pool τ → Except Error (Option Bytes) × Pool τ
  | [], p => (.ok none, p)
  | b :: bs, p =>
    match p.poll S b.datagrams b.now with
    | (.error err, p) => (.error err, p)
    | (.ok _, p) =>
      match p.popRecord stream with
      | (some record, p) => (.ok (some record), p)
      | (none, p) => waitRecord S stream bs p

/-- `receive_record(timeout)`. -/
def receiveRecord (stream : Nat) (batches : List (Batch τ)) : Except Error (Option Bytes) × Pool τ :=
  if stream ∉ p.sessions then (.error s6naClosed, p)
  else
    match p.popRecord stream with
    | (some record, p) => (.ok (some record), p)
    | (none, p) => waitRecord S stream batches p

/-- The end of `receive`: up to `size` bytes leave the buffer. -/
def takeBytes (stream size : Nat) : Bytes × Pool τ :=
  match p.sessions.find? stream with
  | some s =>
    (s.streamBuffer.take size,
      { p with sessions := p.sessions.set stream { s with streamBuffer := s.streamBuffer.drop size } })
  | none => ([], p)

/-- `_stream_buffer.extend(record)`. -/
def extendBuffer (stream : Nat) (record : Bytes) : Pool τ :=
  match p.sessions.find? stream with
  | some s =>
    { p with sessions := p.sessions.set stream { s with streamBuffer := s.streamBuffer ++ record } }
  | none => p

/-- Nothing is left in the buffer of the session. -/
def bufferEmpty (stream : Nat) : Bool :=
  (p.sessions.find? stream).all fun s => s.streamBuffer.isEmpty

/-- `receive(size, timeout)`. The loop of the source asks for records until the buffer is not empty; a record is
    never empty, so it ends after one. -/
def receive (S : Setup τ) (p : Pool τ) (stream : Nat) (size : Int) (batches : List (Batch τ)) :
    Except Error Bytes × Pool τ :=
  if stream ∉ p.sessions then (.error s6naClosed, p)
  else if ¬ (1 ≤ size ∧ size ≤ 65536) then (.error (.python (.value "invalid S6NA receive bound")), p)
  else if p.bufferEmpty stream then
    match p.receiveRecord S stream batches with
    | (.error err, p) => (.error err, p)
    | (.ok none, p) => (.ok [], p)
    | (.ok (some record), p) => ((p.extendBuffer stream record).takeBytes stream size.toNat).map .ok id
  else (p.takeBytes stream size.toNat).map .ok id

/-- A pool over a new adapter. -/
def new : Pool τ := ⟨⟨S.init, [], [], []⟩, .empty, false⟩

end Pool

/-! ## Two pools and a network -/

/-- Two adapters as `libshadow6` builds them for an attachment: without extensions. -/
structure Attachment (τ : Type) extends Pair τ where
  plain : ∀ s, (setup s).extensions = []

/-- The small configuration on both sides. -/
def Attachment.small : Attachment ℚ := { Pair.small with plain := fun _ => rfl }

/-- A pool with what its application has seen: the bytes `receive` returned on each stream and the exceptions. -/
structure Client (τ : Type) where
  pool : Pool τ
  read : Nat → Bytes
  raised : List Error

/-- The exception of a call, if it raised one. -/
def raisedBy {α : Type} : Except Error α → List Error
  | .error err => [err]
  | .ok _ => []

/-- After a call whose answer is not read as bytes. -/
def Client.answered {α : Type} (c : Client τ) (answer : Except Error α × Pool τ) : Client τ :=
  { c with pool := answer.2, raised := c.raised ++ raisedBy answer.1 }

/-- After a call of `receive`. -/
def Client.readBytes (c : Client τ) (stream : Nat) (answer : Except Error Bytes × Pool τ) : Client τ where
  pool := answer.2
  read := Function.update c.read stream (c.read stream ++ (answer.1.toOption.getD []))
  raised := c.raised ++ raisedBy answer.1

abbrev System (τ : Type) := Side → Client τ

/-- A poll finds records that the other side gave to the network, by their place there. -/
structure Arrival (τ : Type) where
  record : Nat
  received : τ
  flushed : τ

structure Poll (τ : Type) where
  arrivals : List (Arrival τ)
  now : τ

/-- The calls of the two applications. -/
inductive Call (τ : Type) where
  | sendRecord (stream : Nat) (data : Bytes) (now : τ)
  | send (stream : Nat) (data : Bytes) (now : Nat → τ)
  | receiveRecord (stream : Nat) (polls : List (Poll τ))
  | receive (stream : Nat) (size : Int) (polls : List (Poll τ))

structure Event (τ : Type) where
  side : Side
  call : Call τ

/-- The datagrams of a poll, given what the other side sent. -/
def Poll.batch (wires : List Bytes) (poll : Poll τ) : Pool.Batch τ where
  datagrams := poll.arrivals.filterMap fun a => (wires[a.record]?).map fun wire => ⟨wire, a.received, a.flushed⟩
  now := poll.now

/-- One call of a client whose peer has sent `wires`. -/
def Client.call (S : Setup τ) (wires : List Bytes) (c : Client τ) : Call τ → Client τ
  | .sendRecord stream data now => c.answered (c.pool.sendRecord S stream data now)
  | .send stream data now => c.answered (c.pool.send S stream data now)
  | .receiveRecord stream polls => c.answered (c.pool.receiveRecord S stream (polls.map (Poll.batch wires)))
  | .receive stream size polls =>
    c.readBytes stream (c.pool.receive S stream size (polls.map (Poll.batch wires)))

namespace Attachment

/-- The streams and receive windows that each side opens at the start. -/
def init (A : Attachment τ) (opened : Side → List (Int × Int)) : System τ := fun s =>
  { pool := (opened s).foldl (fun p o => (p.openStream (A.setup s) o.1 o.2).2) (.new (A.setup s))
    read := fun _ => []
    raised := [] }

/-- What a side has given to the network. -/
def wires (sys : System τ) (s : Side) : List Bytes := (sys s).pool.endpoint.wires

def step (A : Attachment τ) (sys : System τ) (e : Event τ) : System τ :=
  Function.update sys e.side ((sys e.side).call (A.setup e.side) (wires sys e.side.other) e.call)

def run (A : Attachment τ) (opened : Side → List (Int × Int)) (events : List (Event τ)) : System τ :=
  events.foldl A.step (A.init opened)

/-- The bytes of a stream that the adapter of a side has accepted. -/
def accepted (sys : System τ) (s : Side) (stream : Nat) : Bytes :=
  ((sys s).pool.endpoint.sent.filter (·.stream = stream)).flatMap (·.data)

end Attachment

end Shadow6.Credited
