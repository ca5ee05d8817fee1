import Shadow6.CoreZig.Enet
import Shadow6.Library.Machine

/-!
# `CoreZig.Tunnel` — a tunnel between a local TCP connection and an ENet session

Model of `tunnel.zig` for the one session a client tunnel opens. A `Tunnel` is a worker with its channel and with
what has left it: the packets given to the UDP socket and the bytes given to the TCP socket; for reference also what
it has queued, and which sequence numbers have arrived.

A round of the worker's loop is split into its three independent parts, so that a run can put them in any order:
`service` (retire, pump, retransmit), `receive` for one datagram, and `read` for one chunk of the TCP connection.
What the operating system does is an argument: how much each `send` on the TCP socket takes, and whether a
connection to the target can be made.
-/

namespace Shadow6.CoreZig

open Library Function

structure Channel where
  secure : Session
  last : Int
  opened : Bool
  localFin : Bool
  remoteFin : Bool
  retired : Bool
  outputOffset : Nat
  retryScan : Int

structure Tunnel where
  master : Bytes
  client : Bool
  channel : Option Channel
  wires : List Bytes
  written : Bytes
  queued : List (Kind × Bytes)
  arrived : List Nat

namespace Tunnel

variable (C : Crypto) (st : Tunnel)

def create (master : Bytes) (client : Bool) : Tunnel := ⟨master, client, none, [], [], [], []⟩

def newChannel (secure : Session) (now : Int) (opened : Bool) : Channel :=
  ⟨secure, now, opened, false, false, false, 0, 0⟩

/-- `send(ch, packet)`. -/
def send (packet : Bytes) : Tunnel := { st with wires := st.wires ++ [packet] }

variable (ch : Channel)

/-- `queue` and `send`: what `attach` and the read loop do with a new packet. -/
def queueSend (kind : Kind) (data : Bytes) (now : Int) : Tunnel :=
  match ch.secure.queue C kind data now with
  | .error _ => { st with channel := some ch }
  | .ok (packet, secure) =>
    { st with channel := some { ch with secure := secure }, queued := st.queued ++ [(kind, data)] }.send packet.bytes

def attach (sid : Bytes) (now : Int) : Tunnel :=
  st.queueSend C (newChannel (.init C st.master sid true) now false) .opening [] now

/-! ## Datagrams -/

/-- The channel a datagram belongs to; an agent makes one for the first packet of a session. -/
def find (packet : Bytes) (connects : Bool) (now : Int) : Option Channel :=
  match st.channel with
  | some ch => if ch.secure.sid = Session.slice packet 8 16 then some ch else none
  | none =>
    if st.client then none
    else
      match (Session.init C st.master (Session.slice packet 8 16) false).decode C packet with
      | .error _ => none
      | .ok (decoded, secure) =>
        if decoded.kind ≠ .opening ∨ decoded.seq ≠ 0 then none
        else if connects then some (newChannel secure now true)
        else none

/-- An acknowledgement is encoded and sent. -/
def sendAck (seq : Nat) : Tunnel :=
  match ch.secure.encode C .ack seq [] with
  | .error _ => { st with channel := some ch }
  | .ok (packet, secure) => { st with channel := some { ch with secure := secure } }.send packet.bytes

/-- The part of `receive` after decoding. -/
def accept (data : Received) : Tunnel :=
  if data.kind = .ack then
    let ch := { ch with secure := ch.secure.acknowledge data.seq }
    { st with channel := some (if st.client ∧ data.seq = 0 then { ch with opened := true } else ch) }
  else
    let st := { st with arrived := st.arrived ++ [data.seq] }
    if data.seq < ch.secure.nextRx then st.sendAck C ch data.seq
    else if window ≤ data.seq - ch.secure.nextRx then { st with channel := some ch }
    else
      let received := if ch.secure.received (slotOf 256 data.seq) = none then
          update ch.secure.received (slotOf 256 data.seq) (some data)
        else ch.secure.received
      st.sendAck C { ch with secure := { ch.secure with received := received } } data.seq

/-- `receive(bytes, from)`. -/
def receive (packet : Bytes) (connects : Bool) (now : Int) : Tunnel :=
  if packet.length < headerSize + 16 then st
  else
    match st.find C packet connects now with
    | none => st
    | some ch =>
      if ch.retired then { st with channel := some ch }
      else
        match ch.secure.decode C packet with
        | .error _ => { st with channel := some ch }
        | .ok (data, secure) => st.accept C { ch with secure := secure, last := now } data

/-! ## The local connection -/

/-- The record at the front is done with: its slot is emptied. -/
def finish : Channel := { ch with
  outputOffset := 0
  secure := { ch.secure with received := update ch.secure.received (slotOf 256 ch.secure.nextRx) none } }

/-- The next record is at the front. -/
def advance : Channel :=
  { ch with secure := { ch.secure with nextRx := ch.secure.nextRx + 1 } }

/-- What the loop of `pump` does with the record at the front. -/
inductive Front where
  /-- Leave the loop: there is no record, or it could not be written as a whole. -/
  | stop
  | fail (e : Error)
  /-- The record is done with. -/
  | done

/-- One round of the loop, with what the writes take (`none` would block): what it does, the writes that are left, the
    channel and the bytes written. -/
def pumpRound (client : Bool) (writes : List (Option Nat)) (ch : Channel) :
    Front × List (Option Nat) × Channel × Bytes :=
  match ch.secure.received (slotOf 256 ch.secure.nextRx) with
  | none => (.stop, writes, ch, [])
  | some data =>
    if data.seq ≠ ch.secure.nextRx then (.fail .invalidSequence, writes, ch, [])
    else
      match data.kind with
      | .data =>
        if ch.remoteFin then (.fail .dataAfterFin, writes, ch, [])
        else
          match writes with
          | some taken :: writes =>
            let taken := min taken (data.bytes.length - ch.outputOffset)
            let out := (data.bytes.drop ch.outputOffset).take taken
            let ch := { ch with outputOffset := ch.outputOffset + taken }
            if ch.outputOffset ≠ data.bytes.length then (.stop, writes, ch, out) else (.done, writes, ch, out)
          | _ => (.stop, writes, ch, [])
      | .fin => (.done, writes, { ch with remoteFin := true }, [])
      | _ =>
        if data.kind ≠ .opening ∨ client ∨ data.seq ≠ 0 then (.fail .invalidSequence, writes, ch, [])
        else (.done, writes, ch, [])

/-- The loop of `pump`; every round empties a slot. The result is an error, the channel and the bytes written. -/
def pumpLoop (client : Bool) : Nat → List (Option Nat) → Channel → Bytes → Option Error × Channel × Bytes
  | 0, _, ch, out => (none, ch, out)
  | n + 1, writes, ch, out =>
    match pumpRound client writes ch with
    | (.stop, _, ch, more) => (none, ch, out ++ more)
    | (.fail e, _, ch, more) => (some e, ch, out ++ more)
    | (.done, writes, ch, more) =>
      let ch := finish ch
      if ch.secure.nextRx = maxInt then (some .sessionLimit, ch, out ++ more)
      else pumpLoop client n writes (advance ch) (out ++ more)

/-- `pump(ch)`. -/
def pump (writes : List (Option Nat)) : Option Error × Channel × Bytes :=
  pumpLoop st.client window writes ch []

def retire : Channel := { ch with retired := true }

/-- The scan over the pending packets; a packet that has used up its attempts retires the channel. -/
def retryLoop (now : Int) : List (Fin 256) → Channel → List Bytes → Channel × List Bytes
  | [], ch, out => (ch, out)
  | i :: rest, ch, out =>
    match ch.secure.retry i now with
    | .error _ => (retire ch, out)
    | .ok (again, secure) =>
      retryLoop now rest { ch with secure := secure } (if again then out ++ [(secure.pending i).bytes] else out)

/-- The part of the loop for one channel before the poll. -/
def service (writes : List (Option Nat)) (now : Int) : Tunnel :=
  match st.channel with
  | none => st
  | some ch =>
    if ch.retired then st
    else if 60000 < now - ch.last ∨ (ch.localFin ∧ ch.remoteFin ∧ ch.secure.inFlight = 0) then
      { st with channel := some (retire ch) }
    else
      match st.pump ch writes with
      | (some _, ch, out) => { st with channel := some (retire ch), written := st.written ++ out }
      | (none, ch, out) =>
        let st := { st with written := st.written ++ out }
        if now < ch.retryScan then { st with channel := some ch }
        else
          let (ch, again) := retryLoop now (List.finRange 256) { ch with retryScan := now + 5 } []
          { st with channel := some ch, wires := st.wires ++ again }

/-- The local connection is polled for input. -/
def readable : Bool := !ch.retired && ch.opened && !ch.localFin && ch.secure.canQueue

/-- One read of the local connection: at most a packet of bytes, none at its end. -/
def read (input : Bytes) (now : Int) : Tunnel :=
  match st.channel with
  | none => st
  | some ch =>
    if ¬ readable ch then st
    else if input = [] then st.queueSend C { ch with localFin := true } .fin [] now
    else st.queueSend C ch .data (input.take payloadMax) now

end Tunnel

/-! ## Two tunnels -/

inductive End where
  | client
  | agent
  deriving DecidableEq

def End.other : End → End
  | .client => .agent
  | .agent => .client

@[simp] theorem End.other_other (e : End) : e.other.other = e := by
  cases e <;> rfl

theorem End.other_ne (e : End) : e.other ≠ e := by
  cases e <;> decide

def End.isClient : End → Bool
  | .client => true
  | .agent => false

/-- What can happen to a tunnel; a packet from the network is named by its place in what the other one has sent. -/
inductive Event where
  | arrive (index : Nat) (connects : Bool) (now : Int)
  | service (writes : List (Option Nat)) (now : Int)
  | read (input : Bytes) (now : Int)

/-- Two tunnels with one master key, and the session the client opens. -/
structure Pair where
  crypto : Crypto
  master : Bytes
  sid : Bytes
  attached : Int
  sid_length : sid.length = 16

namespace Pair

variable (P : Pair)

def init : End → Tunnel
  | .client => (Tunnel.create P.master true).attach P.crypto P.sid P.attached
  | .agent => Tunnel.create P.master false

def react (st : Tunnel) (wires : List Bytes) : Event → Tunnel
  | .arrive index connects now =>
    match wires[index]? with
    | none => st
    | some packet => st.receive P.crypto packet connects now
  | .service writes now => st.service writes now
  | .read input now => st.read P.crypto input now

def step (x : End → Tunnel) (v : End × Event) : End → Tunnel :=
  update x v.1 (P.react (x v.1) (x v.1.other).wires v.2)

theorem step_self (x : End → Tunnel) (e : End) (v : Event) : P.step x (e, v) e = P.react (x e) (x e.other).wires v :=
  update_self _ _ _

theorem step_other (x : End → Tunnel) (e : End) (v : Event) : P.step x (e, v) e.other = x e.other :=
  update_of_ne e.other_ne _ _

/-- The two tunnels after a run. -/
def after (run : List (End × Event)) : End → Tunnel := run.foldl P.step P.init

end Pair

end Shadow6.CoreZig
