import Shadow6.CorePony.Session
import Shadow6.CorePony.Wire
import Shadow6.Library.Machine

/-!
# `CorePony.Runtime` — the actor `ClientSession`

Model of the actor `ClientSession` in `runtime.pony` with the two calls on an inherited application flow in
`crypto/session.c`. A behaviour of the actor runs to its end before the next one, so it is a function of the state;
the clock has one value in it. A `Station` is the actor with what has left it: the packets given to the network, the
records that the application flow took, the datagrams for the local application, and, for reference, the records it
accepted for sending and those its session delivered.

What the operating system does is a parameter (`Host`): the results of the calls on the flow's socket, by their
number, and whether a response completes the handshake.
-/

namespace Shadow6.CorePony

open Library

/-! ## The application flow -/

/-- What `send` on the flow's socket does: bytes taken, would block, or another error. -/
inductive SendResult where
  | sent (n : Nat)
  | again
  | failed

/-- What `recvmsg` on the flow's socket does. -/
inductive RecvResult where
  | received (data : Bytes) (truncated : Bool)
  | again
  | failed

/-- `s6_app_flow_send`: 1 is queued, 0 is retry later, -1 is failed. -/
def s6AppFlowSend (fd : Int) (data : Bytes) (result : SendResult) : Int :=
  if fd < 0 ∨ data.length = 0 ∨ 1172 < data.length then -1
  else
    match result with
    | .sent n => if n = data.length then 1 else -1
    | .again => 0
    | .failed => -1

/-- `s6_app_flow_recv`. -/
def s6AppFlowRecv (capacity : Nat) : RecvResult → Int
  | .received data truncated =>
    if data.length = 0 then -2 else if truncated = true ∨ capacity < data.length then -3 else data.length
  | .again => -1
  | .failed => -4

/-- The surroundings of an actor. -/
structure Host where
  finish : Bytes → Option OCapToken
  send : Nat → Bytes → SendResult
  recv : Nat → RecvResult

/-! ## The actor -/

abbrev NetAddress := Nat

structure ClientSession where
  client : Bool
  peer : NetAddress
  session : ReliableSession
  token : Option OCapToken
  localAddress : Option NetAddress
  stage : Nat
  hello : Bytes
  retry : Bytes
  started : Nat
  lastActivity : Nat
  handshakeSent : Nat
  closed : Bool
  flowFd : Int
  flowAttached : Bool
  flowEof : Bool
  flowDrained : Bool
  networkOutput : List Bytes
  appOutput : List Bytes

/-- The actor with what has left it. -/
structure Station extends ClientSession where
  wires : List Bytes
  handed : List Bytes
  toApp : List Bytes
  accepted : List Bytes
  delivered : List Bytes
  sends : Nat
  recvs : Nat

namespace Station

variable (H : Host) (A : Aead) (st : Station)

/-- `_close()`. -/
def close : Station :=
  if st.closed then st
  else { st with
    flowFd := if 0 ≤ st.flowFd then -1 else st.flowFd
    closed := true, token := none, session := st.session.clear }

/-- `_flush_network()`. -/
def flushNetwork : Station := { st with wires := st.wires ++ st.networkOutput, networkOutput := [] }

/-- `_send(wire)`. -/
def sendWire (wire : Bytes) : Station :=
  let st := { st with networkOutput := st.networkOutput ++ [wire] }
  if 16 ≤ st.networkOutput.length then st.flushNetwork else st

/-- The loop of `_flush_output` over the records for the flow; `_app_output` is empty while it runs. -/
def flushFlow : List Bytes → Station → Station
  | [], st => st
  | payload :: rest, st =>
    let result := s6AppFlowSend st.flowFd payload (H.send st.sends payload)
    let st := { st with sends := st.sends + 1 }
    if result = 0 then { st with appOutput := payload :: rest }
    else if result < 0 then st.close
    else flushFlow rest { st with handed := st.handed ++ [payload] }

/-- `_flush_output()`. -/
def flushOutput : Station :=
  let st := st.flushNetwork
  if st.appOutput = [] then st
  else if st.flowAttached then flushFlow H st.appOutput { st with appOutput := [] }
  else
    match st.localAddress with
    | some _ => { st with toApp := st.toApp ++ st.appOutput, appOutput := [] }
    | none => st

/-- `_deliver(payload)`. -/
def deliver (payload : Bytes) : Bool × Station :=
  let st := { st with delivered := st.delivered ++ [payload] }
  if st.flowAttached then
    if 256 ≤ st.appOutput.length then (false, st.close)
    else
      let st := flushOutput H { st with appOutput := st.appOutput ++ [payload] }
      (!st.closed, st)
  else
    match st.localAddress with
    | some _ =>
      let st := { st with appOutput := st.appOutput ++ [payload] }
      (true, if 16 ≤ st.appOutput.length then flushOutput H st else st)
    | none => (true, st)

/-! ### Sending -/

/-- The common end of `_plaintext` and `_send_flow_message`; `false` is an error. -/
def submit (data : Bytes) (now : Nat) : Bool × Station :=
  match st.token, st.session.nextSequence with
  | some token, some (sequence, session) =>
    match token.sealPacket A (framePayload data) sequence kindData with
    | none => (false, { st with session := session })
    | some wire =>
      let st := { st with session := session.sent sequence wire now, accepted := st.accepted ++ [data] }
      (true, { st.sendWire wire with lastActivity := now })
  | _, _ => (false, st)

/-- `_plaintext(data, from)`. -/
def plaintext (data : Bytes) (sender : NetAddress) (now : Nat) : Station :=
  if st.stage ≠ 3 ∨ 1172 < data.length ∨ ¬ st.session.canSend then st
  else
    match st.localAddress with
    | some address => if sender ≠ address then st else (submit A st data now).2
    | none => (submit A { st with localAddress := some sender } data now).2

/-- `_send_flow_message(data)`. -/
def sendFlowMessage (data : Bytes) (now : Nat) : Bool × Station :=
  if st.stage ≠ 3 ∨ 1172 < data.length ∨ ¬ st.session.canSend then (true, st) else submit A st data now

/-- The loop of `_read_flow`, for at most `n` messages. -/
def readFlowLoop (now : Nat) : Nat → Station → Bool × Station
  | 0, st => (true, st)
  | n + 1, st =>
    if ¬ st.session.canSend then (true, st)
    else
      let input := H.recv st.recvs
      let result := s6AppFlowRecv 1173 input
      let st := { st with recvs := st.recvs + 1 }
      if result = -1 then (true, st)
      else if result = -2 then (true, { st with flowEof := true })
      else if result = -3 then readFlowLoop now n st
      else if result < 0 then (true, st.close)
      else
        match input with
        | .received data _ =>
          match sendFlowMessage A st data now with
          | (true, st) => readFlowLoop now n st
          | (false, st) => (false, st)
        | _ => (true, st)

/-- `_read_flow()`. -/
def readFlow (now : Nat) : Bool × Station :=
  if st.flowFd < 0 ∨ st.flowEof ∨ st.stage ≠ 3 then (true, st) else readFlowLoop H A now 16 st

/-! ### Receiving -/

/-- The loop over the records that `deliver()` of the session returns. -/
def deliverAll : List Bytes → Station → Station
  | [], st => st
  | payload :: rest, st =>
    match deliver H st payload with
    | (true, st) => deliverAll rest st
    | (false, st) => st

/-- The end of `_encrypted`: acknowledge the packet and deliver what is now in order. -/
def acknowledgePacket (token : OCapToken) (sequence now : Nat) : Station :=
  let st := { st with lastActivity := now }
  match token.sealPacket A frameEmpty sequence kindAck with
  | none => st
  | some ack =>
    let st := st.sendWire ack
    if st.session.hasBuffered then deliverAll H st.session.deliver.1 { st with session := st.session.deliver.2 }
    else st

/-- The part of `_encrypted` for a packet with data. -/
def receiveData (token : OCapToken) (sequence : Nat) (payload : Bytes) (now : Nat) : Station :=
  match st.session.receiveInOrder sequence with
  | (true, session) =>
    match deliver H { st with session := session } payload with
    | (true, st) => acknowledgePacket H A st token sequence now
    | (false, st) => st
  | (false, _) =>
    match st.session.acceptReceive sequence payload with
    | (true, session) => acknowledgePacket H A { st with session := session } token sequence now
    | (false, _) => st

/-- The part of `_encrypted` for an opened packet. -/
def openedPacket (token : OCapToken) (packet : Bytes) (now : Nat) : Station :=
  let sequence := OCapToken.sequenceOf packet
  let kind := OCapToken.kindOf packet
  if ¬ st.client ∧ sequence = 1 ∧ kind = kindConfirm ∧ packet.length = 12 then
    match token.sealPacket A frameEmpty 1 kindConfirmed with
    | none => st
    | some retry =>
      let st := { st with retry := retry }.sendWire retry
      let st := if st.stage = 2 then { st with stage := 3, session := st.session.connected } else st
      { st with lastActivity := now }
  else if st.client ∧ st.stage = 2 ∧ sequence = 1 ∧ kind = kindConfirmed ∧ packet.length = 12 then
    { st with stage := 3, session := st.session.connected, lastActivity := now }
  else if st.stage ≠ 3 then st
  else if kind = kindAck then
    if packet.length = 12 then
      match st.session.acknowledge sequence now with
      | (true, session) => { st with session := session, lastActivity := now }
      | (false, session) => { st with session := session }
    else st
  else if kind ≠ kindData then st
  else receiveData H A st token sequence (packet.drop 12) now

/-- `_encrypted(data)`. -/
def encrypted (data : Bytes) (now : Nat) : Station :=
  if st.client ∧ st.stage = 1 then
    if data.length ≠ 172 then st
    else
      match H.finish data with
      | none => st
      | some token =>
        match token.sealPacket A frameEmpty 1 kindConfirm with
        | none => { st with token := some token }
        | some retry => { st with token := some token, retry := retry, stage := 2 }.sendWire retry
  else if ¬ st.client ∧ data.length = 140 then
    -- a repeated hello
    if data = st.hello then st.sendWire st.retry else st
  else
    match st.token with
    | none => st
    | some token =>
      match token.openPacket A data with
      | none => st
      | some packet => openedPacket H A st token packet now

/-! ### The behaviours -/

/-- `_receive(data, from, application)`. -/
def receive (data : Bytes) (sender : NetAddress) (application : Bool) (now : Nat) : Station :=
  if st.closed then st
  else if application then plaintext A st data sender now
  else if sender = st.peer then encrypted H A st data now
  else st

/-- `received_batch(batch, application, source)`; `received` is a batch of one. -/
def receivedBatch (batch : List (Bytes × NetAddress)) (application : Bool) (now : Nat) : Station :=
  flushOutput H (batch.foldl (fun st d => receive H A st d.1 d.2 application now) st)

/-- `bound(application)`. -/
def bound (now : Nat) : Station :=
  if st.closed then st else { st with wires := st.wires ++ [st.retry], handshakeSent := now }

/-- `tick(now)`, with the order in which the pending packets are visited. -/
def tick (now : Nat) (order : List Nat) : Station :=
  if st.closed ∨ now < st.started then st
  else if st.stage < 3 then
    if 5000000000 < now - st.started then st.close
    else if st.handshakeSent ≤ now ∧ 250000000 ≤ now - st.handshakeSent then
      { st with wires := st.wires ++ [st.retry], handshakeSent := now }
    else st
  else if st.lastActivity ≤ now ∧ 60000000000 < now - st.lastActivity then st.close
  else
    match st.session.retransmit now order with
    | (none, session) => { st with session := session }.close
    | (some due, session) =>
      let st := flushOutput H (due.foldl sendWire { st with session := session })
      match readFlow H A st now with
      | (false, st) => st.close
      | (true, st) =>
        if st.flowEof ∧ st.session.pendingCount = 0 ∧ st.appOutput = [] then
          { st with flowDrained := true, flowFd := -1 }.close
        else st

end Station

end Shadow6.CorePony
