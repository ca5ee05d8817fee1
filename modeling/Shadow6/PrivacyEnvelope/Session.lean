import Shadow6.Library.Machine
import Shadow6.Library.SecretStream
import Shadow6.PrivacyEnvelope.MessageSecurity

/-!
# `PrivacyEnvelope.Session` — the stream bridge

Model of `session.ml`: one loop copies the bytes of a local socket into encrypted records on a carrier and the records
of the carrier to the local socket, with room for one record in each direction. A `Turn` is one round of the loop with
what the operating system answers in it: which requested descriptors are ready, how many bytes each read or write
takes, and the time. A record that could not be sent or written as a whole is kept; cover records are put in between.

For reference a bridge also keeps the bytes it has read from and written to its local socket, the bytes it has given
to the carrier, how many it has taken from it, and the records it has framed.
-/

namespace Shadow6.PrivacyEnvelope.Session

open Library Library.Json

/-- The tags of `sodium.ml` that the bridge uses. -/
inductive Tag where
  | message
  | rekey
  | final
  deriving DecidableEq

/-- What both bridges have in common. -/
structure Shape where
  maxFrame : Nat
  paddingBlock : Nat
  frame_bounds : 256 ≤ maxFrame ∧ maxFrame ≤ 65507
  padding_bound : paddingBlock ≤ 4096

/-- What each bridge has for itself; times in seconds. -/
structure Policy where
  coverInterval : Nat
  coverLimit : Nat
  shapingBudget : Nat
  idleTimeout : Nat
  sessionTimeout : Nat
  cover_bound : coverLimit ≤ 64

/-- The places where the loop raises. -/
inductive Raised where
  /-- `Timeout` -/
  | timeout
  /-- `Resource_limit`: a million records were framed -/
  | txRecords
  /-- `Resource_limit`: the shaping budget is used up -/
  | shaping
  /-- `Invalid_argument "inactive sending state"` -/
  | sendInactive
  /-- `Exit`: the carrier is at its end -/
  | carrierEnd
  /-- `Resource_limit`: the length in front of a record -/
  | length
  /-- `Invalid_argument "inactive receiving state"` -/
  | receiveInactive
  /-- `Failure`: a record does not authenticate -/
  | cipher
  /-- `Resource_limit`: a million records were received -/
  | rxRecords
  /-- `Exit`: a final record with a payload -/
  | finalPayload
  /-- `Exit`: a record without room for its header -/
  | short
  /-- `Resource_limit`: the size in a record -/
  | size
  /-- `Resource_limit`: more than 64 cover records -/
  | rxCovers
  /-- `Exit`: an unknown frame type -/
  | frameType
  /-- `Exit`: a write of nothing -/
  | writeNothing
  deriving DecidableEq

/-- The checks on a record that was received. -/
def Raised.ofRecord : Raised → Bool
  | .length | .receiveInactive | .cipher | .rxRecords | .finalPayload | .short | .size | .rxCovers | .frameType => true
  | _ => false

/-- The arguments of `frame`. -/
structure Frame where
  cover : Bool
  payload : Bytes
  tag : Tag

structure Bridge (C : SecretStream Tag) where
  deadline : Int
  last : Int
  inbound : Bool
  outbound : Bool
  plain : Bytes
  wire : Bytes
  /-- The `header_used` bytes of the header. -/
  header : Bytes
  /-- The length of the buffer for the body. -/
  length : Nat
  /-- The `body_used` bytes of the body. -/
  body : Bytes
  txRecords : Nat
  rxRecords : Nat
  rxCovers : Nat
  shapingRemaining : Nat
  covers : Nat
  lastCover : Int
  localShutdown : Bool
  remoteShutdown : Bool
  sending : C.Push
  sendActive : Bool
  receiving : C.Pull
  receiveActive : Bool
  raised : Option Raised
  input : Bytes
  output : Bytes
  sent : Bytes
  taken : Nat
  frames : List Frame

/-- One round of the loop: its time and what is ready. `none` is a descriptor that is not ready and `some none` one
    whose call would block; a read of the local socket gives at most a frame of bytes, and none at its end. -/
structure Turn where
  now : Int
  localRead : Option (Option Bytes)
  carrierRead : Option (Option Nat)
  localWrite : Option (Option Nat)
  carrierWrite : Option (Option Nat)

def ad : Bytes := utf8 "S6EPE/3 stream record".toList

/-- Microseconds. -/
def ofSeconds (n : Nat) : Int := n * 1000000

/-! ## `frame` -/

variable {C : SecretStream Tag} (shape : Shape) (policy : Policy)

/-- The length of a padded record. -/
def Shape.padded (size : Nat) : Nat :=
  if shape.paddingBlock = 0 then size
  else (size + shape.paddingBlock - 1) / shape.paddingBlock * shape.paddingBlock

/-- The plain text of a record. -/
def Frame.body (f : Frame) : Bytes :=
  if f.tag = .final then []
  else
    (if f.cover then 1 else 0) :: (toBE 4 f.payload.length ++ f.payload ++
      List.replicate (shape.padded (f.payload.length + 5) - (f.payload.length + 5)) 0)

/-- What a record costs of the shaping budget. -/
def Frame.overhead (f : Frame) : Nat :=
  if f.tag = .final then 0
  else
    shape.padded (f.payload.length + 5) - (f.payload.length + 5) +
      if f.cover then shape.padded (f.payload.length + 5) + 17 + 4 else 0

namespace Bridge

variable (b : Bridge C)

/-- The next record goes to `wire`. -/
def frame (f : Frame) : Bridge C :=
  let b := { b with txRecords := b.txRecords + 1 }
  if b.txRecords > 1000000 then { b with raised := some .txRecords }
  else if f.overhead shape > b.shapingRemaining then { b with raised := some .shaping }
  else
    let b := { b with shapingRemaining := b.shapingRemaining - f.overhead shape }
    if ¬ b.sendActive then { b with raised := some .sendInactive }
    else
      { b with
        wire := framed (C.push b.sending ad (f.body shape) f.tag).1
        sending := (C.push b.sending ad (f.body shape) f.tag).2
        sendActive := decide (f.tag ≠ .final)
        frames := b.frames ++ [f] }

/-! ## The loop -/

/-- The part before the poll: sockets whose direction is done with are shut down. -/
def shutdowns : Bridge C :=
  let b := if ¬ b.inbound ∧ b.plain = [] ∧ ¬ b.localShutdown then { b with localShutdown := true } else b
  if ¬ b.outbound ∧ b.wire = [] ∧ ¬ b.remoteShutdown then { b with remoteShutdown := true } else b

/-- A chunk of the local socket, or its end. -/
def readLocal (now : Int) (chunk : Bytes) : Bridge C :=
  let chunk := chunk.take shape.maxFrame
  let b :=
    if chunk = [] then { b with outbound := false }.frame shape ⟨false, [], .final⟩
    else { b with input := b.input ++ chunk }.frame shape
      ⟨false, chunk, if (b.txRecords + 1) % 4096 = 0 then .rekey else .message⟩
  { b with last := now }

/-- The header is complete. -/
def checkLength : Bridge C :=
  if b.header.length = 4 ∧ b.length = 0 then
    let length := getInt32 b.header 0
    if length < 17 ∨ length > shape.maxFrame + 5 + max 4096 shape.paddingBlock + 17 then
      { b with raised := some .length }
    else { b with length := length.toNat }
  else b

/-- A record that has been pulled. -/
def deliver (payload : Bytes) (tag : Tag) : Bridge C :=
  let b := { b with rxRecords := b.rxRecords + 1 }
  if b.rxRecords > 1000000 then { b with raised := some .rxRecords }
  else if tag = .final then
    if payload ≠ [] then { b with raised := some .finalPayload } else { b with inbound := false }
  else if payload.length < 5 then { b with raised := some .short }
  else
    let size := getInt32 payload 1
    if size < 0 ∨ size > shape.maxFrame ∨ size > payload.length - 5 then { b with raised := some .size }
    else if getUint8 payload 0 = 0 then { b with plain := sub payload 5 size.toNat }
    else if getUint8 payload 0 = 1 ∧ size = 0 then
      let b := { b with rxCovers := b.rxCovers + 1 }
      if b.rxCovers > 64 then { b with raised := some .rxCovers } else b
    else { b with raised := some .frameType }

/-- The body is complete. -/
def pullRecord : Bridge C :=
  if b.length > 0 ∧ b.body.length = b.length then
    if ¬ b.receiveActive then { b with raised := some .receiveInactive }
    else
      match C.pull b.receiving ad b.body with
      | none => { b with raised := some .cipher }
      | some ((payload, tag), receiving) =>
        let b := { b with receiving := receiving, receiveActive := decide (tag ≠ Tag.final) }.deliver shape payload tag
        if b.raised.isSome then b else { b with header := [], body := [], length := 0 }
  else b

/-- How many bytes the buffer that is read into has left. -/
def room : Nat := if b.header.length < 4 then 4 - b.header.length else b.length - b.body.length

/-- Bytes of the carrier. -/
def readCarrier (now : Int) (bytes : Bytes) : Bridge C :=
  let b := { b with taken := b.taken + bytes.length, last := now }
  let b := if b.header.length < 4 then { b with header := b.header ++ bytes } else { b with body := b.body ++ bytes }
  let b := b.checkLength shape
  if b.raised.isSome then b else b.pullRecord shape

/-- A read of the carrier, on which `available` is under way and which the peer has closed or not. -/
def pollCarrier (now : Int) (available : Bytes) (closed : Bool) (count : Nat) : Bridge C :=
  let bytes := available.take (min count b.room)
  if bytes ≠ [] then b.readCarrier shape now bytes
  else if available = [] ∧ closed then { b with raised := some .carrierEnd }
  else b

/-- A write of `plain` to the local socket. -/
def writeLocal (now : Int) (count : Nat) : Bridge C :=
  if min count b.plain.length = 0 then { b with raised := some .writeNothing }
  else { b with output := b.output ++ b.plain.take count, plain := b.plain.drop count, last := now }

/-- A write of `wire` to the carrier. -/
def writeCarrier (now : Int) (count : Nat) : Bridge C :=
  if min count b.wire.length = 0 then { b with raised := some .writeNothing }
  else { b with sent := b.sent ++ b.wire.take count, wire := b.wire.drop count, last := now }

/-- A cover record, when it is time for one. -/
def cover (now : Int) : Bridge C :=
  if b.outbound ∧ b.wire = [] ∧ policy.coverInterval > 0 ∧ b.covers < policy.coverLimit ∧
      now - b.lastCover ≥ ofSeconds policy.coverInterval then
    let b := b.frame shape ⟨true, [], .message⟩
    if b.raised.isSome then b else { b with covers := b.covers + 1, lastCover := now }
  else b

/-- Go on unless an exception was raised. -/
def andThen (f : Bridge C → Bridge C) : Bridge C := if b.raised.isSome then b else f b

variable (t : Turn) (polled : Bridge C)

/-! The four calls of a round; what is polled for is decided before the first of them. -/

def localRead : Bridge C :=
  match t.localRead with
  | some (some chunk) => if polled.outbound ∧ polled.wire = [] then b.readLocal shape t.now chunk else b
  | _ => b

def carrierRead (available : Bytes) (closed : Bool) : Bridge C :=
  match t.carrierRead with
  | some (some count) =>
    if polled.inbound ∧ polled.plain = [] then b.pollCarrier shape t.now available closed count else b
  | _ => b

def localWrite : Bridge C :=
  match t.localWrite with
  | some (some count) => if polled.plain ≠ [] then b.writeLocal t.now count else b
  | _ => b

def carrierWrite : Bridge C :=
  match t.carrierWrite with
  | some (some count) => if polled.wire ≠ [] then b.writeCarrier t.now count else b
  | _ => b

/-- The part after the poll. -/
def work (available : Bytes) (closed : Bool) : Bridge C :=
  ((((b.localRead shape t b).andThen fun c => c.carrierRead shape t b available closed).andThen
    fun c => c.localWrite t b).andThen fun c => c.carrierWrite t b).andThen fun c => c.cover shape policy t.now

/-- One call of `loop`. -/
def turn (available : Bytes) (closed : Bool) : Bridge C :=
  b.andThen fun b =>
    let b := b.shutdowns
    if b.inbound ∨ b.outbound ∨ b.plain ≠ [] ∨ b.wire ≠ [] then
      if t.now ≥ b.deadline ∨ t.now - b.last ≥ ofSeconds policy.idleTimeout then { b with raised := some .timeout }
      else b.work shape policy t available closed
    else b

/-- A new bridge. -/
def create (sending : C.Push) (receiving : C.Pull) (now : Int) : Bridge C where
  deadline := now + ofSeconds policy.sessionTimeout
  last := now
  inbound := true
  outbound := true
  plain := []
  wire := []
  header := []
  length := 0
  body := []
  txRecords := 0
  rxRecords := 0
  rxCovers := 0
  shapingRemaining := policy.shapingBudget
  covers := 0
  lastCover := now
  localShutdown := false
  remoteShutdown := false
  sending := sending
  sendActive := true
  receiving := receiving
  receiveActive := true
  raised := none
  input := []
  output := []
  sent := []
  taken := 0
  frames := []

end Bridge

/-! ## Two bridges -/

inductive Side where
  | server
  | client
  deriving DecidableEq

def Side.other : Side → Side
  | .server => .client
  | .client => .server

@[simp] theorem Side.other_other (e : Side) : e.other.other = e := by
  cases e <;> rfl

theorem Side.other_ne (e : Side) : e.other ≠ e := by
  cases e <;> decide

/-- Two bridges of one shape on a byte carrier, each with the state that belongs to the other one's. -/
structure Pair where
  stream : SecretStream Tag
  shape : Shape
  policy : Side → Policy
  sending : Side → stream.Push
  receiving : Side → stream.Pull
  started : Side → Int
  paired : ∀ e, stream.Paired (sending e) (receiving e.other)

namespace Pair

variable (P : Pair)

def init (e : Side) : Bridge P.stream := .create (P.policy e) (P.sending e) (P.receiving e) (P.started e)

/-- A round of one bridge; the carrier holds what the other one has sent and this one has not taken. -/
def step (x : Side → Bridge P.stream) (v : Side × Turn) : Side → Bridge P.stream :=
  Function.update x v.1 ((x v.1).turn P.shape (P.policy v.1) v.2 ((x v.1.other).sent.drop (x v.1).taken)
    (x v.1.other).remoteShutdown)

/-- The two bridges after a run. -/
def after (run : List (Side × Turn)) : Side → Bridge P.stream := run.foldl P.step P.init

end Pair

end Shadow6.PrivacyEnvelope.Session
