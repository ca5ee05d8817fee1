import Shadow6.Library.Dict
import Shadow6.Library.Json
import Shadow6.Library.Window

/-!
# `PrivacyEnvelope.MessageSecurity` — the message layer of S6EPE

Model of `message_security.ml` and of the parts of `carrier.ml` it uses. A context holds one state per
admitted channel: a sending and a receiving key ratchet, the number of records sealed, and the window of
received sequence numbers. `seal` encrypts a frame under the next number of its channel, `open_record`
checks the number against the window, decrypts, parses, and only then moves ratchet and window.

An exception leaves the context as it was at that point, so every operation returns its answer together
with the context. The cipher and the key derivation are parameters; a nonce is an argument of `seal`.
-/

namespace Shadow6.PrivacyEnvelope

open Library Library.Json

/-! ## `carrier.ml` -/

/-- The exceptions that can leave the module. -/
inductive Exn where
  | replay
  | resourceLimit
  | invalidArg (text : String)
  | failure (text : String)
  | notFound
deriving DecidableEq, Repr

/-- `if c then raise e`. -/
def raiseIf (c : Prop) [Decidable c] (e : Exn) : Except Exn Unit := if c then .error e else .ok ()

inductive Reliability where
  | reliable
  | retransmits (n : Int)
  | lifetimeMs (n : Int)
deriving DecidableEq, Repr

structure Channel where
  id : Int
  ordered : Bool
  reliability : Reliability
deriving DecidableEq, Repr

structure Message where
  channel : Channel
  ppid : Int
  context : Int
  payload : Bytes
deriving DecidableEq, Repr

structure StreamReset where
  ids : List Int
  incoming : Bool
  outgoing : Bool
  denied : Bool
  failed : Bool
deriving DecidableEq, Repr

def validateChannel (channel : Channel) : Except Exn Unit := do
  raiseIf (channel.id < 0 ∨ channel.id > 65535) (.invalidArg "carrier channel ID")
  match channel.reliability with
  | .reliable => .ok ()
  | .retransmits n => raiseIf (¬ (0 ≤ n ∧ n ≤ 65535)) (.invalidArg "carrier reliability budget")
  | .lifetimeMs n => raiseIf (¬ (1 ≤ n ∧ n ≤ 60000)) (.invalidArg "carrier reliability budget")

def validateMessage (maxMessage : Int) (message : Message) : Except Exn Unit := do
  raiseIf (maxMessage < 1 ∨ maxMessage > 131072 ∨ message.payload.length > maxMessage)
    (.invalidArg "carrier message budget")
  raiseIf (message.ppid < 0 ∨ message.ppid > 4294967295) (.invalidArg "carrier PPID")
  raiseIf (message.context < 0 ∨ message.context > 4294967295) (.invalidArg "carrier send context")
  validateChannel message.channel

/-! ## Primitives and byte access -/

/-- HKDF and the libsodium AEAD. `openCapsule` fails on a ciphertext that is too short or not authentic. -/
structure Crypto where
  derive : (salt material info : Bytes) → Bytes
  sealed : (key nonce ad plain : Bytes) → Bytes
  openCapsule : (key nonce ad cipher : Bytes) → Except Exn Bytes

/-- `next_key`. -/
def Crypto.nextKey (C : Crypto) (key : Bytes) : Bytes :=
  C.derive key [] (utf8 "S6EPE/3 message ratchet")

/-- `Bytes.sub`. -/
def sub (b : Bytes) (offset length : Nat) : Bytes := (b.drop offset).take length

/-- The signed value of `bits` bits. -/
def signed (bits n : Nat) : Int := if n < 2 ^ (bits - 1) then n else n - 2 ^ bits

def getUint8 (b : Bytes) (offset : Nat) : Nat := ofBE (sub b offset 1)

def getUint16 (b : Bytes) (offset : Nat) : Int := ofBE (sub b offset 2)

def getInt32 (b : Bytes) (offset : Nat) : Int := signed 32 (ofBE (sub b offset 4))

def getInt64 (b : Bytes) (offset : Nat) : Int := signed 64 (ofBE (sub b offset 8))

/-- The low `width` bytes of an integer. -/
def putInt (width : Nat) (n : Int) : Bytes := toBE width (n % 256 ^ width).toNat

/-- `get_count`. -/
def getCount (b : Bytes) (offset : Nat) : Except Exn Int := do
  let n := getInt32 b offset
  raiseIf (n < 0 ∨ n > 1000000) .resourceLimit
  return n

/-- `zero_tail`. -/
def zeroTail (b : Bytes) (offset : Nat) : Except Exn Unit :=
  raiseIf (∃ x ∈ b.drop offset, x ≠ 0) (.invalidArg "noncanonical message padding")

/-- `List.assoc`. -/
def assoc {α : Type} (k : Int) (l : List (Int × α)) : Except Exn α :=
  match l.lookup k with
  | some v => .ok v
  | none => .error .notFound

/-- `List.sort_uniq compare`. -/
def sortUniq (l : List Int) : List Int := l.dedup.insertionSort (· ≤ ·)

/-! ## Contexts -/

inductive Frame where
  | data (message : Message)
  | reset (r : StreamReset)
  | channelClose (id : Int)
  | final
  | cover
  | discard (id sequence : Int)
  | resetConfirmed (r : StreamReset) (targets : List (Int × Int))
  | channelCloseConfirmed (id count : Int)
deriving DecidableEq, Repr

structure Ratchet where
  epoch : Int
  key : Bytes
  previous : Option (Int × Bytes)
deriving DecidableEq

/-- `channel_state`; `highest`, `frontier` and `seen` are the received window. -/
structure ChannelState extends Window where
  policy : Reliability
  tx : Ratchet
  rx : Ratchet
  sent : Int
  txClosed : Bool
  rxLimit : Option Int
deriving DecidableEq

/-- The type `t` of the module. -/
structure MessageSecurity where
  channels : Dict Int ChannelState
  maximum : Int
  keyEpoch : Int
  wirePpid : Int
  padding : Int
  budget : Int
  txFinal : Bool
  rxTargets : Option (List (Int × Int))
  closed : Bool
  overhead : Int

/-- How far behind the highest number a record may arrive. -/
def window : Int := 4096

/-- The sending ratchet moves one key on when a new epoch starts. -/
def ChannelState.stepTx (C : Crypto) (s : ChannelState) : ChannelState :=
  if s.sent / 4096 > s.tx.epoch then
    { s with tx := { s.tx with key := C.nextKey s.tx.key, epoch := s.sent / 4096 } }
  else s

namespace MessageSecurity

variable (t : MessageSecurity)

/-- `check`. -/
def check : Except Exn Unit :=
  raiseIf (t.closed = true) (.invalidArg "closed message security context")

/-- `state`. -/
def state (id : Int) : Except Exn ChannelState :=
  match t.channels.find? id with
  | some s => .ok s
  | none => .error (.invalidArg "unadmitted message channel")

/-- Write the state of a channel. -/
def setState (id : Int) (s : ChannelState) : MessageSecurity :=
  { t with channels := t.channels.set id s }

/-- `ids`. -/
def ids : List Int := (t.channels.entries.map Prod.fst).insertionSort (· ≤ ·)

variable (C : Crypto)

/-- The state of a new channel, with its own keys. -/
def newChannel (receiveKey sendKey : Bytes) (c : Channel) : ChannelState :=
  let derive key := C.derive key (utf8 (hex4 c.id.toNat)) (utf8 "S6EPE/3 message channel")
  { Window.fresh with
    policy := c.reliability, tx := ⟨0, derive sendKey, none⟩, rx := ⟨0, derive receiveKey, none⟩
    sent := 0, txClosed := false, rxLimit := none }

/-- Admit one channel after another. -/
def admitChannels (C : Crypto) (receiveKey sendKey : Bytes) :
    List Channel → Dict Int ChannelState → Except Exn (Dict Int ChannelState)
  | [], table => .ok table
  | c :: cs, table => do
    validateChannel c
    raiseIf (c.id ∈ table) (.invalidArg "duplicate message channel")
    admitChannels C receiveKey sendKey cs (table.set c.id (newChannel C receiveKey sendKey c))

/-- `create`. -/
def create (receiveKey sendKey : Bytes) (channels : List Channel)
    (maxFrame keyEpoch wirePpid paddingBlock shapingBudget : Int) : Except Exn MessageSecurity := do
  raiseIf (receiveKey.length ≠ 32 ∨ sendKey.length ≠ 32 ∨ channels = [] ∨ channels.length > 64 ∨
      maxFrame < 256 ∨ maxFrame > 65507 ∨ keyEpoch < 1 ∨ keyEpoch > 2147483647 ∨ shapingBudget < 64 ∨
      shapingBudget > 16777216 ∨ wirePpid ∉ [0, 53] ∨
      paddingBlock ∉ [0, 64, 128, 256, 512, 1024, 2048, 4096])
    (.invalidArg "message security admission")
  let table ← admitChannels C receiveKey sendKey channels .empty
  -- channel 0 carries the controls of the envelope
  raiseIf ((table.find? 0).map (·.policy) ≠ some .reliable)
    (.invalidArg "reliable message control channel required")
  return { channels := table, maximum := maxFrame, keyEpoch := keyEpoch, wirePpid := wirePpid
           padding := paddingBlock, budget := shapingBudget, txFinal := false, rxTargets := none
           closed := false, overhead := 0 }

/-! ## `seal` -/

/-- `reliability`. -/
def reliability : Reliability → Int × Int
  | .reliable => (0, 0)
  | .retransmits n => (1, n)
  | .lifetimeMs n => (2, n)

/-- `associated`: the channel as it is authenticated. -/
def associated (channel : Channel) : Bytes :=
  putInt 2 channel.id ++ [if channel.ordered then 1 else 0] ++ putInt 1 (reliability channel.reliability).1 ++
    putInt 4 (reliability channel.reliability).2

def control : Channel := ⟨0, true, .reliable⟩

/-- How many records of a channel precede the end of the control record about to be sealed. -/
def sealedCount (id : Int) (s : ChannelState) : Int := s.sent + if id = 0 then 1 else 0

/-- The channels of a list with their counts. -/
def putTargets (list : List Int) : Except Exn Bytes := do
  let parts ← list.mapM fun id => do
    let s ← t.state id
    return putInt 2 id ++ putInt 4 (sealedCount id s)
  return parts.flatten

/-- The channel a frame is sealed for and its plain text. -/
def body : Frame → Except Exn (Channel × Bytes)
  | .data message => do
    validateMessage t.maximum message
    let s ← t.state message.channel.id
    raiseIf (s.txClosed = true ∨ message.channel.reliability ≠ s.policy) (.invalidArg "message channel policy")
    return (message.channel, 0 :: (putInt 4 message.ppid ++ putInt 4 message.payload.length ++ message.payload))
  | .channelClose id => do
    let s ← t.state id
    raiseIf (s.txClosed = true) (.invalidArg "closed message channel")
    return (control, 1 :: (putInt 2 id ++ putInt 4 (sealedCount id s)))
  | .reset r => do
    raiseIf (r.denied = true ∨ r.failed = true ∨ ¬ (r.incoming = true ∨ r.outgoing = true))
      (.invalidArg "failed/empty message reset")
    let list := if r.ids = [] then t.ids else sortUniq r.ids
    raiseIf (list.length ≠ r.ids.length ∧ r.ids ≠ []) (.invalidArg "duplicate reset channel")
    let targets ← t.putTargets list
    let flags : Int := (if r.incoming then 1 else 0) + (if r.outgoing then 2 else 0)
    return (control, 2 :: (putInt 1 flags ++ putInt 1 list.length ++ targets))
  | .final => do
    let targets ← t.putTargets t.ids
    return (control, 3 :: (putInt 1 t.ids.length ++ targets))
  | .cover => return (control, [4])
  | .discard id sequence => do
    let s ← t.state id
    raiseIf (s.policy = .reliable ∨ sequence < 0 ∨ sequence ≥ s.sent) (.invalidArg "message abandonment evidence")
    return (control, 5 :: (putInt 2 id ++ putInt 4 sequence))
  | .resetConfirmed _ _ => .error (.invalidArg "received-only message event")
  | .channelCloseConfirmed _ _ => .error (.invalidArg "received-only message event")

/-- The checks of `seal` and the channel, the plain text and the state it goes on with. -/
def prepare (frame : Frame) : Except Exn (Channel × Bytes × ChannelState) := do
  t.check
  raiseIf (t.txFinal = true) (.invalidArg "message after authenticated final")
  let (channel, body) ← t.body frame
  let s ← t.state channel.id
  raiseIf (s.sent ≥ 1000000) .resourceLimit
  return (channel, body, s)

/-- The header of a record. -/
def header (sequence : Int) (random : Bytes) : Bytes :=
  utf8 "S6EP3M00" ++ putInt 4 t.keyEpoch ++ putInt 8 sequence ++ random.take 24

/-- The authenticated data of a record. -/
def authenticated (channel : Channel) (header : Bytes) : Bytes :=
  utf8 "S6EPE/3 message record" ++ associated channel ++ header

/-- The length of a padded plain text. -/
def paddedLength (n : Int) : Int :=
  if t.padding = 0 then n else (n + t.padding - 1) / t.padding * t.padding

/-- The bytes a record costs beyond its plain text; a cover record costs all of them. -/
def overheadOf (frame : Frame) (n : Int) : Int :=
  t.paddedLength n - n + if frame = .cover then t.paddedLength n + 60 else 0

/-- What sealing the frame changes besides its channel's counters. -/
def sealedFrame : Frame → MessageSecurity
  | .final => { t with txFinal := true }
  | .channelClose id =>
    match t.channels.find? id with
    | some s => t.setState id { s with txClosed := true }
    | none => t
  | _ => t

/-- `seal`, given the random bytes it draws. -/
def sealRecord (t : MessageSecurity) (frame : Frame) (random : Bytes) : Except Exn Message × MessageSecurity :=
  match t.prepare frame with
  | .error e => (.error e, t)
  | .ok (channel, body, s) =>
    let s := s.stepTx C
    let overhead := t.overheadOf frame body.length
    -- the ratchet has moved by the time the budget is checked
    if overhead > t.budget then (.error .resourceLimit, t.setState channel.id s)
    else
      let header := t.header s.sent random
      let plain := body ++ List.replicate (t.paddedLength body.length - body.length).toNat 0
      let cipher := C.sealed s.tx.key (sub header 20 24) (authenticated channel header) plain
      let t' := t.setState channel.id { s with sent := s.sent + 1 }
      (.ok ⟨channel, t.wirePpid, s.sent, header ++ cipher⟩,
        { t' with budget := t.budget - overhead, overhead := t.overhead + overhead }.sealedFrame frame)

/-! ## `parse` -/

def requireControl (channel : Channel) : Except Exn Unit :=
  raiseIf (channel.id ≠ 0 ∨ channel.ordered = false ∨ channel.reliability ≠ .reliable)
    (.invalidArg "message control policy")

def parseData (channel : Channel) (plain : Bytes) : Except Exn Frame := do
  raiseIf (plain.length < 9) (.invalidArg "short message data")
  let n ← getCount plain 5
  raiseIf (n > t.maximum ∨ n > plain.length - 9) .resourceLimit
  zeroTail plain (9 + n.toNat)
  return .data ⟨channel, ofBE (sub plain 1 4), 0, sub plain 9 n.toNat⟩

def parseChannelClose (channel : Channel) (plain : Bytes) : Except Exn Frame := do
  requireControl channel
  raiseIf (plain.length < 7) (.invalidArg "short message close")
  let id := getUint16 plain 1
  let count ← getCount plain 3
  let s ← t.state id
  raiseIf (s.rxLimit ≠ none ∨ count ≤ s.highest) (.invalidArg "message close watermark")
  zeroTail plain 7
  return .channelCloseConfirmed id count

def parseReset (channel : Channel) (plain : Bytes) : Except Exn Frame := do
  requireControl channel
  raiseIf (plain.length < 3) (.invalidArg "short message reset")
  let flags := getUint8 plain 1
  let n := getUint8 plain 2
  raiseIf (flags < 1 ∨ flags > 3 ∨ n < 1 ∨ n > 64 ∨ 3 + 6 * n > plain.length) (.invalidArg "message reset schema")
  let targets ← (List.range n).mapM fun i => do
    let id := getUint16 plain (3 + 6 * i)
    let count ← getCount plain (5 + 6 * i)
    let s ← t.state id
    raiseIf (count ≤ s.highest) (.invalidArg "message reset watermark")
    return (id, count)
  let list := targets.map Prod.fst
  raiseIf (list ≠ sortUniq list) (.invalidArg "message reset ordering")
  zeroTail plain (3 + 6 * n)
  return .resetConfirmed ⟨list, flags % 2 ≠ 0, flags / 2 % 2 ≠ 0, false, false⟩ targets

/-- The only frame whose parsing changes the context: it fixes the final counts. -/
def parseFinal (channel : Channel) (sequence : Int) (plain : Bytes) : Except Exn (List (Int × Int)) := do
  requireControl channel
  raiseIf (plain.length < 2) (.invalidArg "short message final")
  let n := getUint8 plain 1
  raiseIf (n ≠ t.channels.size ∨ 2 + 6 * n > plain.length) (.invalidArg "message final schema")
  let targets ← (List.range n).mapM fun i => do
    let count ← getCount plain (4 + 6 * i)
    return (getUint16 plain (2 + 6 * i), count)
  raiseIf (targets.map Prod.fst ≠ t.ids) (.invalidArg "message final channels")
  targets.forM fun target => do
    let s ← t.state target.1
    raiseIf (target.2 ≤ s.highest) (.invalidArg "message final watermark")
  let own ← assoc 0 targets
  raiseIf (own ≠ sequence + 1) (.invalidArg "message final control watermark")
  zeroTail plain (2 + 6 * n)
  raiseIf (t.rxTargets ≠ none) (.invalidArg "duplicate message final")
  return targets

def parseCover (channel : Channel) (plain : Bytes) : Except Exn Frame := do
  requireControl channel
  zeroTail plain 1
  return .cover

def parseDiscard (channel : Channel) (plain : Bytes) : Except Exn Frame := do
  requireControl channel
  raiseIf (plain.length < 7) (.invalidArg "short message abandonment")
  let id := getUint16 plain 1
  let sequence ← getCount plain 3
  let s ← t.state id
  raiseIf (s.policy = .reliable) (.invalidArg "reliable message abandonment")
  zeroTail plain 7
  return .discard id sequence

/-- `parse`. -/
def parse (channel : Channel) (sequence : Int) (plain : Bytes) : Except Exn (Frame × MessageSecurity) := do
  raiseIf (plain.length < 1) (.invalidArg "empty message schema")
  match getUint8 plain 0 with
  | 0 => return (← t.parseData channel plain, t)
  | 1 => return (← t.parseChannelClose channel plain, t)
  | 2 => return (← t.parseReset channel plain, t)
  | 3 => return (.final, { t with rxTargets := some (← t.parseFinal channel sequence plain) })
  | 4 => return (← parseCover channel plain, t)
  | 5 => return (← t.parseDiscard channel plain, t)
  | _ => .error (.invalidArg "unknown message schema")

/-! ## `open_record` -/

/-- The sequence number in the header of a record. -/
def sequenceOf (message : Message) : Int := getInt64 message.payload 12

/-- After a final, its counts bound the numbers of every channel. -/
def withinFinal (id sequence : Int) : Except Exn Unit :=
  match t.rxTargets with
  | some targets => do
    let count ← assoc id targets
    raiseIf (sequence ≥ count) (.invalidArg "message exceeds authenticated final")
  | none => .ok ()

/-- The checks before decryption. -/
def openChecks (message : Message) : Except Exn ChannelState := do
  t.check
  validateMessage 73728 message
  let s ← t.state message.channel.id
  raiseIf (message.channel.reliability ≠ s.policy ∨ message.ppid ≠ t.wirePpid)
    (.invalidArg "message channel binding")
  let packet := message.payload
  raiseIf (packet.length < 61 ∨ sub packet 0 8 ≠ utf8 "S6EP3M00" ∨
      getInt32 packet 8 ≠ signed 32 (t.keyEpoch % 2 ^ 32).toNat)
    (.invalidArg "message record schema")
  let sequence := sequenceOf message
  raiseIf (sequence < 0 ∨ sequence ≥ 1000000) .resourceLimit
  raiseIf (sequence ≤ s.highest - window ∨ sequence ∈ s.seen ∨ sequence < s.frontier) .replay
  raiseIf (sequence > s.frontier + window) .resourceLimit
  t.withinFinal message.channel.id sequence
  return s

/-- The keys of the epochs after `e`, the last one first, on top of those already derived. -/
def deriveLoop (C : Crypto) : Nat → Int → Bytes → List (Int × Bytes) → Bytes × List (Int × Bytes)
  | 0, _, current, derived => (current, derived)
  | n + 1, e, current, derived =>
    let next := C.nextKey current
    deriveLoop C n (e + 1) next ((e + 1, next) :: derived)

/-- The key of an epoch, and what was derived to reach it. -/
def receiveKey (rx : Ratchet) (epoch : Int) : Except Exn (Bytes × List (Int × Bytes)) :=
  if epoch = rx.epoch then .ok (rx.key, [])
  else
    match rx.previous.filter fun old => old.1 = epoch with
    | some (_, key) => .ok (key, [])
    | none =>
      if epoch < rx.epoch ∨ epoch > rx.epoch + 16 then .error .replay
      else .ok (deriveLoop C (epoch - rx.epoch).toNat rx.epoch rx.key [(rx.epoch, rx.key)])

/-- Decrypt and parse the record; the context is changed by a final only. -/
def decode (t : MessageSecurity) (s : ChannelState) (message : Message) :
    Except Exn (Frame × MessageSecurity × Bytes × List (Int × Bytes)) := do
  let packet := message.payload
  let sequence := sequenceOf message
  let (key, derived) ← receiveKey C s.rx (sequence / 4096)
  let plain ← C.openCapsule key (sub packet 20 24) (authenticated message.channel (sub packet 0 44))
    (packet.drop 44)
  let (frame, t) ← t.parse message.channel sequence plain
  return (frame, t, key, derived)

/-- Native data must stay below the count of its channel's close; controls go on. -/
def afterClose (s : ChannelState) (sequence : Int) : Frame → Bool
  | .data _ => s.rxLimit.any fun count => sequence ≥ count
  | _ => false

/-- The receiving ratchet keeps the key of the epoch and the one before it. -/
def stepRx (s : ChannelState) (epoch : Int) (key : Bytes) (derived : List (Int × Bytes)) : Except Exn ChannelState :=
  if epoch > s.rx.epoch then do
    let previous ← assoc (epoch - 1) derived
    return { s with rx := ⟨epoch, key, some (epoch - 1, previous)⟩ }
  else .ok s

/-- What an accepted frame does to the channel it names. -/
def conclude : Frame → Except Exn Frame × MessageSecurity
  | .channelCloseConfirmed id count =>
    match t.state id with
    | .error e => (.error e, t)
    | .ok s => (.ok (.channelCloseConfirmed id count), t.setState id { s with rxLimit := some count })
  | .discard id sequence =>
    match t.state id with
    | .error e => (.error e, t)
    | .ok lost =>
      if sequence ≥ lost.frontier then
        if sequence > lost.frontier + window then (.error .resourceLimit, t)
        else (.ok (.discard id sequence), t.setState id { lost with toWindow := lost.declare sequence })
      else (.ok (.discard id sequence), t)
  | frame => (.ok frame, t)

/-- `open_record`. -/
def openRecord (t : MessageSecurity) (message : Message) : Except Exn Frame × MessageSecurity :=
  match t.openChecks message with
  | .error e => (.error e, t)
  | .ok s =>
    match t.decode C s message with
    | .error e => (.error e, t)
    | .ok (frame, t, key, derived) =>
      let sequence := sequenceOf message
      if afterClose s sequence frame then (.error (.invalidArg "message after channel close"), t)
      else
        match stepRx s (sequence / 4096) key derived with
        | .error e => (.error e, t)
        | .ok s =>
          (t.setState message.channel.id { s with toWindow := s.accept window sequence }).conclude frame

/-! ## `final_complete`, `confirm_native_close` and `close` -/

/-- `watermarks_ready`: every channel has reached its count. -/
def watermarksReady (targets : List (Int × Int)) : Except Exn Bool := do
  t.check
  targets.allM fun target => do
    let s ← t.state target.1
    return s.frontier ≥ target.2

/-- `final_complete`. -/
def finalComplete : Except Exn Bool := do
  t.check
  match t.rxTargets with
  | none => return false
  | some targets => t.watermarksReady targets

/-- The authenticated number of records of a channel. -/
def watermark (t : MessageSecurity) (id : Int) (s : ChannelState) : Except Exn Int :=
  match s.rxLimit, t.rxTargets with
  | some count, _ => .ok count
  | none, some targets => assoc id targets
  | none, none => .error (.invalidArg "native close lacks authenticated watermark")

/-- The state and the authenticated count a native close is checked against. -/
def closeEvidence (id : Int) : Except Exn (ChannelState × Int) := do
  t.check
  let s ← t.state id
  let count ← t.watermark id s
  return (s, count)

/-- `confirm_native_close`: the answer is the number of records lost. -/
def confirmNativeClose (id : Int) : Except Exn Int × MessageSecurity :=
  match t.closeEvidence id with
  | .error e => (.error e, t)
  | .ok (s, count) =>
    if s.frontier > count then
      -- channel 0 may have carried controls after its data ended
      if id ≠ 0 then (.error (.invalidArg "native close watermark exceeded"), t) else (.ok 0, t)
    else if s.policy = .reliable then
      if s.frontier ≠ count then (.error (.invalidArg "native reliable close has missing records"), t)
      else (.ok 0, t)
    else
      let delivered : Int := (s.seen.filter fun n => s.frontier ≤ n ∧ n < count).card
      (.ok (count - s.frontier - delivered), t.setState id { s with toWindow := s.cutTo count })

/-- `wipe`. -/
def wipe (key : Bytes) : Bytes := key.map fun _ => 0

/-- `close`: the keys are overwritten, the seen numbers forgotten. -/
def close : MessageSecurity :=
  if t.closed then t
  else { t with
    closed := true
    channels := t.channels.mapValues fun s =>
      { s with
        tx := { s.tx with key := wipe s.tx.key }
        rx := { s.rx with key := wipe s.rx.key, previous := s.rx.previous.map fun p => (p.1, wipe p.2) }
        seen := ∅ } }

end MessageSecurity

end Shadow6.PrivacyEnvelope
