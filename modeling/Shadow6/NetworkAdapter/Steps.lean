import Shadow6.NetworkAdapter.Adapter

/-!
# `NetworkAdapter.Steps` — what an operation of the adapter can do

Every operation of `ReliableAdapter` is a sequence of small state changes: queue a message, put one chunk
on the wire, release an acknowledged chunk, store a part, complete a message, and so on. `Step` lists
them once, each with the guards the code has established when it makes the change. Every invariant of the
adapter is then a property of `Step`, proved by one case analysis, and never looks into an operation.

A step carries a `Note` of what an observer outside the adapter learns from it.
-/

namespace Shadow6.NetworkAdapter

open Library

variable {τ : Type}

/-- What a step shows to the outside. -/
inductive Note where
  /-- `send` took `data` as this message of the stream -/
  | accepted (stream message : Nat) (data : Bytes)
  /-- a chunk or an extension was sealed for the carrier -/
  | emitted (f : Frame)
  /-- the peer acknowledged this chunk -/
  | released (key : ChunkKey)
  /-- a received frame was acknowledged; it may have completed a message (`some`) or an event (`none`) -/
  | confirmed (f : Frame) (done : Option (Option Bytes))
  /-- reassembly states were given up -/
  | expired (ids : List Identity)
  /-- nothing visible -/
  | quiet

namespace ReliableAdapter

variable (S : Setup τ)

/-- The reassembly state a `DATA` frame meets: the stored one, or a fresh one. -/
def reassemblyFor (now : τ) (f : Frame) (a : ReliableAdapter τ) : Reassembly τ :=
  (a.incoming.find? (f.stream, f.message)).getD
    ⟨f.count, .empty, 0, S.timing.reassemblyDeadline now S.limits.reassemblySeconds⟩

/-- The state with the part of `f` stored. -/
def absorbed (now : τ) (f : Frame) (a : ReliableAdapter τ) : ReliableAdapter τ :=
  { a with incomingBytes := a.incomingBytes + f.payload.length }.stored (f.stream, f.message)
    ((a.reassemblyFor S now f).add f.index f.payload)

/-- The state with the message of `f` complete and handed out. -/
def delivered (now : τ) (f : Frame) (a : ReliableAdapter τ) : ReliableAdapter τ :=
  let b := a.absorbed S now f
  { b with incoming := b.incoming.erase (f.stream, f.message)
           incomingBytes := b.incomingBytes - ((a.reassemblyFor S now f).add f.index f.payload).bytes
    }.remember (f.stream, f.message)

/-- The messages whose reassembly `retransmit` gives up at `now`. -/
def overdue (now : τ) (a : ReliableAdapter τ) : List Identity :=
  (a.incoming.filter fun _ r => S.timing.isReached now r.deadline).entries.map Prod.fst

/-- The state with a pending frame acknowledged. -/
def acknowledged (now : τ) (key : ChunkKey) (p : Pending τ) (o : Outgoing)
    (a : ReliableAdapter τ) : ReliableAdapter τ :=
  ({ a with pending := a.pending.erase key }.release (key.1, key.2.1) o).sampled S now p

/-- An acknowledgement touches only the sender's books and the estimator. -/
theorem acknowledged_eq (now : τ) (key : ChunkKey) (p : Pending τ) (o : Outgoing)
    (a : ReliableAdapter τ) : ∃ out buf est, a.acknowledged S now key p o =
      { a with pending := a.pending.erase key, outgoing := out, buffered := buf, estimator := est } := by
  obtain ⟨est, heq⟩ := sampled_eq S now p
    (({ a with pending := a.pending.erase key } : ReliableAdapter τ).release (key.1, key.2.1) o)
  unfold acknowledged
  rw [heq]
  unfold release
  split_ifs
  · exact ⟨_, _, _, rfl⟩
  · exact ⟨_, _, _, rfl⟩

/-- A delivery touches only the receiver's books and the record of completed identities. -/
theorem delivered_eq (now : τ) (f : Frame) (a : ReliableAdapter τ) : ∃ bytes c o, a.delivered S now f =
      { a with incoming := (a.absorbed S now f).incoming.erase (f.stream, f.message), incomingBytes := bytes,
               completed := c, completedOrder := o } := by
  unfold delivered
  obtain ⟨c, o, heq⟩ := remember_eq ({ a.absorbed S now f with
       incoming := (a.absorbed S now f).incoming.erase (f.stream, f.message)
       incomingBytes := (a.absorbed S now f).incomingBytes
         - ((a.reassemblyFor S now f).add f.index f.payload).bytes } : ReliableAdapter τ) (f.stream, f.message)
  rw [heq]
  exact ⟨_, _, _, rfl⟩

end ReliableAdapter

open ReliableAdapter

/-- A `DATA` frame whose part the adapter takes. -/
structure Absorbable (S : Setup τ) (now : τ) (f : Frame) (a : ReliableAdapter τ) : Prop where
  kind : f.kind = .data
  fresh : (f.stream, f.message) ∉ a.completed
  payload : f.payload ≠ []
  room : a.incoming.find? (f.stream, f.message) = none → a.incoming.size < 4096
  count : (a.reassemblyFor S now f).count = f.count
  index : f.index < f.count
  absent : (a.reassemblyFor S now f).parts.find? f.index = none
  inflight : a.incomingBytes + f.payload.length ≤ S.limits.maxInflight
  message : (a.reassemblyFor S now f).bytes + f.payload.length ≤ S.limits.maxMessage

/-- The steps of an adapter. -/
inductive Step (S : Setup τ) : ReliableAdapter τ → Note → ReliableAdapter τ → Prop where
  | accept {a : ReliableAdapter τ} {stream : Nat} {data : Bytes}
      (hopen : a.closed = false) (hstream : stream < S.limits.maxStreams) (hdata : data ≠ [])
      (hcount : chunkCount data.length S.codec.payload ≤ 65535)
      (hroom : a.buffered + data.length ≤ S.limits.maxInflight)
      (hnext : a.nextMessage stream < 2 ^ 64 - 1) :
      Step S a (.accepted stream (a.nextMessage stream) data) (a.enqueue S stream data)
  | transmit {a : ReliableAdapter τ} {now : τ} {stream : Nat} {rest : List Nat} {item : Item}
      {items : List Item} (hopen : a.closed = false) (hwindow : a.pending.size < S.window)
      (hactive : a.activeStreams = stream :: rest) (hqueue : a.queues stream = item :: items)
      (hadmits : S.codec.Admits (chunkFrame S stream item)) :
      Step S a (.emitted (chunkFrame S stream item)) (a.transmitted S now stream rest item items)
  | reserve {a : ReliableAdapter τ} {stream : Nat} (hopen : a.closed = false)
      (hstream : stream < S.limits.maxStreams) (hnext : a.nextMessage stream < 2 ^ 64 - 1) :
      Step S a .quiet (a.reserve stream)
  | extend {a : ReliableAdapter τ} {stream : Nat} {payload : Bytes} (hopen : a.closed = false)
      (hnext : a.nextMessage stream < 2 ^ 64 - 1)
      (hadmits : S.codec.Admits (extensionFrame stream (a.nextMessage stream) payload)) :
      Step S a (.emitted (extensionFrame stream (a.nextMessage stream) payload))
        ((a.reserve stream).note (extensionFrame stream (a.nextMessage stream) payload))
  | noteAck {a : ReliableAdapter τ} {f : Frame} (hadmits : S.codec.Admits (ackFrame f)) :
      Step S a .quiet (a.note (ackFrame f))
  | acknowledge {a : ReliableAdapter τ} {now : τ} {key : ChunkKey} {p : Pending τ} {o : Outgoing}
      (hopen : a.closed = false) (hpending : a.pending.find? key = some p)
      (houtgoing : a.outgoing.find? (key.1, key.2.1) = some o) :
      Step S a (.released key) (a.acknowledged S now key p o)
  | again {a : ReliableAdapter τ} {f : Frame} (hkind : f.kind ≠ .ack)
      (hdone : (f.stream, f.message) ∈ a.completed) : Step S a (.confirmed f none) a
  | event {a : ReliableAdapter τ} {f : Frame} (hopen : a.closed = false) (hkind : f.kind = .extension)
      (hfresh : (f.stream, f.message) ∉ a.completed) :
      Step S a (.confirmed f (some none)) (a.remember (f.stream, f.message))
  | duplicate {a : ReliableAdapter τ} {f : Frame} {r : Reassembly τ} (hkind : f.kind = .data)
      (hfound : a.incoming.find? (f.stream, f.message) = some r)
      (hpart : (r.parts.find? f.index).isSome) : Step S a (.confirmed f none) a
  | absorb {a : ReliableAdapter τ} {now : τ} {f : Frame} (hopen : a.closed = false)
      (hf : Absorbable S now f a)
      (hparts : ((a.reassemblyFor S now f).add f.index f.payload).parts.size ≠ f.count) :
      Step S a (.confirmed f none) (a.absorbed S now f)
  | deliver {a : ReliableAdapter τ} {now : τ} {f : Frame} {data : Bytes} (hopen : a.closed = false)
      (hf : Absorbable S now f a)
      (hparts : ((a.reassemblyFor S now f).add f.index f.payload).parts.size = f.count)
      (hjoin : ((a.reassemblyFor S now f).add f.index f.payload).join = some data) :
      Step S a (.confirmed f (some (some data))) (a.delivered S now f)
  | expire {a : ReliableAdapter τ} {now : τ} (hopen : a.closed = false) :
      Step S a (.expired (a.overdue S now)) (a.expire S now)
  | resend {a : ReliableAdapter τ} {now : τ} (hopen : a.closed = false) : Step S a .quiet (a.resent S now)
  | close {a : ReliableAdapter τ} : Step S a .quiet a.close

/-- A sequence of steps with its notes. -/
inductive Steps (S : Setup τ) : ReliableAdapter τ → List Note → ReliableAdapter τ → Prop where
  | refl {a : ReliableAdapter τ} : Steps S a [] a
  | head {a b c : ReliableAdapter τ} {n : Note} {ns : List Note} :
      Step S a n b → Steps S b ns c → Steps S a (n :: ns) c

theorem Steps.single {S : Setup τ} {a b : ReliableAdapter τ} {n : Note} (h : Step S a n b) :
    Steps S a [n] b := .head h .refl

/-- A property that every step preserves is preserved by a sequence of steps. -/
theorem Steps.invariant {S : Setup τ} {I : ReliableAdapter τ → Prop}
    (hstep : ∀ {a n b}, I a → Step S a n b → I b) {a b : ReliableAdapter τ} {ns : List Note}
    (h : Steps S a ns b) (ha : I a) : I b := by
  induction h with
  | refl => exact ha
  | head hs _ ih => exact ih (hstep ha hs)

end Shadow6.NetworkAdapter
