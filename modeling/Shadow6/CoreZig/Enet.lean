import Shadow6.Library.Aead
import Shadow6.Library.Slots

/-!
# `CoreZig.Enet` — the reliable UDP session

Model of `enet.zig`: packets of at most 1200 bytes with a header of 40 (magic, version, kind, session id, counter,
sequence number), authenticated as associated data; a ring of 256 packets that are not acknowledged and one of 256
packets that have arrived and were not consumed; and the congestion window behind `canQueue`.

Counters are `u64` and checked against their largest value by the code. The keys come from an HMAC, a parameter.
-/

namespace Shadow6.CoreZig

open Library List Function

def mtu : Nat := 1200

def headerSize : Nat := 40

/-- `mtu - header - AEAD.tag_length`. -/
def payloadMax : Nat := mtu - headerSize - 16

def window : Nat := 256

instance neZero_window : NeZero 256 := ⟨by decide⟩

/-- `std.math.maxInt(u64)`. -/
def maxInt : Nat := 2 ^ 64 - 1

inductive Kind where
  | opening
  | data
  | ack
  | fin
  deriving DecidableEq

def Kind.toByte : Kind → UInt8
  | .opening => 1
  | .data => 2
  | .ack => 3
  | .fin => 4

def Kind.fromByte (b : UInt8) : Option Kind :=
  if b = 1 then some .opening else if b = 2 then some .data else if b = 3 then some .ack
  else if b = 4 then some .fin else none

theorem Kind.fromByte_toByte (k : Kind) : Kind.fromByte k.toByte = some k := by
  cases k <;> rfl

inductive Error where
  | sessionLimit
  | backpressure
  | invalidPacket
  | authenticationFailed
  | retryLimit
  | invalidSequence
  | dataAfterFin
  deriving DecidableEq

structure Packet where
  bytes : Bytes
  seq : Nat
  deadline : Int
  attempts : Nat
  active : Bool

structure Received where
  kind : Kind
  seq : Nat
  bytes : Bytes
  deriving DecidableEq

/-- The primitives a session uses. -/
structure Crypto where
  aead : Aead
  hmac : (message key : Bytes) → Bytes

structure Session where
  sid : Bytes
  txKey : Bytes
  rxKey : Bytes
  counter : Nat
  nextTx : Nat
  nextRx : Nat
  highestRx : Nat
  replay : Nat
  pending : Fin 256 → Packet
  received : Slots 256 Received
  inFlight : Nat
  congestion : Nat
  slowStartLimit : Nat
  ackCredit : Nat
  recoveryUntil : Nat

/-- The authenticated header of a packet. -/
def headerOf (sid : Bytes) (kind : Kind) (counter seq : Nat) : Bytes :=
  [83, 54, 69, 78] ++ [2, kind.toByte, 0, 0] ++ sid ++ toBE 8 counter ++ toBE 8 seq

def nonceOf (counter : Nat) : Bytes := List.replicate 4 0 ++ toBE 8 counter

/-- A packet as it is on the wire. -/
def sealedPacket (A : Aead) (key sid : Bytes) (kind : Kind) (counter seq : Nat) (data : Bytes) : Bytes :=
  headerOf sid kind counter seq ++ A.encrypt key (nonceOf counter) (headerOf sid kind counter seq) data

/-- What a packet does to the replay bitmap: nothing, start it anew, move it up, or set a bit of it. -/
inductive Mark where
  | stale
  | fresh
  | ahead (shift : Nat)
  | behind (shift : Nat)

namespace Session

variable (C : Crypto) (s : Session)

def init (master sid : Bytes) (client : Bool) : Session :=
  let c2a := C.hmac (sid ++ [0]) master
  let a2c := C.hmac (sid ++ [1]) master
  { sid := sid
    txKey := if client then c2a else a2c
    rxKey := if client then a2c else c2a
    counter := 0, nextTx := 0, nextRx := 0, highestRx := 0, replay := 0
    pending := fun _ => ⟨[], 0, 0, 0, false⟩
    received := fun _ => none
    inFlight := 0, congestion := 4, slowStartLimit := 32, ackCredit := 0, recoveryUntil := 0 }

def canQueue : Bool :=
  decide (s.inFlight < s.congestion ∧ s.nextTx < maxInt) && !(s.pending (slotOf 256 s.nextTx)).active &&
    decide (s.counter < maxInt)

theorem canQueue_iff {s : Session} : s.canQueue = true ↔
    s.inFlight < s.congestion ∧ s.nextTx < maxInt ∧ (s.pending (slotOf 256 s.nextTx)).active = false ∧
      s.counter < maxInt := by
  simp [canQueue, and_assoc]

def encode (kind : Kind) (seq : Nat) (data : Bytes) : Except Error (Packet × Session) :=
  if payloadMax < data.length ∨ s.counter = maxInt then .error .sessionLimit
  else .ok (⟨sealedPacket C.aead s.txKey s.sid kind s.counter seq data, seq, 0, 0, true⟩,
    { s with counter := s.counter + 1 })

def queue (kind : Kind) (data : Bytes) (now : Int) : Except Error (Packet × Session) :=
  if kind = .ack ∨ ¬ s.canQueue then .error .backpressure
  else if (s.pending (slotOf 256 s.nextTx)).active then .error .backpressure
  else
    match s.encode C kind s.nextTx data with
    | .error e => .error e
    | .ok (packet, t) =>
      let packet := { packet with deadline := now + 100, attempts := 1 }
      .ok (packet, { t with
        pending := update t.pending (slotOf 256 t.nextTx) packet
        inFlight := t.inFlight + 1
        nextTx := t.nextTx + 1 })

/-- Where a packet with a counter stands against the replay bitmap, with the amount of the shift. -/
def mark (count : Nat) : Mark :=
  if s.replay ≠ 0 ∧ count ≤ s.highestRx ∧ 64 ≤ s.highestRx - count then .stale
  else if s.replay = 0 ∨ s.highestRx < count then
    let shift := if s.replay = 0 then 64 else count - s.highestRx
    if 64 ≤ shift then .fresh else .ahead shift
  else .behind (s.highestRx - count)

/-- The replay bitmap after a packet with a counter; it is kept, and nothing is refused for it. -/
def note (count : Nat) : Session :=
  match s.mark count with
  | .stale => s
  | .fresh => { s with replay := 1, highestRx := count }
  | .ahead shift => { s with replay := (s.replay <<< shift ||| 1) % 2 ^ 64, highestRx := count }
  | .behind shift => { s with replay := s.replay ||| 1 <<< shift }

/-- The bytes of a packet from `start` on. -/
def slice (packet : Bytes) (start length : Nat) : Bytes := (packet.drop start).take length

def decode (packet : Bytes) : Except Error (Received × Session) :=
  if packet.length < headerSize + 16 ∨ mtu < packet.length ∨ slice packet 0 4 ≠ [83, 54, 69, 78] ∨
      slice packet 4 1 ≠ [2] ∨ slice packet 6 2 ≠ [0, 0] ∨ slice packet 8 16 ≠ s.sid then
    .error .invalidPacket
  else
    match (slice packet 5 1).head?.bind Kind.fromByte with
    | none => .error .invalidPacket
    | some kind =>
      let count := ofBE (slice packet 24 8)
      let seq := ofBE (slice packet 32 8)
      if kind ≠ .data ∧ packet.length ≠ headerSize + 16 then .error .invalidPacket
      else
        match C.aead.decrypt s.rxKey (nonceOf count) (packet.take headerSize) (packet.drop headerSize) with
        | none => .error .authenticationFailed
        | some data => .ok (⟨kind, seq, data⟩, s.note count)

def acknowledge (seq : Nat) : Session :=
  let slot := s.pending (slotOf 256 seq)
  if ¬ slot.active ∨ slot.seq ≠ seq then s
  else
    let s := { s with
      pending := update s.pending (slotOf 256 seq) { slot with active := false }
      inFlight := s.inFlight - 1 }
    if s.congestion < s.slowStartLimit then { s with congestion := s.congestion + 1 }
    else if s.congestion < window then
      if s.congestion ≤ s.ackCredit + 1 then { s with ackCredit := 0, congestion := s.congestion + 1 }
      else { s with ackCredit := s.ackCredit + 1 }
    else s

/-- `retry(packet, now)` for the packet in slot `i`; the flag says whether it is sent again. -/
def retry (i : Fin 256) (now : Int) : Except Error (Bool × Session) :=
  let packet := s.pending i
  if ¬ packet.active ∨ now < packet.deadline then .ok (false, s)
  else if 8 ≤ packet.attempts then .error .retryLimit
  else
    let attempts := packet.attempts + 1
    let s := { s with
      pending := update s.pending i
        { packet with attempts := attempts, deadline := now + min (100 * 2 ^ (attempts - 1)) 3000 } }
    -- one reduction for a flight
    if s.recoveryUntil ≤ packet.seq then
      let congestion := max 2 (s.congestion / 2)
      .ok (true, { s with
        congestion := congestion, slowStartLimit := congestion, ackCredit := 0, recoveryUntil := s.nextTx })
    else .ok (true, s)

end Session

/-! ## What one session seals, the other opens -/

section

variable {C : Crypto} {s : Session} {key sid : Bytes} {kind : Kind} {ctr seq : Nat} {data : Bytes}

open Session

theorem length_headerOf (hsid : sid.length = 16) : (headerOf sid kind ctr seq).length = 40 := by
  simp [headerOf, hsid]

theorem length_sealedPacket (hsid : sid.length = 16) :
    (sealedPacket C.aead key sid kind ctr seq data).length = data.length + 56 := by
  rw [sealedPacket, length_append, length_headerOf hsid, C.aead.length_encrypt]
  omega

theorem slice_append {s0 l : Nat} {frn part : Bytes} (rest : Bytes) (hfro : frn.length = s0)
    (hpart : part.length = l) : slice (frn ++ (part ++ rest)) s0 l = part := by
  unfold slice
  rw [← hfro, ← hpart, drop_left, take_left]

/-- The parts of a header, whatever follows it. -/
theorem slice_headerOf (kind : Kind) (cn seq : Nat) (hsid : sid.length = 16) (r : Bytes) :
    slice (headerOf sid kind cn seq ++ r) 0 4 = [83, 54, 69, 78] ∧
      slice (headerOf sid kind cn seq ++ r) 4 1 = [2] ∧
      slice (headerOf sid kind cn seq ++ r) 5 1 = [kind.toByte] ∧
      slice (headerOf sid kind cn seq ++ r) 6 2 = [0, 0] ∧
      slice (headerOf sid kind cn seq ++ r) 8 16 = sid ∧
      slice (headerOf sid kind cn seq ++ r) 24 8 = toBE 8 cn ∧
      slice (headerOf sid kind cn seq ++ r) 32 8 = toBE 8 seq := by
  have hshp : headerOf sid kind cn seq ++ r
      = [83, 54, 69, 78, 2, kind.toByte, 0, 0] ++ (sid ++ (toBE 8 cn ++ (toBE 8 seq ++ r))) := by
    simp [headerOf]
  have hctr : headerOf sid kind cn seq ++ r
      = ([83, 54, 69, 78, 2, kind.toByte, 0, 0] ++ sid) ++ (toBE 8 cn ++ (toBE 8 seq ++ r)) := by
    rw [hshp, append_assoc]
  have hseq : headerOf sid kind cn seq ++ r
      = ([83, 54, 69, 78, 2, kind.toByte, 0, 0] ++ sid ++ toBE 8 cn) ++ (toBE 8 seq ++ r) := by
    rw [hctr]
    simp only [append_assoc]
  refine ⟨?_, ?_, ?_, ?_, ?_, ?_, ?_⟩
  · rfl
  · rw [hshp]
    rfl
  · rw [hshp]
    rfl
  · rw [hshp]
    rfl
  · rw [hshp]
    exact slice_append _ rfl hsid
  · rw [hctr]
    exact slice_append _ (by simp [hsid]) (length_toBE _ _)
  · rw [hseq]
    exact slice_append _ (by simp [hsid]) (length_toBE _ _)

/-- **A packet is opened to what was sealed.** -/
theorem decode_sealed (hsid : s.sid.length = 16) (hkey : s.rxKey = key) (hsz : data.length ≤ payloadMax)
    (hdt : kind = .data ∨ data = []) (hctr : ctr < 2 ^ 64) (hseq : seq < 2 ^ 64) :
    s.decode C (sealedPacket C.aead key s.sid kind ctr seq data) = .ok (⟨kind, seq, data⟩, s.note ctr) := by
  have hlen : (sealedPacket C.aead key s.sid kind ctr seq data).length = data.length + 56 :=
    length_sealedPacket hsid
  have hhdr : (headerOf s.sid kind ctr seq).length = headerSize := length_headerOf hsid
  have htake : (sealedPacket C.aead key s.sid kind ctr seq data).take headerSize
      = headerOf s.sid kind ctr seq := by
    rw [← hhdr]
    exact take_left
  have hdrop : (sealedPacket C.aead key s.sid kind ctr seq data).drop headerSize
      = C.aead.encrypt key (nonceOf ctr) (headerOf s.sid kind ctr seq) data := by
    rw [← hhdr]
    exact drop_left
  obtain ⟨hmagic, hver, hkd, hzero, hid, hcnt, hnum⟩ :=
    slice_headerOf kind ctr seq hsid (C.aead.encrypt key (nonceOf ctr) (headerOf s.sid kind ctr seq) data)
  have hbe : ∀ n, n < 2 ^ 64 → ofBE (toBE 8 n) = n := fun n hn => ofBE_toBE_of_lt (hn.trans_eq (by norm_num))
  unfold sealedPacket at hlen htake hdrop ⊢
  unfold Session.decode
  rw [if_neg (by
    rw [hlen, hmagic, hver, hzero, hid]
    unfold payloadMax mtu headerSize at hsz
    unfold mtu headerSize
    simp
    omega), hkd]
  simp only [head?_cons, Option.bind_some, Kind.fromByte_toByte, hcnt, hnum, hbe ctr hctr, hbe seq hseq]
  rw [if_neg (by
    rintro ⟨hnot, hne⟩
    rcases hdt with hdt | hdt
    · exact hnot hdt
    · rw [hlen, hdt] at hne
      exact hne rfl), htake, hdrop, hkey, C.aead.decrypt_encrypt]

end

end Shadow6.CoreZig
