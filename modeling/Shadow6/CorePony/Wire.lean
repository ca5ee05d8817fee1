import Shadow6.Library.Aead

/-!
# `CorePony.Wire` — the packets of an established session

Model of `OCapToken` and `Frame` in `session.pony`, of `s6p_seal` and `s6p_open` in `crypto/session.c` and of the
structural check `wire_frame` in `protocol.pony`. A packet is a header of 12 bytes (magic, kind, sequence number),
the encrypted payload and a tag of 16 bytes; header and transcript hash are authenticated.
-/

namespace Shadow6.CorePony

open Library List

/-- The kinds of packets, as their byte in the header. -/
def kindConfirm : Nat := 0

def kindConfirmed : Nat := 1

def kindData : Nat := 2

def kindAck : Nat := 3

/-- `ProtocolLimits.max_frame()`. -/
def maxFrame : Nat := 1200

/-- `ProtocolLimits.wire_frame`: `83 54 69` is `S6E`, `83 54 81` is `S6Q`. -/
def wireFrame (size a b c kind : Nat) : Bool :=
  if size < 4 ∨ maxFrame < size then false
  else if a ≠ 83 ∨ b ≠ 54 then false
  else if c = 69 then decide (28 ≤ size ∧ kind ≤ 3 ∧ (kind = 2 ∨ size = 28))
  else if c = 81 then decide ((kind = 49 ∧ size = 140) ∨ (kind = 50 ∧ size = 172))
  else false

/-- The three parts of the 96 bytes of key material: for sending, for receiving, and the transcript hash. -/
structure OCapToken where
  tx : Bytes
  rx : Bytes
  transcript : Bytes

/-- The token of the other side. -/
def OCapToken.peer (t : OCapToken) : OCapToken := ⟨t.rx, t.tx, t.transcript⟩

def magic : Bytes := [83, 54, 69]

def header (sequence kind : Nat) : Bytes := magic ++ UInt8.ofNat kind :: toBE 8 sequence

def nonceOf (sequence kind : Nat) : Bytes := [83, 54, UInt8.ofNat kind, 1] ++ toBE 8 sequence

/-- `Frame.payload(bytes)`: room for the header. -/
def framePayload (bytes : Bytes) : Bytes := replicate 12 0 ++ bytes

/-- `Frame.empty()`. -/
def frameEmpty : Bytes := replicate 12 0

namespace OCapToken

variable (A : Aead) (t : OCapToken)

/-- A sealed packet. -/
def sealedPacket (sequence kind : Nat) (payload : Bytes) : Bytes :=
  header sequence kind ++ A.encrypt t.tx (nonceOf sequence kind) (header sequence kind ++ t.transcript) payload

/-- `seal(packet, sequence, kind)`. -/
def sealPacket (packet : Bytes) (sequence kind : Nat) : Option Bytes :=
  if packet.length < 12 ∨ 1184 < packet.length then none
  -- `s6p_seal`
  else if maxFrame < packet.length + 16 ∨ sequence = 0 ∨ 3 < kind then none
  else some (t.sealedPacket A sequence kind (packet.drop 12))

/-- The sequence number in the header. -/
def sequenceOf (packet : Bytes) : Nat := ofBE ((packet.drop 4).take 8)

/-- The kind in the header. -/
def kindOf (packet : Bytes) : Nat := ofBE ((packet.drop 3).take 1)

/-- `open(packet)`. -/
def openPacket (packet : Bytes) : Option Bytes :=
  -- `s6p_open`
  if packet.length < 28 ∨ maxFrame < packet.length ∨ packet.take 3 ≠ magic ∨ 3 < kindOf packet then none
  else if sequenceOf packet = 0 then none
  else
    (A.decrypt t.rx (nonceOf (sequenceOf packet) (kindOf packet)) (packet.take 12 ++ t.transcript)
      (packet.drop 12)).map (packet.take 12 ++ ·)

end OCapToken

section

variable {A : Aead} {t : OCapToken} {sequence kind : Nat}

open OCapToken

@[simp] theorem length_header (sequence kind : Nat) : (header sequence kind).length = 12 := by
  simp [header, magic]

theorem length_sealedPacket (p : Bytes) : (t.sealedPacket A sequence kind p).length = p.length + 28 := by
  rw [sealedPacket, length_append, length_header, A.length_encrypt]
  omega

/-- A payload that fits is sealed. -/
theorem sealPacket_payload {p : Bytes} (hsz : p.length ≤ 1172) (hsqn : sequence ≠ 0) (hkd : kind ≤ 3) :
    t.sealPacket A (framePayload p) sequence kind = some (t.sealedPacket A sequence kind p) := by
  have hlen : (framePayload p).length = 12 + p.length := by
    rw [framePayload, length_append, length_replicate]
  unfold sealPacket maxFrame
  rw [hlen, if_neg (by omega), if_neg (by omega)]
  simp [framePayload]

theorem sealPacket_empty (hsqn : sequence ≠ 0) (hkd : kind ≤ 3) :
    t.sealPacket A frameEmpty sequence kind = some (t.sealedPacket A sequence kind []) := by
  have h : t.sealPacket A (framePayload []) sequence kind = some (t.sealedPacket A sequence kind []) :=
    sealPacket_payload (by simp) hsqn hkd
  exact h

theorem sequenceOf_header (hsqn : sequence < 2 ^ 64) (r : Bytes) :
    sequenceOf (header sequence kind ++ r) = sequence := by
  have htake : (((header sequence kind ++ r).drop 4).take 8) = toBE 8 sequence := by
    simp [header, magic]
  rw [sequenceOf, htake]
  exact ofBE_toBE_of_lt (by norm_num; exact hsqn)

theorem kindOf_header (hkd : kind ≤ 3) (r : Bytes) : kindOf (header sequence kind ++ r) = kind := by
  interval_cases kind <;> rfl

/-- **The other side opens what one side has sealed.** -/
theorem openPacket_sealed {payload : Bytes} (hsz : payload.length ≤ 1172) (hzero : sequence ≠ 0)
    (hsqn : sequence < 2 ^ 64) (hkd : kind ≤ 3) :
    t.peer.openPacket A (t.sealedPacket A sequence kind payload) = some (header sequence kind ++ payload) := by
  have hlen : (t.sealedPacket A sequence kind payload).length = payload.length + 28 := length_sealedPacket payload
  have hmagic : (t.sealedPacket A sequence kind payload).take 3 = magic := by
    simp [sealedPacket, header, magic]
  have htake : (t.sealedPacket A sequence kind payload).take 12 = header sequence kind := by
    rw [sealedPacket, take_append_of_le_length (by simp), take_of_length_le (by simp)]
  have hdrop : (t.sealedPacket A sequence kind payload).drop 12
      = A.encrypt t.tx (nonceOf sequence kind) (header sequence kind ++ t.transcript) payload := by
    rw [sealedPacket, drop_append_of_le_length (by simp), drop_of_length_le (by simp), nil_append]
  have hseq : sequenceOf (t.sealedPacket A sequence kind payload) = sequence := sequenceOf_header hsqn _
  have hk : kindOf (t.sealedPacket A sequence kind payload) = kind := kindOf_header hkd _
  unfold openPacket maxFrame
  rw [if_neg (by rw [hlen, hmagic, hk]; simp; omega), hseq, if_neg hzero, hk, htake, hdrop]
  show (A.decrypt t.tx _ (header sequence kind ++ t.transcript) _).map _ = _
  rw [A.decrypt_encrypt]
  rfl

end

end Shadow6.CorePony
