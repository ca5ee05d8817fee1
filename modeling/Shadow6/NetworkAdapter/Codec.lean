import Shadow6.NetworkAdapter.Profile

/-!
# `NetworkAdapter.Codec` — S6NA records on the wire

`Codec` of `Network-Adapter/shadow6_network.py`: a 32-byte header (`!4sBBHQQHHI`), the encrypted payload
and the tag. ChaCha20-Poly1305, HMAC-SHA-256 and SHA-256 are parameters (`Crypto`); what the codec needs
of them is that authentic ciphertext opens to its plaintext and is 16 bytes longer (`Crypto.Lawful`).

Main results: `decode_encode` (what one side encodes the other side decodes) and `header_injective` (the
header bytes determine every field).
-/

namespace Shadow6.NetworkAdapter

open Library

/-! ## Primitives -/

/-- The cryptographic primitives. -/
structure Crypto where
  hmacSha256 : Bytes → Bytes → Bytes
  sha256 : Bytes → Bytes
  /-- key, nonce, plaintext, associated data -/
  encrypt : Bytes → Bytes → Bytes → Bytes → Bytes
  /-- key, nonce, ciphertext with tag, associated data -/
  decrypt : Bytes → Bytes → Bytes → Bytes → Option Bytes

/-- What the codec relies on. -/
structure Crypto.Lawful (C : Crypto) : Prop where
  decrypt_encrypt : ∀ k n p ad, C.decrypt k n (C.encrypt k n p ad) ad = some p
  length_encrypt : ∀ k n p ad, (C.encrypt k n p ad).length = p.length + 16

/-- Sixteen bytes that depend on all their inputs. -/
def checksumTag (key nonce payload ad : Bytes) : Bytes :=
  toBE 16 (ofBE (key ++ nonce ++ payload ++ ad) % (2 ^ 127 - 1))

/-- Primitives the model can be run with: the payload in the clear under a checksum tag, and a polynomial
    hash. -/
def Crypto.checksum : Crypto where
  hmacSha256 := fun key message => (message.reverse ++ key).take 32
  sha256 := fun message => toBE 12 (ofBE message % (2 ^ 89 - 1)) ++ List.replicate 20 0
  encrypt := fun key nonce payload ad => payload ++ checksumTag key nonce payload ad
  decrypt := fun key nonce ciphertext ad =>
    let payload := ciphertext.take (ciphertext.length - 16)
    if ciphertext = payload ++ checksumTag key nonce payload ad then some payload else none

theorem Crypto.checksum_lawful : Crypto.checksum.Lawful where
  decrypt_encrypt := by
    intro key nonce payload ad
    simp [Crypto.checksum, checksumTag]
  length_encrypt := by
    intro key nonce payload ad
    simp [Crypto.checksum, checksumTag]

/-! ## Frames and headers -/

/-- `DATA`, `ACK`, `EXTENSION`. -/
inductive Kind where
  | data | ack | extension
deriving DecidableEq, Repr

def Kind.code : Kind → Nat
  | .data => 1
  | .ack => 2
  | .extension => 3

def Kind.ofCode : Nat → Option Kind
  | 1 => some .data
  | 2 => some .ack
  | 3 => some .extension
  | _ => none

@[simp] theorem Kind.ofCode_code (k : Kind) : Kind.ofCode k.code = some k := by cases k <;> rfl

theorem Kind.code_lt (k : Kind) : k.code < 256 := by cases k <;> decide

/-- The plaintext content of one record. -/
structure Frame where
  kind : Kind
  stream : Nat
  message : Nat
  index : Nat
  count : Nat
  payload : Bytes
deriving DecidableEq, Repr

/-- `MAGIC`, `b"S6NA"`. -/
def magic : Bytes := [0x53, 0x36, 0x4e, 0x41]

/-- The nine header fields, in wire order. -/
def Frame.fields (f : Frame) : List Bytes :=
  [magic, toBE 1 1, toBE 1 f.kind.code, toBE 2 0, toBE 8 f.stream, toBE 8 f.message,
    toBE 2 f.index, toBE 2 f.count, toBE 4 f.payload.length]

/-- Widths of `!4sBBHQQHHI`. -/
def headerWidths : List Nat := [4, 1, 1, 2, 8, 8, 2, 2, 4]

/-- `HEADER.size`. -/
def headerSize : Nat := 32

/-- `TAG_BYTES`. -/
def tagBytes : Nat := 16

/-- `HEADER.pack(MAGIC, VERSION, kind, 0, stream, message, index, count, len(payload))`. -/
def Frame.header (f : Frame) : Bytes := f.fields.flatten

/-- The field values fit their widths. -/
structure Frame.Fits (f : Frame) : Prop where
  stream : f.stream < 2 ^ 64
  message : f.message < 2 ^ 64
  index : f.index < 2 ^ 16
  count : f.count < 2 ^ 16
  length : f.payload.length < 2 ^ 32

@[simp] theorem Frame.length_header (f : Frame) : f.header.length = 32 := by
  simp [Frame.header, Frame.fields, magic]

theorem Frame.split_header (f : Frame) : splitWidths headerWidths f.header = f.fields := by
  have h : f.fields.map List.length = headerWidths := by simp [Frame.fields, magic, headerWidths]
  rw [← h]
  exact splitWidths_flatten f.fields

/-- **The header determines the fields** of a frame that fits, the payload up to its length. -/
theorem header_injective {f g : Frame} (hf : f.Fits) (hg : g.Fits) (h : f.header = g.header) :
    f.kind = g.kind ∧ f.stream = g.stream ∧ f.message = g.message ∧ f.index = g.index ∧
      f.count = g.count ∧ f.payload.length = g.payload.length := by
  have hs : f.fields = g.fields := by rw [← f.split_header, ← g.split_header, h]
  simp only [Frame.fields, List.cons.injEq, and_true, true_and] at hs
  obtain ⟨hk, hst, hm, hi, hc, hl⟩ := hs
  have hval : ∀ {w a b : Nat}, a < 256 ^ w → b < 256 ^ w → toBE w a = toBE w b → a = b := by
    intro w a b ha hb hab
    rw [← ofBE_toBE_of_lt ha, hab, ofBE_toBE_of_lt hb]
  have hkind : Kind.ofCode f.kind.code = Kind.ofCode g.kind.code :=
    congrArg Kind.ofCode (hval f.kind.code_lt g.kind.code_lt hk)
  simp only [Kind.ofCode_code, Option.some.injEq] at hkind
  exact ⟨hkind, hval hf.stream hg.stream hst, hval hf.message hg.message hm, hval hf.index hg.index hi,
    hval hf.count hg.count hc, hval hf.length hg.length hl⟩

/-! ## The codec -/

/-- `Codec`: direction keys, payload bound and stream bound. -/
structure Codec where
  crypto : Crypto
  tx : Bytes
  rx : Bytes
  payload : Nat
  maxStreams : Nat
  payload_bounds : 64 ≤ payload ∧ payload ≤ 65536
  maxStreams_bounds : 1 ≤ maxStreams ∧ maxStreams ≤ 4096

/-- `b"shadow6-network-v1:"`. -/
def keyLabel : Bytes :=
  [0x73, 0x68, 0x61, 0x64, 0x6f, 0x77, 0x36, 0x2d, 0x6e, 0x65, 0x74, 0x77, 0x6f, 0x72, 0x6b, 0x2d,
    0x76, 0x31, 0x3a]

/-- `b"shadow6-network-nonce-v1"`. -/
def nonceLabel : Bytes :=
  [0x73, 0x68, 0x61, 0x64, 0x6f, 0x77, 0x36, 0x2d, 0x6e, 0x65, 0x74, 0x77, 0x6f, 0x72, 0x6b, 0x2d,
    0x6e, 0x6f, 0x6e, 0x63, 0x65, 0x2d, 0x76, 0x31]

/-- The key of one direction. -/
def deriveKey (C : Crypto) (key : Bytes) (direction : Nat) : Bytes :=
  C.hmacSha256 key (keyLabel ++ [UInt8.ofNat direction])

/-- `Codec.__init__`. -/
def Codec.create (C : Crypto) (key : Bytes) (payload side maxStreams : Nat) : Except PyError Codec :=
  if key.length ≠ 32 then .error (.value "adapter key must be 32 bytes")
  else if hp : 64 ≤ payload ∧ payload ≤ 65536 then
    if side ≠ 0 ∧ side ≠ 1 then .error (.value "adapter side must be 0 or 1")
    else if hs : 1 ≤ maxStreams ∧ maxStreams ≤ 4096 then
      .ok { crypto := C, tx := deriveKey C key side, rx := deriveKey C key (1 - side), payload := payload,
            maxStreams := maxStreams, payload_bounds := hp, maxStreams_bounds := hs }
    else .error (.value "invalid stream limit")
  else .error (.value "invalid adapter payload")

/-- What a successful construction fixes. -/
theorem Codec.create_ok {C : Crypto} {key : Bytes} {payload side maxStreams : Nat} {c : Codec}
    (h : Codec.create C key payload side maxStreams = .ok c) :
    c.crypto = C ∧ c.tx = deriveKey C key side ∧ c.rx = deriveKey C key (1 - side) ∧ c.payload = payload ∧
      c.maxStreams = maxStreams := by
  unfold Codec.create at h
  split_ifs at h
  cases h
  exact ⟨rfl, rfl, rfl, rfl, rfl⟩

namespace Codec

variable (c : Codec)

/-- `Codec.nonce(header)`. -/
def nonce (header : Bytes) : Bytes := (c.crypto.sha256 (nonceLabel ++ header)).take 12

/-- `Codec.encode(kind, stream, message, index, count, payload)`. -/
def encode (f : Frame) : Except PyError Bytes :=
  if ¬ (f.stream < c.maxStreams ∧ f.message < 2 ^ 64) then .error (.value "invalid frame identity")
  else if c.payload < f.payload.length ∨ ¬ (1 ≤ f.count ∧ f.count ≤ 65535) ∨ ¬ f.index < f.count then
    .error (.value "invalid frame bounds")
  else .ok (f.header ++ c.crypto.encrypt c.tx (c.nonce f.header) f.payload f.header)

/-- `Codec.decode(wire)`. -/
def decode (wire : Bytes) : Except PyError Frame :=
  if ¬ (headerSize + tagBytes ≤ wire.length ∧ wire.length ≤ headerSize + c.payload + tagBytes) then
    .error (.value "invalid frame size")
  else
    let header := wire.take headerSize
    let ciphertext := wire.drop headerSize
    match splitWidths headerWidths header with
    | [magic', version, kind, reserved, stream, message, index, count, length] =>
      match Kind.ofCode (ofBE kind) with
      | none => .error (.value "invalid frame header")
      | some kind =>
        if magic' ≠ magic ∨ ofBE version ≠ 1 ∨ ofBE reserved ≠ 0 ∨
            (ofBE length : Int) ≠ ciphertext.length - tagBytes then
          .error (.value "invalid frame header")
        else if c.maxStreams ≤ ofBE stream ∨ ofBE count < 1 ∨ ofBE count ≤ ofBE index then
          .error (.value "invalid frame fields")
        else match c.crypto.decrypt c.rx (c.nonce header) ciphertext header with
        | none => .error (.value "frame authentication failed")
        | some payload =>
          if kind = .ack ∧ payload ≠ [] then .error (.value "invalid acknowledgment")
          else .ok { kind := kind, stream := ofBE stream, message := ofBE message, index := ofBE index,
                     count := ofBE count, payload := payload }
    | _ => .error (.value "invalid frame header")

/-- What `encode` accepts. -/
structure Admits (f : Frame) : Prop where
  stream : f.stream < c.maxStreams
  message : f.message < 2 ^ 64
  payload : f.payload.length ≤ c.payload
  count_pos : 1 ≤ f.count
  count_le : f.count ≤ 65535
  index : f.index < f.count

variable {c}

variable {f : Frame}

theorem Admits.fits (h : c.Admits f) : f.Fits where
  stream := by have := h.stream; have := c.maxStreams_bounds; omega
  message := h.message
  index := by have := h.index; have := h.count_le; omega
  count := by have := h.count_le; omega
  length := by have := h.payload; have := c.payload_bounds; omega

/-- The record `encode` builds. -/
def sealed (c : Codec) (f : Frame) : Bytes :=
  f.header ++ c.crypto.encrypt c.tx (c.nonce f.header) f.payload f.header

theorem encode_of_admits (h : c.Admits f) : c.encode f = .ok (c.sealed f) := by
  unfold encode
  rw [if_neg (not_not.mpr ⟨h.stream, h.message⟩), if_neg]
  · rfl
  · have h1 := h.payload; have h2 := h.count_pos; have h3 := h.count_le; have h4 := h.index
    omega

variable {wr : Bytes}

theorem encode_eq_ok (h : c.encode f = .ok wr) : c.Admits f ∧ wr = c.sealed f := by
  unfold encode at h
  split at h
  · cases h
  split at h
  · cases h
  simp only [Except.ok.injEq] at h
  refine ⟨⟨?_, ?_, ?_, ?_, ?_, ?_⟩, h.symm⟩ <;> omega

theorem encode_error {e : PyError} (h : c.encode f = .error e) : e.kind = .valueError := by
  unfold encode at h
  split_ifs at h <;> cases h <;> rfl

theorem decode_error {e : PyError} (h : c.decode wr = .error e) : e.kind = .valueError := by
  unfold decode at h
  split at h
  · cases h; rfl
  dsimp only at h
  split at h
  · split at h
    · cases h; rfl
    split at h
    · cases h; rfl
    split at h
    · cases h; rfl
    split at h
    · cases h; rfl
    split at h
    · cases h; rfl
    · cases h
  · cases h; rfl

/-- What `decode` guarantees of a frame it accepts: the fields are those of some admissible record. -/
theorem decode_bounds (h : c.decode wr = .ok f) :
    f.stream < c.maxStreams ∧ f.message < 2 ^ 64 ∧ 1 ≤ f.count ∧ f.count ≤ 65535 ∧ f.index < f.count ∧
      (f.kind = .ack → f.payload = []) := by
  unfold decode at h
  split at h
  · cases h
  simp only [splitWidths, headerWidths] at h
  split at h
  · cases h
  split at h
  · cases h
  split at h
  · cases h
  rename_i hfs
  split at h
  · cases h
  split at h
  · cases h
  rename_i hack
  simp only [Except.ok.injEq] at h
  subst h
  have hlt : ∀ (w : Nat) (bs : Bytes), ofBE (bs.take w) < 256 ^ w := fun w bs =>
    lt_of_lt_of_le (ofBE_lt _) (Nat.pow_le_pow_right (by decide) (List.length_take_le w bs))
  simp only [not_or] at hfs
  obtain ⟨hstrm, hcnt, hidx⟩ := hfs
  refine ⟨Nat.lt_of_not_le hstrm, hlt 8 _, Nat.le_of_not_lt hcnt,
    Nat.le_of_lt_succ (hlt 2 _), Nat.lt_of_not_le hidx, ?_⟩
  · intro hk
    by_contra hne
    exact hack ⟨hk, hne⟩

theorem ack_admits (h : c.decode wr = .ok f) : c.Admits { f with kind := .ack, payload := [] } := by
  obtain ⟨hs, hm, hc1, hc2, hi, _⟩ := decode_bounds h
  exact ⟨hs, hm, Nat.zero_le _, hc1, hc2, hi⟩

/-- **Wire round trip.** A record that one codec seals is decoded to the same frame by a codec with the
    same bounds whose receive key is the sender's transmit key. -/
theorem decode_encode {c d : Codec} (hlaw : c.crypto.Lawful) (hcry : d.crypto = c.crypto) (hkey : d.rx = c.tx)
    (hpay : d.payload = c.payload) (hstr : d.maxStreams = c.maxStreams) (hf : c.Admits f)
    (hack : f.kind = .ack → f.payload = []) : d.decode (c.sealed f) = .ok f := by
  have hlen : (c.sealed f).length = 32 + (f.payload.length + 16) := by
    simp [sealed, hlaw.length_encrypt]
  have htake : (c.sealed f).take headerSize = f.header := by
    rw [sealed, headerSize, ← f.length_header, List.take_left]
  have hdrop : (c.sealed f).drop headerSize = c.crypto.encrypt c.tx (c.nonce f.header) f.payload f.header := by
    rw [sealed, headerSize, ← f.length_header, List.drop_left]
  have hnon : d.nonce f.header = c.nonce f.header := by rw [nonce, nonce, hcry]
  have hp := hf.payload
  have hfit := hf.fits
  unfold decode
  rw [if_neg (by rw [hlen, headerSize, tagBytes, hpay]; omega)]
  simp only [htake, hdrop, f.split_header, Frame.fields, ofBE_toBE_of_lt (w := 1) f.kind.code_lt, Kind.ofCode_code]
  rw [ofBE_toBE_of_lt (w := 8) hfit.stream, ofBE_toBE_of_lt (w := 8) hfit.message,
    ofBE_toBE_of_lt (w := 2) hfit.index, ofBE_toBE_of_lt (w := 2) hfit.count,
    ofBE_toBE_of_lt (w := 4) hfit.length]
  have h1 := hf.stream; have h2 := hf.count_pos; have h3 := hf.index
  rw [if_neg (by simp [ofBE_toBE, hlaw.length_encrypt, tagBytes]), if_neg (by omega),
    hcry, hkey, hnon, hlaw.decrypt_encrypt]
  show (if f.kind = .ack ∧ f.payload ≠ [] then _ else _) = _
  rw [if_neg (fun hc => hc.2 (hack hc.1))]

end Codec

end Shadow6.NetworkAdapter
