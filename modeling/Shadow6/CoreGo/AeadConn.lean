import Shadow6.Library.Aead
import Shadow6.Library.Framing

/-!
# `CoreGo.AeadConn` — the encrypted data connection

`aeadConn` of `Core-Go/data.go`: `Write`, `writeEOF`, `sealRecordLocked` and `Read`. A record is a length, a nonce and a
ciphertext; the nonce is the random prefix of its writer with a counter, and the reader takes it from the record. An
empty record ends the stream. Both ends of a connection use one key.

A `Read` that waits for bytes is taken to happen when they have arrived; `net.Conn` is the list of the pieces that have
arrived and are not read yet. The buffers `readFrame` and `writeFrame` only save allocations and are left out.
-/

namespace Shadow6.CoreGo

open Library List

def maxAEADPlaintext : Nat := 1024 * 1024

def aeadRecordPlaintext : Nat := 256 * 1024

/-- `aead.NonceSize()` of AES-GCM. -/
def nonceSize : Nat := 12

/-- `aead.Overhead()` of AES-GCM. -/
def overhead : Nat := 16

/-- `aeadConn`. -/
structure AeadConn where
  noncePrefix : Bytes
  length_noncePrefix : noncePrefix.length = 8
  sendCounter : Nat
  writeClosed : Bool
  decoded : Bytes
  readEOF : Bool

namespace AeadConn

/-- `newAEADConn(connection, key)` with the random prefix it has drawn. -/
def new (noncePrefix : Bytes) (h : noncePrefix.length = 8) : AeadConn := ⟨noncePrefix, h, 0, false, [], false⟩

/-! ## Writing -/

inductive WriteError where
  | closedPipe
  | tooLarge
  | nonceExhausted
  deriving DecidableEq

section

variable (C : Aead) (key : Bytes)

/-- A record of a plaintext: the length, the nonce and the ciphertext. -/
def record (nonce plaintext : Bytes) : Bytes := frame (nonce ++ C.encrypt key nonce [] plaintext)

variable (c : AeadConn)

/-- `sealRecordLocked(batch, plaintext)`: the record that is appended to the batch. -/
def sealRecordLocked (plaintext : Bytes) : AeadConn × Bytes :=
  let sendCounter := c.sendCounter + 1
  ({ c with sendCounter }, record C key (c.noncePrefix ++ toBE 4 sendCounter) plaintext)

/-- The records of a batch, one after another. -/
def sealRecords (c : AeadConn) : List Bytes → AeadConn × List Bytes
  | [] => (c, [])
  | plaintext :: rest =>
    let (c, bytes) := sealRecordLocked C key c plaintext
    let (c, records) := sealRecords c rest
    (c, bytes :: records)

/-- The pieces of at most `aeadRecordPlaintext` bytes that a batch is cut into. -/
def batch (plaintext : Bytes) : List Bytes :=
  (List.range (chunkCount plaintext.length aeadRecordPlaintext)).map (chunk aeadRecordPlaintext plaintext)

/-- `Write(plaintext)`: the records it hands to the connection, and what it returns. -/
def write (plaintext : Bytes) : AeadConn × List Bytes × Except WriteError Nat :=
  if c.writeClosed then (c, [], .error .closedPipe)
  else if plaintext = [] then (c, [], .ok 0)
  else if maxAEADPlaintext < plaintext.length then (c, [], .error .tooLarge)
  else if 2 ^ 32 - 1 ≤ c.sendCounter ∨ 2 ^ 32 - 1 - c.sendCounter < chunkCount plaintext.length aeadRecordPlaintext then
    (c, [], .error .nonceExhausted)
  else
    let (c, records) := sealRecords C key c (batch plaintext)
    (c, records, .ok plaintext.length)

/-- `writeFrameLocked(plaintext)`. -/
def writeFrameLocked (plaintext : Bytes) : AeadConn × List Bytes × Except WriteError Nat :=
  if 2 ^ 32 - 1 ≤ c.sendCounter then (c, [], .error .nonceExhausted)
  else
    let (c, bytes) := sealRecordLocked C key c plaintext
    (c, [bytes], .ok plaintext.length)

/-- `writeEOF()`. -/
def writeEOF : AeadConn × List Bytes × Except WriteError Nat :=
  if c.writeClosed then (c, [], .ok 0)
  else writeFrameLocked C key { c with writeClosed := true } []

/-! ## Reading -/

inductive ReadError where
  | invalidLength
  | authenticationFailed
  deriving DecidableEq

/-- What a `Read` returns, with the bytes it has put into its destination. -/
inductive ReadResult where
  | waits
  | count (bytes : Bytes)
  | eof
  | failed (e : ReadError)
  deriving DecidableEq

/-- The check on the length of a frame. -/
def admits (length : Nat) : Bool :=
  !decide (length < nonceSize + overhead) && !decide (maxAEADPlaintext + (nonceSize + overhead) < length)

/-- `Read` after a frame has been read. -/
def decode (ciphertext : Bytes) (size : Nat) : AeadConn × ReadResult :=
  match C.decrypt key (ciphertext.take nonceSize) [] (ciphertext.drop nonceSize) with
  | none => (c, .failed .authenticationFailed)
  | some plaintext =>
    if plaintext = [] then ({ c with readEOF := true }, .eof)
    -- directly into the destination
    else if ciphertext.length - (nonceSize + overhead) ≤ size then (c, .count plaintext)
    else ({ c with decoded := plaintext.drop size }, .count (plaintext.take size))

/-- `Read(destination)` for a destination of the given size. -/
def read (pieces : List Bytes) (size : Nat) : AeadConn × List Bytes × ReadResult :=
  if c.readEOF then (c, pieces, .eof)
  else if size = 0 then (c, pieces, .count [])
  else if c.decoded ≠ [] then ({ c with decoded := c.decoded.drop size }, pieces, .count (c.decoded.take size))
  else match readFrame admits pieces with
  | .waits => (c, pieces, .waits)
  | .refused rest => (c, rest, .failed .invalidLength)
  | .got ciphertext rest =>
    let (c, result) := decode C key c ciphertext size
    (c, rest, result)

end

/-! ## What is on the network -/

section

variable {C : Aead} {key : Bytes}

/-- A record of a plaintext under some nonce. -/
def Sealed (C : Aead) (key plaintext bytes : Bytes) : Prop :=
  ∃ nonce : Bytes, nonce.length = nonceSize ∧ bytes = record C key nonce plaintext

theorem sealRecordLocked_sealed (c : AeadConn) (p : Bytes) : Sealed C key p (sealRecordLocked C key c p).2 := by
  refine ⟨_, ?_, rfl⟩
  rw [length_append, c.length_noncePrefix, length_toBE]
  rfl

/-- Sealing changes the counter only. -/
structure SameStream (c c' : AeadConn) : Prop where
  writeClosed : c'.writeClosed = c.writeClosed
  decoded : c'.decoded = c.decoded
  readEOF : c'.readEOF = c.readEOF

theorem sealRecords_spec (ps : List Bytes) (c : AeadConn) :
    List.Forall₂ (Sealed C key) ps (sealRecords C key c ps).2 ∧
      SameStream c (sealRecords C key c ps).1 := by
  induction ps generalizing c with
  | nil => exact ⟨.nil, rfl, rfl, rfl⟩
  | cons p ps ih =>
    obtain ⟨hrs, hsm⟩ := ih (sealRecordLocked C key c p).1
    exact ⟨.cons (sealRecordLocked_sealed c p) hrs, hsm.writeClosed, hsm.decoded, hsm.readEOF⟩

theorem aeadRecordPlaintext_pos : 0 < aeadRecordPlaintext := by decide

theorem batch_flatten (plaintext : Bytes) : (batch plaintext).flatten = plaintext := by
  rw [batch, ← flatMap_def]
  exact flatMap_chunk aeadRecordPlaintext_pos plaintext

theorem mem_batch {pt p : Bytes} (h : p ∈ batch pt) : p ≠ [] ∧ p.length ≤ maxAEADPlaintext := by
  obtain ⟨i, hi, rfl⟩ := mem_map.mp h
  have hle : aeadRecordPlaintext ≤ maxAEADPlaintext := by decide
  exact ⟨chunk_ne_nil aeadRecordPlaintext_pos (mem_range.mp hi), (length_chunk_le _ _ _).trans hle⟩

/-- **What a `Write` puts on the network.** Nothing, or records of nonempty plaintexts that are together what was
    written. -/
theorem write_cases (C : Aead) (key : Bytes) (c : AeadConn) (p : Bytes) :
    SameStream c (write C key c p).1 ∧
    ((write C key c p).2.1 = [] ∧ (∀ n, (write C key c p).2.2 = .ok n → p = []) ∨
      c.writeClosed = false ∧ (write C key c p).2.2 = .ok p.length ∧
        List.Forall₂ (Sealed C key) (batch p) (write C key c p).2.1) := by
  have hsm : SameStream c c := ⟨rfl, rfl, rfl⟩
  unfold write
  split_ifs with hcl hnil hlarge hctr
  · exact ⟨hsm, .inl ⟨rfl, nofun⟩⟩
  · exact ⟨hsm, .inl ⟨rfl, fun _ _ => hnil⟩⟩
  · exact ⟨hsm, .inl ⟨rfl, nofun⟩⟩
  · exact ⟨hsm, .inl ⟨rfl, nofun⟩⟩
  obtain ⟨hseal, hstr⟩ := sealRecords_spec (C := C) (batch p) c
  generalize sealRecords C key c (batch p) = r at hseal hstr ⊢
  obtain ⟨c', records⟩ := r
  exact ⟨hstr, .inr ⟨by simpa using hcl, rfl, hseal⟩⟩

/-- What `writeEOF` puts on the network: nothing, or one empty record. -/
theorem writeEOF_cases (C : Aead) (key : Bytes) (c : AeadConn) :
    (writeEOF C key c).1.writeClosed = true ∧ (writeEOF C key c).1.decoded = c.decoded ∧
      (writeEOF C key c).1.readEOF = c.readEOF ∧ ((writeEOF C key c).2.1 = [] ∨
      c.writeClosed = false ∧ ∃ bytes, (writeEOF C key c).2.1 = [bytes] ∧ Sealed C key [] bytes) := by
  unfold writeEOF writeFrameLocked
  split_ifs with hcl hctr
  · exact ⟨hcl, rfl, rfl, .inl rfl⟩
  · exact ⟨rfl, rfl, rfl, .inl rfl⟩
  · exact ⟨rfl, rfl, rfl, .inr ⟨by simpa using hcl, _, rfl, sealRecordLocked_sealed _ _⟩⟩

/-! ## Reading a record back -/

theorem length_body (C : Aead) (key : Bytes) {non : Bytes} (h : non.length = nonceSize) (p : Bytes) :
    (non ++ C.encrypt key non [] p).length = p.length + (nonceSize + overhead) := by
  rw [length_append, C.length_encrypt, h]
  show nonceSize + (p.length + overhead) = p.length + (nonceSize + overhead)
  omega

/-- **What a `Read` does at a record.** If the stream goes on with a record, a `Read` that has nothing left over waits
    for the end of the record, or takes it off and returns its plaintext, the part that does not fit being left over. -/
theorem read_record {c : AeadConn} {ps : List Bytes} {sz : Nat} {p bs l m : Bytes}
    (heof : c.readEOF = false) (hsz : sz ≠ 0) (hdecd : c.decoded = [])
    (hseal : Sealed C key p bs) (hlen : p.length ≤ maxAEADPlaintext)
    (hstr : ps.flatten ++ l = bs ++ m) :
    (read C key c ps sz = (c, ps, .waits) ∧ ps.flatten.length < bs.length) ∨
    ∃ r, r.flatten ++ l = m ∧ read C key c ps sz =
      if p = [] then ({ c with readEOF := true }, r, .eof)
      else ({ c with decoded := p.drop sz }, r, .count (p.take sz)) := by
  obtain ⟨nonce, hnon, rfl⟩ := hseal
  have hbody := length_body C key hnon p
  have hadm : admits (nonce ++ C.encrypt key nonce [] p).length = true := by
    rw [hbody, admits, Bool.and_eq_true, Bool.not_eq_true', Bool.not_eq_true', decide_eq_false_iff_not,
      decide_eq_false_iff_not]
    omega
  have hlt : (nonce ++ C.encrypt key nonce [] p).length < 256 ^ 4 := by
    rw [hbody]
    have hmax : maxAEADPlaintext + (nonceSize + overhead) < 256 ^ 4 := by decide
    omega
  rw [read, if_neg (ne_true_of_eq_false heof), if_neg hsz, if_neg (not_not.mpr hdecd)]
  rcases readFrame_frame hlt hadm hstr with ⟨hwaits, hsh⟩ | ⟨rest, hgot, hrs⟩
  · rw [hwaits]
    exact .inl ⟨rfl, hsh⟩
  refine .inr ⟨rest, hrs, ?_⟩
  rw [hgot]
  dsimp only
  rw [decode, take_left' hnon, drop_left' hnon, C.decrypt_encrypt, length_body C key hnon, Nat.add_sub_cancel]
  dsimp only
  split_ifs with hnil hdir
  · rfl
  -- the direct path leaves nothing over, as the other one would
  · rw [take_of_length_le hdir, drop_of_length_le hdir, ← hdecd]
  · rfl

theorem read_writeClosed (c : AeadConn) (ps : List Bytes) (sz : Nat) :
    (read C key c ps sz).1.writeClosed = c.writeClosed := by
  have hdec : ∀ cp, (decode C key c cp sz).1.writeClosed = c.writeClosed := by
    intro cp
    unfold decode
    split
    · rfl
    · split_ifs <;> rfl
  unfold read
  split_ifs
  · rfl
  · rfl
  · rfl
  split
  · rfl
  · rfl
  · exact hdec _

/-- A `Read` waits at the end of the stream. -/
theorem read_empty {c : AeadConn} {ps : List Bytes} {sz : Nat} (heof : c.readEOF = false) (hsz : sz ≠ 0)
    (hdecd : c.decoded = []) (hstr : ps.flatten = []) : read C key c ps sz = (c, ps, .waits) := by
  rw [read, if_neg (ne_true_of_eq_false heof), if_neg hsz, if_neg (not_not.mpr hdecd), readFrame_empty hstr]

end

end AeadConn

end Shadow6.CoreGo
