import Shadow6.Library.Bytes

/-!
# `CoreAda.Cells` — fixed-size cells

`Encode`, `Finish` and `Accept_Cell` of `Core-Ada/src/cells.adb`. A message of at most 16384 bytes is cut into
fragments of 476 bytes, and each fragment travels in a cell of 488 bytes: version, kind, count, message id, fragment
number and number of fragments in the first twelve bytes, then the data, then noise. The receiver puts the fragments
together again. It takes cells in one order only, and any cell that does not fit poisons it for good.

The receiver's buffer is kept as the bytes written into it; `S.Used` is their number. Positions in a cell are those of
the source, from 1.
-/

namespace Shadow6.CoreAda

open Library List

/-- `Payload_Size`. -/
def payloadSize : Nat := 476

/-- `Serial'Last`. -/
def serialLast : Nat := 2147483646

/-- `Phase`. -/
inductive Phase where
  | ready
  | receiving
  | closed
  | failed
deriving DecidableEq, Repr

/-- `Receiver`. -/
structure Receiver where
  mode : Phase
  sequence : Nat
  messageId : Nat
  nextPart : Nat
  parts : Nat
  buffer : Bytes
deriving DecidableEq

open Receiver

variable (s : Receiver)

/-- `Valid(S)`. -/
def Receiver.Valid : Prop :=
  (s.mode = .ready → s.buffer = [] ∧ s.nextPart = 0) ∧
    (s.mode = .receiving → (2 ≤ s.parts ∧ s.parts ≤ 35) ∧ (1 ≤ s.nextPart ∧ s.nextPart < s.parts) ∧
      s.buffer.length = s.nextPart * payloadSize)

/-- `S.Mode := Failed`. -/
def Receiver.poison : Receiver := { s with mode := .failed }

/-- `Parts_For(N)`. -/
def partsFor (n : Nat) : Nat := if n = 0 then 1 else (n - 1) / payloadSize + 1

/-! ## Writing and reading cells -/

/-- `Put16(C, P, V)`, the two bytes. -/
def put16 (v : Nat) : Bytes := [UInt8.ofNat (v / 256), UInt8.ofNat (v % 256)]

/-- The four bytes of a message id. -/
def putId (id : Nat) : Bytes :=
  [UInt8.ofNat (id / 16777216), UInt8.ofNat (id / 65536 % 256), UInt8.ofNat (id / 256 % 256), UInt8.ofNat (id % 256)]

/-- The first twelve bytes of a cell. -/
def cellHeader (kind : UInt8) (count id part parts : Nat) : Bytes :=
  [1, kind] ++ put16 count ++ putId id ++ put16 part ++ put16 parts

/-- `Encode(Data, N, Id, Part, Noise, Cell)`. -/
def encode (data : Bytes) (id part : Nat) (noise : Bytes) : Bytes :=
  let payload := chunk payloadSize data part
  cellHeader 0 payload.length id part (partsFor data.length) ++ payload ++ noise.drop (12 + payload.length)

/-- `Finish(Cell, Noise)`. -/
def finish (noise : Bytes) : Bytes := [1, 1, 0, 0, 0, 0, 0, 0, 0, 0, 0, 0] ++ noise.drop 12

/-- `Cell(P)`. -/
def byteAt (cell : Bytes) (p : Nat) : Nat := (cell.getD (p - 1) 0).toNat

/-- `U16(C, P)`. -/
def u16 (cell : Bytes) (p : Nat) : Nat := byteAt cell p * 256 + byteAt cell (p + 1)

/-- `Wide`. -/
def readId (cell : Bytes) : Nat :=
  byteAt cell 5 * 16777216 + byteAt cell 6 * 65536 + byteAt cell 7 * 256 + byteAt cell 8

/-! ## `Accept_Cell` -/

/-- The cell cannot be looked at: it is not authentic, out of order, or the session is over. -/
def Receiver.unusable (cell : Bytes) (sequence : Nat) (authenticated : Bool) : Bool :=
  !authenticated || s.mode == .closed || s.mode == .failed || sequence != s.sequence || s.sequence == serialLast ||
    s.messageId == serialLast || byteAt cell 1 != 1

/-- The fields of a data cell are out of range. -/
def malformed (cell : Bytes) : Bool :=
  byteAt cell 2 != 0 || decide (127 < byteAt cell 5) || !decide (1 ≤ u16 cell 3 ∧ u16 cell 3 ≤ payloadSize) ||
    !decide (1 ≤ u16 cell 11 ∧ u16 cell 11 ≤ 35) || decide (u16 cell 11 ≤ u16 cell 9) ||
    decide (u16 cell 9 + 1 < u16 cell 11 ∧ u16 cell 3 ≠ payloadSize) || decide (serialLast < readId cell)

/-- The fragment is not the one expected. -/
def Receiver.unexpected (cell : Bytes) : Bool :=
  readId cell != s.messageId || u16 cell 9 != s.nextPart || (s.mode == .receiving && u16 cell 11 != s.parts) ||
    decide (16384 - s.buffer.length < u16 cell 3)

/-- A fragment is taken. The last one releases the message. -/
def Receiver.take (s : Receiver) (cell : Bytes) : Receiver × Bytes :=
  let buffer := s.buffer ++ (cell.drop 12).take (u16 cell 3)
  if u16 cell 9 + 1 = u16 cell 11 then (⟨.ready, s.sequence + 1, s.messageId + 1, 0, 0, []⟩, buffer)
  else (⟨.receiving, s.sequence + 1, s.messageId, u16 cell 9 + 1, u16 cell 11, buffer⟩, [])

/-- `Accept_Cell(S, Cell, Sequence, Authenticated, Output, N)`: the state and the `N` bytes of output. -/
def Receiver.acceptCell (cell : Bytes) (sequence : Nat) (authenticated : Bool) : Receiver × Bytes :=
  if s.unusable cell sequence authenticated then (s.poison, [])
  else if byteAt cell 2 = 1 then
    if s.mode ≠ .ready ∨ ((cell.drop 2).take 10).any (· ≠ 0) then (s.poison, [])
    else ({ s with mode := .closed, sequence := s.sequence + 1 }, [])
  else if malformed cell then (s.poison, [])
  else if s.unexpected cell then (s.poison, [])
  else s.take cell

/-! ## The contract -/

/-- A fragment that the receiver takes. -/
structure Receiver.Fits (s : Receiver) (cell : Bytes) : Prop where
  usable : s.mode = .ready ∨ s.mode = .receiving
  countPos : 1 ≤ u16 cell 3
  countLe : u16 cell 3 ≤ payloadSize
  partsLe : u16 cell 11 ≤ 35
  partLt : u16 cell 9 < u16 cell 11
  full : u16 cell 9 + 1 < u16 cell 11 → u16 cell 3 = payloadSize
  part : u16 cell 9 = s.nextPart
  parts : s.mode = .receiving → u16 cell 11 = s.parts

/-- **What `Accept_Cell` does**: it poisons, closes, or takes a fragment that fits. -/
theorem acceptCell_cases (cl : Bytes) (sq : Nat) (au : Bool) :
    s.acceptCell cl sq au = (s.poison, []) ∨ (au = true ∧ s.mode = .ready ∧
      s.acceptCell cl sq au = ({ s with mode := .closed, sequence := s.sequence + 1 }, [])) ∨
    (au = true ∧ s.Fits cl ∧ s.acceptCell cl sq au = s.take cl) := by
  unfold acceptCell
  cases hunus : s.unusable cl sq au with
  | true => exact .inl rfl
  | false =>
    simp only [unusable, Bool.or_eq_false_iff, Bool.not_eq_false', beq_eq_false_iff_ne] at hunus
    obtain ⟨⟨⟨⟨⟨⟨hauth, hcl⟩, hfail⟩, -⟩, -⟩, -⟩, -⟩ := hunus
    rw [if_neg Bool.false_ne_true]
    split_ifs with hkd hrdy hmal hunex
    · exact .inl rfl
    · push Not at hrdy
      exact .inr (.inl ⟨hauth, hrdy.1, rfl⟩)
    · exact .inl rfl
    · exact .inl rfl
    refine .inr (.inr ⟨hauth, ?_, rfl⟩)
    simp [malformed] at hmal
    simp [unexpected] at hunex
    constructor
    · cases hmode : s.mode with
      | ready => exact .inl rfl
      | receiving => exact .inr rfl
      | closed => exact absurd hmode hcl
      | failed => exact absurd hmode hfail
    all_goals grind

theorem length_fragment {cl : Bytes} (hcell : cl.length = 488) (hcount : u16 cl 3 ≤ payloadSize) :
    ((cl.drop 12).take (u16 cl 3)).length = u16 cl 3 := by
  unfold payloadSize at hcount
  rw [length_take, length_drop]
  omega

variable {s : Receiver}

theorem take_valid (h : s.Valid) {cl : Bytes} (hcell : cl.length = 488) (hfits : s.Fits cl) :
    (s.take cl).1.Valid := by
  unfold Receiver.take
  split_ifs with hlast
  · exact ⟨fun _ => ⟨rfl, rfl⟩, nofun⟩
  refine ⟨nofun, fun _ => ?_⟩
  have hlt := hfits.partLt
  have hused : s.buffer.length = s.nextPart * payloadSize := by
    rcases hfits.usable with hrdy | hrcv
    · rw [(h.1 hrdy).1, (h.1 hrdy).2, length_nil, zero_mul]
    · exact (h.2 hrcv).2.2
  dsimp only
  refine ⟨⟨by omega, hfits.partsLe⟩, ⟨by omega, by omega⟩, ?_⟩
  rw [length_append, length_fragment hcell hfits.countLe, hfits.full (by omega), hused, hfits.part, Nat.succ_mul]

/-- **The contract of `Accept_Cell`.** A valid receiver stays valid; a cell that is not authentic poisons it; output
    comes only with a ready receiver and an authentic cell; the sequence does not go back. -/
theorem acceptCell_contract (h : s.Valid) {cl : Bytes} (hcell : cl.length = 488) (sq : Nat)
    (au : Bool) : (s.acceptCell cl sq au).1.Valid ∧
    (au = false → (s.acceptCell cl sq au).1.mode = .failed) ∧
    ((s.acceptCell cl sq au).2 ≠ [] →
      (s.acceptCell cl sq au).1.mode = .ready ∧ au = true) ∧
    s.sequence ≤ (s.acceptCell cl sq au).1.sequence := by
  rcases acceptCell_cases s cl sq au with hpois | ⟨hauth, -, hcls⟩ | ⟨hauth, hfits, htake⟩
  · rw [hpois]
    exact ⟨⟨nofun, nofun⟩, fun _ => rfl, fun hne => absurd rfl hne, le_refl _⟩
  · rw [hcls]
    exact ⟨⟨nofun, nofun⟩, by simp [hauth], fun hne => absurd rfl hne, Nat.le_succ _⟩
  rw [htake]
  refine ⟨take_valid h hcell hfits, by simp [hauth], ?_, ?_⟩
  · unfold Receiver.take
    split_ifs with hlast
    · exact fun _ => ⟨rfl, hauth⟩
    · exact fun hne => absurd rfl hne
  · unfold Receiver.take
    split_ifs <;> exact Nat.le_succ _

/-! ## A cell that was encoded -/

theorem u16_put16 {v : Nat} (hv : v < 65536) : (UInt8.ofNat (v / 256)).toNat * 256 + (UInt8.ofNat (v % 256)).toNat = v := by
  simp only [UInt8.toNat_ofNat']
  omega

section

variable {data no : Bytes} {id part : Nat}

theorem partsFor_eq (hdt : 0 < data.length) : partsFor data.length = chunkCount data.length payloadSize := by
  unfold partsFor chunkCount payloadSize
  rw [if_neg (by omega)]
  omega

theorem partsFor_pos (n : Nat) : 0 < partsFor n := by
  unfold partsFor
  split_ifs
  · exact Nat.one_pos
  · exact Nat.succ_pos _

theorem partsFor_le {n : Nat} (hn : n ≤ 16384) : partsFor n ≤ 35 := by
  unfold partsFor payloadSize
  split_ifs <;> omega

section

variable (data ns : Bytes) (id part : Nat)

theorem u16_encode_count : u16 (encode data id part ns) 3 = (chunk payloadSize data part).length := by
  have hle : (chunk payloadSize data part).length ≤ 476 := length_chunk_le payloadSize data part
  exact u16_put16 (by omega)

theorem u16_encode_part (hpart : part < 65536) : u16 (encode data id part ns) 9 = part := u16_put16 hpart

theorem u16_encode_parts (hdt : data.length ≤ 16384) : u16 (encode data id part ns) 11 = partsFor data.length := by
  have hle := partsFor_le hdt
  exact u16_put16 (by omega)

theorem byteAt_encode_five (hid : id < serialLast) : byteAt (encode data id part ns) 5 ≤ 127 := by
  have hbyte : byteAt (encode data id part ns) 5 = (UInt8.ofNat (id / 16777216)).toNat := rfl
  unfold serialLast at hid
  rw [hbyte, UInt8.toNat_ofNat']
  omega

theorem readId_encode (hid : id < serialLast) : readId (encode data id part ns) = id := by
  unfold serialLast at hid
  show (UInt8.ofNat _).toNat * 16777216 + (UInt8.ofNat _).toNat * 65536 + (UInt8.ofNat _).toNat * 256 +
    (UInt8.ofNat _).toNat = id
  simp only [UInt8.toNat_ofNat']
  omega

theorem fragment_encode :
    ((encode data id part ns).drop 12).take (u16 (encode data id part ns) 3) = chunk payloadSize data part := by
  rw [u16_encode_count]
  have hdrop : (encode data id part ns).drop 12
      = chunk payloadSize data part ++ ns.drop (12 + (chunk payloadSize data part).length) := rfl
  rw [hdrop, take_left]

end

theorem length_chunk_full (hpart : part + 1 < partsFor data.length) : (chunk payloadSize data part).length = payloadSize := by
  unfold partsFor at hpart
  split_ifs at hpart
  · omega
  simp only [chunk, length_take, length_drop]
  unfold payloadSize at *
  omega

theorem length_chunk_pos (hdt : 0 < data.length) (hpart : part < partsFor data.length) :
    1 ≤ (chunk payloadSize data part).length := by
  rw [partsFor_eq hdt] at hpart
  exact length_pos_of_ne_nil (chunk_ne_nil (by decide) hpart)

/-- The receiver has taken the first fragments of a message and expects the next one. -/
structure Receiver.Expects (s : Receiver) (data : Bytes) (id part : Nat) : Prop where
  mode : s.mode = if part = 0 then .ready else .receiving
  sequence : s.sequence < serialLast
  messageId : s.messageId = id
  nextPart : s.nextPart = part
  parts : part ≠ 0 → s.parts = partsFor data.length
  buffer : s.buffer = data.take (part * payloadSize)

/-- The state after a fragment. -/
def Receiver.advanced (s : Receiver) (data : Bytes) (part : Nat) : Receiver × Bytes :=
  if part + 1 = partsFor data.length then (⟨.ready, s.sequence + 1, s.messageId + 1, 0, 0, []⟩, data)
  else (⟨.receiving, s.sequence + 1, s.messageId, part + 1, partsFor data.length, data.take ((part + 1) * payloadSize)⟩, [])

/-- **The expected fragment is taken**, and the last one releases the message. -/
theorem acceptCell_encode (h : s.Expects data id part) (hid : id < serialLast) (hpos : 0 < data.length)
    (hmax : data.length ≤ 16384) (hpart : part < partsFor data.length) :
    s.acceptCell (encode data id part no) s.sequence true = s.advanced data part := by
  have hps := partsFor_le hmax
  have hcoun := length_chunk_pos hpos hpart
  have hcnt := length_chunk_le payloadSize data part
  have hfive := byteAt_encode_five data no id part hid
  have hpart9 : u16 (encode data id part no) 9 = part := u16_encode_part data no id part (by omega)
  have hfits : s.buffer.length + (chunk payloadSize data part).length ≤ data.length := by
    rw [h.buffer]
    simp only [chunk, length_take, length_drop]
    omega
  have hmode : s.mode = .ready ∨ s.mode = .receiving := by
    rw [h.mode]
    split_ifs
    · exact .inl rfl
    · exact .inr rfl
  have husab : s.unusable (encode data id part no) s.sequence true = false := by
    have hseq := ne_of_lt h.sequence
    have hmsg := ne_of_lt hid
    have hone : byteAt (encode data id part no) 1 = 1 := rfl
    rcases hmode with hmode | hmode <;> simp [unusable, hmode, hseq, h.messageId, hmsg, hone]
  have hfor : malformed (encode data id part no) = false := by
    have htwo : byteAt (encode data id part no) 2 = 0 := rfl
    have hfull : part + 1 < partsFor data.length → (chunk payloadSize data part).length = payloadSize := length_chunk_full
    have hone : 1 ≤ partsFor data.length := by omega
    simp [malformed, htwo, hfive, hpart9, u16_encode_count, u16_encode_parts data no id part hmax,
      readId_encode data no id part hid, hcoun, hcnt, hone, hps, hpart, le_of_lt hid]
    exact hfull
  have hexp : s.unexpected (encode data id part no) = false := by
    have hsm : s.mode = .receiving → partsFor data.length = s.parts := by
      intro hrcv
      have hne : part ≠ 0 := by
        rintro rfl
        rw [h.mode] at hrcv
        cases hrcv
      exact (h.parts hne).symm
    have hroom : (chunk payloadSize data part).length ≤ 16384 - s.buffer.length := by omega
    simp [unexpected, hpart9, u16_encode_count, u16_encode_parts data no id part hmax,
      readId_encode data no id part hid, h.messageId, h.nextPart, hroom]
    exact hsm
  have hjoin : s.buffer ++ chunk payloadSize data part = data.take ((part + 1) * payloadSize) := by
    rw [h.buffer, chunk, Nat.succ_mul, take_add]
  have hcov : data.length ≤ partsFor data.length * payloadSize := by
    unfold partsFor payloadSize
    rw [if_neg (by omega)]
    omega
  have hkd : byteAt (encode data id part no) 2 ≠ 1 := by
    show (0 : Nat) ≠ 1
    decide
  rw [acceptCell, husab, if_neg Bool.false_ne_true, if_neg hkd, hfor, if_neg Bool.false_ne_true,
    hexp, if_neg Bool.false_ne_true, Receiver.take, Receiver.advanced, hpart9, u16_encode_parts data no id part hmax,
    fragment_encode]
  rw [hjoin]
  split_ifs with hlast
  · rw [hlast, take_of_length_le hcov]
  · rfl

/-- A ready receiver closes at the end. -/
theorem acceptCell_finish (hmode : s.mode = .ready) (hseq : s.sequence < serialLast) (hid : s.messageId < serialLast) :
    s.acceptCell (finish no) s.sequence true = ({ s with mode := .closed, sequence := s.sequence + 1 }, []) := by
  have husab : s.unusable (finish no) s.sequence true = false := by
    have hone : byteAt (finish no) 1 = 1 := rfl
    simp [unusable, hmode, ne_of_lt hseq, ne_of_lt hid, hone]
  have hkd : byteAt (finish no) 2 = 1 := rfl
  have hzeros : ((finish no).drop 2).take 10 = List.replicate 10 0 := rfl
  rw [acceptCell, husab, if_neg Bool.false_ne_true, if_pos hkd, hzeros, if_neg]
  simp [hmode]

/-- A poisoned receiver stays poisoned and releases nothing. -/
theorem acceptCell_poisoned (h : s.mode = .closed ∨ s.mode = .failed) (cl : Bytes) (sq : Nat)
    (au : Bool) : s.acceptCell cl sq au = (s.poison, []) := by
  have hunus : s.unusable cl sq au = true := by
    rcases h with h | h <;> simp [unusable, h]
  rw [acceptCell, hunus, if_pos rfl]

theorem acceptCell_forged (s : Receiver) (cl : Bytes) (sq : Nat) : s.acceptCell cl sq false = (s.poison, []) := by
  rfl

end

/-! ## A session -/

/-- `Plain_Cell`. -/
abbrev PlainCell := {cell : Bytes // cell.length = 488}

/-- The receiver and its last output after some cells, each with its sequence and the verifier's verdict. -/
def received (cells : List (PlainCell × Nat × Bool)) : Receiver × Bytes :=
  cells.foldl (fun r c => r.1.acceptCell c.1.val c.2.1 c.2.2) (⟨.ready, 0, 0, 0, 0, []⟩, [])

/-- **The contract over a session.** A receiver that has not failed has seen authentic cells only, and one that
    releases a message is ready again. -/
theorem session_contract (cells : List (PlainCell × Nat × Bool)) : (received cells).1.Valid ∧
    ((received cells).1.mode ≠ .failed → ∀ c ∈ cells, c.2.2 = true) ∧
    ((received cells).2 ≠ [] → (received cells).1.mode = .ready) := by
  induction cells using reverseRecOn with
  | nil => exact ⟨⟨fun _ => ⟨rfl, rfl⟩, nofun⟩, fun _ => nofun, fun hne => absurd rfl hne⟩
  | append_singleton cells c ih =>
    obtain ⟨hval, hauth, -⟩ := ih
    obtain ⟨hnext, hforged, hout, -⟩ := acceptCell_contract hval c.1.property c.2.1 c.2.2
    rw [received, foldl_append]
    refine ⟨hnext, fun hmode => ?_, fun hne => (hout hne).1⟩
    rw [forall_mem_append, forall_mem_singleton]
    refine ⟨hauth fun hfail => hmode ?_, Bool.eq_true_of_not_eq_false fun hau => hmode (hforged hau)⟩
    -- a failure is for good
    exact congrArg (·.1.mode) (acceptCell_poisoned (.inr hfail) ..)

end Shadow6.CoreAda
