import Shadow6.Library.Bytes

/-!
# `C11Relay.Codec` — the data-saving framing

`rle_encode`, `rle_decode` and `transform_packet` of `C11Relay/c11relay.c`. A frame starts with a marker: 1 for a list of
runs, each a count and a byte, or 0 for the datagram itself, which is sent where the runs would take more room.
-/

namespace Shadow6.C11Relay

open Library List

variable (input : Bytes) (capacity : Nat)

/-- A run is written behind `output` if the frame stays within `capacity` and gains on the raw form. -/
def writeRun (output : Bytes) (count : Nat) (b : UInt8) : Option Bytes :=
  if output.length + 2 > input.length + 1 ∨ output.length + 2 > capacity then none
  else some (output ++ [UInt8.ofNat count, b])

/-- The loop of `rle_encode` inside a run of `count` bytes `b`, with the bytes that are left. -/
def encodeLoop (output : Bytes) (count : Nat) (b : UInt8) : Bytes → Option Bytes
  | [] => writeRun input capacity output count b
  | c :: rest =>
    if b = c ∧ count < 255 then encodeLoop output (count + 1) b rest
    else (writeRun input capacity output count b).bind fun output => encodeLoop output 1 c rest

def rleEncode : Option Bytes :=
  if input.length ≥ capacity then none
  else match input with
  | [] => some [0]
  | b :: rest => some ((encodeLoop input capacity [1] 1 b rest).getD (0 :: input))

/-- The loop of `rle_decode`. -/
def decodeLoop (output : Bytes) : Bytes → Option Bytes
  | count :: b :: rest =>
    if count = 0 ∨ count.toNat > capacity - output.length then none
    else decodeLoop (output ++ replicate count.toNat b) rest
  | _ => some output

def rleDecode : Option Bytes :=
  match input with
  | [] => none
  | marker :: body =>
    if marker = 0 then if body.length > capacity then none else some body
    else if marker ≠ 1 ∨ body.length % 2 ≠ 0 then none
    else (decodeLoop capacity [] body).filter fun output => 0 < output.length

inductive RelayMode where
  | normal
  | dataSaving
  | highSpeed
deriving DecidableEq

/-- `RelayConfig`, as far as `transform_packet` reads it. -/
structure RelayConfig where
  mode : RelayMode
  framingBack : Bool

/-- `datagram_limit`, for IPv6 and for IPv4. -/
def datagramLimit (inet6 : Bool) : Nat := if inet6 then 65527 else 65507

def transformPacket (config : RelayConfig) (fromClient : Bool) : Option Bytes :=
  if config.mode ≠ .dataSaving then if input.length ≤ capacity then some input else none
  else if fromClient ≠ config.framingBack then rleEncode input capacity
  else rleDecode input capacity

variable {input capacity} {o out : Bytes} {count : Nat} {b : UInt8}

theorem writeRun_eq_some (h : writeRun input capacity o count b = some out) :
    out = o ++ [UInt8.ofNat count, b] ∧ out.length ≤ input.length + 1 ∧ out.length ≤ capacity := by
  unfold writeRun at h
  split at h
  · cases h
  · cases h
    simp only [length_append, length_cons, length_nil, true_and]
    omega

theorem decodeLoop_run {room : Nat} {done : Bytes} (hpos : 0 < count) (hmax : count ≤ 255)
    (hroom : done.length + count ≤ room) (rest : Bytes) :
    decodeLoop room done (UInt8.ofNat count :: b :: rest) = decodeLoop room (done ++ replicate count b) rest := by
  have hnat : (UInt8.ofNat count).toNat = count := UInt8.toNat_ofNat_of_lt' (Nat.lt_succ_of_le hmax)
  have hzero : UInt8.ofNat count ≠ 0 := fun h => by simp [h] at hnat; omega
  rw [decodeLoop, hnat, if_neg (by simp only [hzero, false_or]; omega)]

/-- **What the loop writes** decodes to what it has read. -/
theorem encodeLoop_decodes {rest : Bytes} (hpos : 0 < count) (hmax : count ≤ 255)
    (h : encodeLoop input capacity o count b rest = some out) :
    ∃ runs, out = o ++ runs ∧ out.length ≤ input.length + 1 ∧ out.length ≤ capacity ∧ runs.length % 2 = 0 ∧
      ∀ room done, done.length + count + rest.length ≤ room →
        decodeLoop room done runs = some (done ++ replicate count b ++ rest) := by
  induction rest generalizing o count b with
  | nil =>
    obtain ⟨hout, hlen, hcap⟩ := writeRun_eq_some h
    refine ⟨_, hout, hlen, hcap, by simp, fun room done hroom => ?_⟩
    rw [decodeLoop_run hpos hmax hroom, append_nil]
    rfl
  | cons c rest ih =>
    unfold encodeLoop at h
    split at h
    · rename_i hc
      obtain ⟨rfl, hlt⟩ := hc
      obtain ⟨runs, hout, hlen, hcap, heven, hruns⟩ := ih (Nat.succ_pos _) hlt h
      refine ⟨runs, hout, hlen, hcap, heven, fun room done hroom => ?_⟩
      rw [hruns room done (by simp only [length_cons] at hroom; omega), replicate_succ']
      simp
    · obtain ⟨output', hwrite, h⟩ := Option.bind_eq_some_iff.mp h
      obtain ⟨rfl, -⟩ := writeRun_eq_some hwrite
      obtain ⟨runs, hout, hlen, hcap, heven, hruns⟩ := ih one_pos (by decide) h
      refine ⟨UInt8.ofNat count :: b :: runs, by simp [hout], hlen, hcap, ?_, fun room done hroom => ?_⟩
      · simp only [length_cons]
        omega
      simp only [length_cons] at hroom
      rw [decodeLoop_run hpos hmax (by omega), hruns _ _ (by simp only [length_append, length_replicate]; omega)]
      simp

theorem rleEncode_decodes {en : Bytes} (h : rleEncode input capacity = some en) :
    input.length < capacity ∧ en.length ≤ input.length + 1 ∧ en.length ≤ capacity ∧
      ∀ room, input.length ≤ room → rleDecode en room = some input := by
  unfold rleEncode at h
  split at h
  · cases h
  rename_i hroom
  refine ⟨not_le.mp hroom, ?_⟩
  cases input with
  | nil =>
    cases h
    exact ⟨le_rfl, not_le.mp hroom, fun _ _ => rfl⟩
  | cons b r =>
    cases h
    cases hloop : encodeLoop (b :: r) capacity [1] 1 b r with
    | none =>
      refine ⟨le_rfl, not_le.mp hroom, fun room hle => ?_⟩
      exact if_neg (not_lt.mpr hle)
    | some out =>
      obtain ⟨runs, rfl, hlen, hcap, heven, hruns⟩ := encodeLoop_decodes one_pos (by decide) hloop
      refine ⟨hlen, hcap, fun room hle => ?_⟩
      have hdone := hruns room [] (by simpa [add_comm] using hle)
      simp [rleDecode, heven, hdone]

/-- **What is framed is recovered**: a frame is at most one byte longer than its input, fits in the capacity and decodes
    to the input. So of two relays, one in front and one in the back, the second returns what the first has accepted, in
    each mode and direction; `back` says whether the first is the one in the back. -/
theorem datagrams_recovered : (∀ (input : Bytes) (capacity : Nat) (encoded : Bytes),
      rleEncode input capacity = some encoded → encoded.length ≤ input.length + 1 ∧ encoded.length ≤ capacity ∧
        ∀ room, input.length ≤ room → rleDecode encoded room = some input) ∧
    ∀ (mode : RelayMode) (inet6 back : Bool) (datagram wire : Bytes),
      transformPacket datagram (datagramLimit inet6) ⟨mode, back⟩ (!back) = some wire →
        transformPacket wire (datagramLimit inet6) ⟨mode, !back⟩ (!back) = some datagram := by
  refine ⟨fun input capacity encoded h => (rleEncode_decodes h).2, ?_⟩
  intro mode inet6 back datagram wire h
  unfold transformPacket at h ⊢
  split at h
  · rename_i hmode
    rw [if_pos hmode]
    split at h
    · cases h
      exact if_pos ‹_›
    · cases h
  · rename_i hmode
    rw [if_neg hmode, if_neg (by simp)]
    rw [if_pos (by simp)] at h
    obtain ⟨hsize, -, -, hdecode⟩ := rleEncode_decodes h
    exact hdecode _ hsize.le

theorem datagrams_recovered_run : rleEncode [7, 7, 7, 7] 9 = some [1, 4, 7] ∧ rleDecode [1, 4, 7] 4 = some [7, 7, 7, 7] :=
  ⟨rfl, (datagrams_recovered.1 _ 9 _ rfl).2.2 4 le_rfl⟩

end Shadow6.C11Relay
