import Shadow6.CoreGo.SignedFields

/-!
# `CoreZig.Signed` — the bytes that Core-Zig signs

`signed` of `Core-Zig/src/crypto.zig` measures its fields first, refuses a field of more than 65536 bytes, allocates
the result once and writes into it at a moving offset. What it leaves in the block is what `signedFields` of Core-Go
appends (`signed_eq`), whatever was in the block before.
-/

namespace Shadow6.CoreZig

open Library CoreGo List

inductive SignedError where
  | fieldTooLarge
  | outOfMemory
deriving DecidableEq, Repr

/-- `a.alloc(u8, len)`: a block of that length, with anything in it, or none. -/
abbrev Allocator := (len : Nat) → Option { out : Bytes // out.length = len }

/-- The first loop: the length of the result. -/
def measure (len : Nat) : List Bytes → Except SignedError Nat
  | [] => .ok len
  | f :: fields => if 65536 < f.length then .error .fieldTooLarge else measure (len + (4 + f.length)) fields

/-- `@memcpy(out[off..][0..f.len], f)`. -/
def put (out : Bytes) (off : Nat) (f : Bytes) : Bytes := out.take off ++ f ++ out.drop (off + f.length)

/-- The second loop. -/
def fill (out : Bytes) (off : Nat) : List Bytes → Bytes
  | [] => out
  | f :: fields => fill (put (put out off (toBE 4 f.length)) (off + 4) f) (off + 4 + f.length) fields

/-- `signed(a, domain, fields)`. -/
def signed (a : Allocator) (domain : Bytes) (fields : List Bytes) : Except SignedError Bytes :=
  match measure domain.length fields with
  | .error e => .error e
  | .ok len =>
    match a len with
    | none => .error .outOfMemory
    | some out => .ok (fill (put out.1 0 domain) domain.length fields)

/-! ## The loops -/

theorem measure_eq (len : Nat) (fields : List Bytes) (h : ∀ f ∈ fields, f.length ≤ 65536) :
    measure len fields = .ok (len + (frames fields).length) := by
  induction fields generalizing len with
  | nil => rfl
  | cons f fs ih =>
    rw [measure, if_neg (not_lt.mpr (h f mem_cons_self)), ih _ fun g hg => h g (mem_cons_of_mem _ hg),
      frames_cons, length_append, length_frame]
    congr 1
    omega

variable {fields : List Bytes}

theorem put_append (pre r f : Bytes) : put (pre ++ r) pre.length f = pre ++ f ++ r.drop f.length := by
  rw [put, take_left, drop_length_add_append]

/-- **The second loop appends the fields** to what stands before the offset. -/
theorem fill_eq {pre r : Bytes} (hroom : r.length = (frames fields).length) :
    fill (pre ++ r) pre.length fields = pre ++ frames fields := by
  induction fields generalizing pre r with
  | nil =>
    have hnil : r = [] := length_eq_zero_iff.mp hroom
    rw [fill, frames_nil, hnil]
  | cons f fs ih =>
    rw [frames_cons, length_append, length_frame] at hroom
    -- the length and the field are written, and the offset stands behind them
    have hleng : pre.length + 4 = (pre ++ toBE 4 f.length).length := by rw [length_append, length_toBE]
    have hoff : pre.length + 4 + f.length = (pre ++ toBE 4 f.length ++ f).length := by
      rw [length_append, ← hleng]
    rw [fill, put_append, length_toBE, hleng, put_append, ← hleng, hoff, ih, frames_cons, frame]
    · simp only [append_assoc]
    · rw [length_drop, length_drop]
      omega

/-- **`signed` and `signedFields` write the same bytes**, for any block the allocator returns. -/
theorem signed_eq (a : Allocator) (dom : Bytes) (fields : List Bytes) (h : ∀ f ∈ fields, f.length ≤ 65536) :
    signed a dom fields = .error .outOfMemory ∨ signed a dom fields = .ok (signedFields dom fields) := by
  rw [signed, measure_eq _ _ h]
  dsimp only
  cases hblock : a (dom.length + (frames fields).length) with
  | none => exact .inl rfl
  | some out =>
    obtain ⟨out, hlen⟩ := out
    refine .inr ?_
    dsimp only
    have hst : put out 0 dom = dom ++ out.drop dom.length := by
      rw [put, take_zero, nil_append, zero_add]
    rw [hst, fill_eq, signedFields_eq]
    rw [length_drop, hlen]
    omega

/-- The allocator has memory for everything. -/
def Allocator.Ample (a : Allocator) : Prop := ∀ len, (a len).isSome = true

theorem signed_of_ample {a : Allocator} (ha : a.Ample) (dom : Bytes) (fields : List Field) :
    signed a dom (contents fields) = .ok (signedFields dom (contents fields)) := by
  have hbnd : ∀ f ∈ contents fields, f.length ≤ 65536 :=
    forall_mem_map.mpr fun fd _ => fd.2
  rcases signed_eq a dom (contents fields) hbnd with hmem | hok
  · -- the only failure that is left is the allocation
    rw [signed, measure_eq _ _ hbnd] at hmem
    dsimp only at hmem
    obtain ⟨out, hout⟩ := Option.isSome_iff_exists.mp (ha (dom.length + (frames (contents fields)).length))
    rw [hout] at hmem
    cases hmem
  · exact hok

/-! ## Separation -/

/-- The signature of `m`: an adversary cannot make it verify for other bytes. -/
def SignatureOf (scheme : SignatureScheme) (pub : Bytes) (m : Message) (signature : Bytes) : Prop :=
  ∀ payload, scheme.verify pub payload signature = true → payload = m.payload

/-- **Signed fields are separated.** The bytes of `signedFields` determine the domain and the fields; Core-Zig's
    `signed` writes the same bytes; and the signature of a message verifies for no message of another type or with
    other fields. -/
theorem signed_fields_separated :
    (Function.Injective fun p : Domain × List Field => signedFields p.1.bytes (contents p.2)) ∧
    (∀ (a : Allocator) (domain : Bytes) (fields : List Field), a.Ample →
      signed a domain (contents fields) = .ok (signedFields domain (contents fields))) ∧
    ∀ (scheme : SignatureScheme) (pub signature : Bytes) (m m' : Message), SignatureOf scheme pub m signature →
      scheme.verify pub m'.payload signature = true → m'.domain = m.domain ∧ m'.fields = m.fields := by
  refine ⟨signedFields_injective, fun a domain fields ha => signed_of_ample ha domain fields, ?_⟩
  intro scheme pub signature m m' hsignature hverify
  exact Message.of_payload (hsignature m'.payload hverify)

/-- A challenge with its answer. -/
def sampleMessage : Message := .auth ⟨[97], by decide⟩ ⟨[1, 2, 3], by decide⟩

/-- A scheme that has one signature for the sample and another one for everything else. -/
def sampleScheme : SignatureScheme where
  publicKey := fun _ => replicate 32 0
  sign := fun _ message => if message = sampleMessage.payload then replicate 64 0 else replicate 64 1
  verify := fun _ message signature =>
    decide (signature = if message = sampleMessage.payload then replicate 64 0 else replicate 64 1)
  verify_sign := by simp
  length_publicKey := by simp
  length_sign := by
    intro _ message
    split_ifs <;> rfl

theorem sampleScheme_signature : SignatureOf sampleScheme [] sampleMessage (replicate 64 0) := by
  intro payload hver
  by_contra hne
  simp [sampleScheme, hne] at hver

theorem signed_fields_separated_sample :
    signed (fun len => some ⟨replicate len 0, length_replicate⟩) Domain.lpdOffer.bytes (contents sampleMessage.fields)
      = .ok (signedFields Domain.lpdOffer.bytes (contents sampleMessage.fields)) ∧
    sampleMessage.domain = sampleMessage.domain ∧ sampleMessage.fields = sampleMessage.fields :=
  ⟨signed_fields_separated.2.1 _ _ _ fun _ => rfl,
    signed_fields_separated.2.2 sampleScheme [] (replicate 64 0) sampleMessage sampleMessage sampleScheme_signature
      (by simp [sampleScheme])⟩

end Shadow6.CoreZig
