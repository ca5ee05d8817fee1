import Mathlib.Tactic

/-!
# `Library.Bytes` — big-endian integers and fixed-size chunks

Two things every wire format needs. `toBE`/`ofBE` write and read an unsigned integer in network byte
order (the round trip is exact below `256 ^ width`, so two fields that fit are equal when their bytes
are). `chunk` cuts a buffer into pieces of a fixed size; joined in order the pieces are the buffer again.
-/

namespace Library

open List

/-- A byte string. -/
abbrev Bytes := List UInt8

/-! ## Big-endian integers -/

/-- The `w` low-order bytes of `n`, most significant first. -/
def toBE : Nat → Nat → Bytes
  | 0, _ => []
  | w + 1, n => UInt8.ofNat (n / 256 ^ w) :: toBE w n

/-- The unsigned value of a big-endian byte string. -/
def ofBE (bs : Bytes) : Nat := bs.foldl (fun acc b => acc * 256 + b.toNat) 0

@[simp] theorem length_toBE (w n : Nat) : (toBE w n).length = w := by
  induction w with
  | zero => rfl
  | succ w ih => simp [toBE, ih]

theorem foldl_toBE (w n acc : Nat) :
    (toBE w n).foldl (fun acc b => acc * 256 + b.toNat) acc = acc * 256 ^ w + n % 256 ^ w := by
  induction w generalizing acc with
  | zero => simp [toBE, Nat.mod_one]
  | succ w ih =>
    have hbyte : (UInt8.ofNat (n / 256 ^ w)).toNat = n / 256 ^ w % 256 := by simp
    simp only [toBE, foldl_cons, ih, hbyte, Nat.mod_pow_succ]
    ring

theorem toBE_add (a b n : Nat) : toBE (a + b) n = toBE a (n / 256 ^ b) ++ toBE b n := by
  induction a with
  | zero => simp [toBE]
  | succ a ih =>
    rw [Nat.succ_add, toBE, toBE, ih, cons_append, Nat.div_div_eq_div_mul, ← Nat.pow_add, add_comm b a]

theorem ofBE_toBE (w n : Nat) : ofBE (toBE w n) = n % 256 ^ w := by
  simp [ofBE, foldl_toBE]

theorem ofBE_toBE_of_lt {w n : Nat} (h : n < 256 ^ w) : ofBE (toBE w n) = n := by
  rw [ofBE_toBE, Nat.mod_eq_of_lt h]

theorem foldl_ofBE_lt (bs : Bytes) (acc : Nat) :
    bs.foldl (fun acc b => acc * 256 + b.toNat) acc < (acc + 1) * 256 ^ bs.length := by
  induction bs generalizing acc with
  | nil => simp
  | cons b bs ih =>
    have hb : b.toNat < 256 := b.toNat_lt
    calc bs.foldl (fun acc b => acc * 256 + b.toNat) (acc * 256 + b.toNat)
        < (acc * 256 + b.toNat + 1) * 256 ^ bs.length := ih _
      _ ≤ (acc + 1) * 256 * 256 ^ bs.length := Nat.mul_le_mul_right _ (by omega)
      _ = (acc + 1) * 256 ^ (b :: bs).length := by rw [length_cons]; ring

theorem ofBE_lt (bs : Bytes) : ofBE bs < 256 ^ bs.length := by
  simpa [ofBE] using foldl_ofBE_lt bs 0

/-! ## Records of fixed-width fields -/

/-- Cut a byte string into fields of the given widths; what is left over is dropped. -/
def splitWidths : List Nat → Bytes → List Bytes
  | [], _ => []
  | w :: ws, bs => bs.take w :: splitWidths ws (bs.drop w)

/-- Cutting a concatenation at the widths of its parts gives the parts back. -/
theorem splitWidths_flatten (parts : List Bytes) : splitWidths (parts.map length) parts.flatten = parts := by
  induction parts with
  | nil => rfl
  | cons b bs ih =>
    simp only [map_cons, flatten_cons, splitWidths, take_left, drop_left, ih]

/-! ## Fixed-size chunks -/

variable {α : Type*}

/-- Number of chunks of size `p` in a buffer of `n` elements (`⌈n / p⌉`). -/
def chunkCount (n p : Nat) : Nat := (n + p - 1) / p

/-- The `i`-th chunk of size `p`. -/
def chunk (p : Nat) (data : List α) (i : Nat) : List α := (data.drop (i * p)).take p

theorem length_chunk_le (p : Nat) (dt : List α) (i : Nat) : (chunk p dt i).length ≤ p := by
  simp [chunk]

/-- The number of chunks is reached exactly when the buffer is exhausted. -/
theorem lt_chunkCount_iff {n p i : Nat} (hp : 0 < p) : i < chunkCount n p ↔ i * p < n := by
  unfold chunkCount
  rw [Nat.lt_iff_add_one_le, Nat.le_div_iff_mul_le hp, Nat.succ_mul]
  omega

theorem chunk_ne_nil {p : Nat} {dt : List α} {i : Nat} (hp : 0 < p)
    (hi : i < chunkCount dt.length p) : chunk p dt i ≠ [] := by
  have hlt := (lt_chunkCount_iff hp).mp hi
  intro h
  have hlen : (chunk p dt i).length = 0 := by rw [h]; rfl
  simp only [chunk, length_take, length_drop] at hlen
  omega

theorem flatMap_chunk_range (p : Nat) (dt : List α) (k : Nat) : (range k).flatMap (chunk p dt) = dt.take (k * p) := by
  induction k with
  | zero => simp
  | succ k ih => rw [range_succ, flatMap_append, ih, Nat.succ_mul, take_add]; simp [chunk]

/-- **The chunks of a buffer, joined in order, are the buffer.** -/
theorem flatMap_chunk {p : Nat} (hp : 0 < p) (data : List α) :
    (range (chunkCount data.length p)).flatMap (chunk p data) = data := by
  rw [flatMap_chunk_range, take_of_length_le]
  by_contra hlt
  exact absurd ((lt_chunkCount_iff hp).mpr (Nat.lt_of_not_le hlt)) (Nat.lt_irrefl _)

/-- Lists of blocks of one width are prefixes of one another if their concatenations are, up to part of a block. -/
theorem prefix_of_flatten_prefix {p : Nat} {ws cs : List (List α)} {r : List α} (hws : ∀ w ∈ ws, w.length = p)
    (hcs : ∀ c ∈ cs, c.length = p) (hrest : r.length < p) (h : ws.flatten <+: cs.flatten ++ r) : ws <+: cs := by
  induction ws generalizing cs with
  | nil => exact nil_prefix
  | cons w ws ih =>
    have hw := hws w mem_cons_self
    cases cs with
    | nil =>
      have hlength := h.length_le
      simp only [flatten_cons, flatten_nil, nil_append, length_append] at hlength
      omega
    | cons c cs =>
      obtain ⟨t, ht⟩ := h
      rw [flatten_cons, flatten_cons, append_assoc, append_assoc] at ht
      obtain ⟨rfl, hmore⟩ := append_inj ht (hw.trans (hcs c mem_cons_self).symm)
      rw [prefix_cons_inj]
      exact ih (fun v hv => hws v (mem_cons_of_mem _ hv)) (fun d hd => hcs d (mem_cons_of_mem _ hd)) ⟨t, hmore⟩

theorem chunkCount_pos {n p : Nat} (hp : 0 < p) (hn : 0 < n) : 0 < chunkCount n p :=
  (lt_chunkCount_iff hp).mpr (by omega)

end Library
