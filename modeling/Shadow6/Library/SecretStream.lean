import Shadow6.Library.Bytes

/-!
# `Library.SecretStream` — a stream of encrypted records over a byte carrier

A secret stream encrypts records with tags in an order that the receiver must follow: the states of the two ends are
*paired*, a record pushed at one end is pulled at the other one, and the states are paired again. A ciphertext is 17
bytes longer than its record. On a byte carrier each ciphertext has its length in front of it (`framed`).

`stream` is what a sender puts on the carrier for a list of records. A receiver that has read some bytes of a stream
knows what they are: four bytes are the length of the next ciphertext (`stream_header`), and as many bytes as this
after them are the ciphertext (`stream_cipher`).
-/

namespace Library

open List

structure SecretStream (τ : Type) where
  Push : Type
  Pull : Type
  push : Push → (ad plain : Bytes) → τ → Bytes × Push
  pull : Pull → (ad cipher : Bytes) → Option ((Bytes × τ) × Pull)
  Paired : Push → Pull → Prop
  pull_push : ∀ s r ad plain tag, Paired s r →
    ∃ r', pull r ad (push s ad plain tag).1 = some ((plain, tag), r') ∧ Paired (push s ad plain tag).2 r'
  length_push : ∀ s ad plain tag, (push s ad plain tag).1.length = plain.length + 17

/-- A stream that a model can be run with: a record in the clear behind its tag and its number. -/
def SecretStream.numbered {τ : Type} (code : τ → UInt8) (decode : UInt8 → Option τ)
    (decode_code : ∀ tag, decode (code tag) = some tag) : SecretStream τ where
  Push := Nat
  Pull := Nat
  push n _ plain tag := (code tag :: (toBE 16 n ++ plain), n + 1)
  pull n _ cipher :=
    if cipher.tail.take 16 = toBE 16 n then
      (cipher.head?.bind decode).map fun tag => ((cipher.tail.drop 16, tag), n + 1)
    else none
  Paired := Eq
  pull_push := by
    rintro n _ ad plain tag rfl
    have htake : (toBE 16 n ++ plain).take 16 = toBE 16 n := take_left' (length_toBE 16 n)
    have hdrop : (toBE 16 n ++ plain).drop 16 = plain := drop_left' (length_toBE 16 n)
    exact ⟨n + 1, by simp [htake, hdrop, decode_code], rfl⟩
  length_push := by
    intro n ad plain tag
    rw [length_cons, length_append, length_toBE]
    omega

/-- A ciphertext with its length in front. -/
def framed (cipher : Bytes) : Bytes := toBE 4 cipher.length ++ cipher

namespace SecretStream

variable {τ : Type} (C : SecretStream τ) (ad : Bytes)

/-- The state after some records. -/
def pushed (s : C.Push) : List (Bytes × τ) → C.Push
  | [] => s
  | f :: fs => pushed (C.push s ad f.1 f.2).2 fs

/-- The bytes of some records on the carrier. -/
def stream (s : C.Push) : List (Bytes × τ) → Bytes
  | [] => []
  | f :: fs => framed (C.push s ad f.1 f.2).1 ++ stream (C.push s ad f.1 f.2).2 fs

variable {C ad} {s : C.Push} {fs gs : List (Bytes × τ)}

theorem pushed_append : C.pushed ad s (fs ++ gs) = C.pushed ad (C.pushed ad s fs) gs := by
  induction fs generalizing s with
  | nil => rfl
  | cons f fs ih => exact ih

theorem stream_append : C.stream ad s (fs ++ gs) = C.stream ad s fs ++ C.stream ad (C.pushed ad s fs) gs := by
  induction fs generalizing s with
  | nil => rfl
  | cons f fs ih =>
    show framed (C.push s ad f.1 f.2).1 ++ C.stream ad _ (fs ++ gs) = _
    rw [ih, ← append_assoc]
    rfl

theorem take_eq_of_prefix {x y z : Bytes} (h : x ++ y <+: z) : z.take x.length = x := by
  obtain ⟨t, rfl⟩ := h
  rw [append_assoc]
  exact take_left

/-- **Four bytes at the front of a stream are the length of the next ciphertext.** -/
theorem stream_header {header r : Bytes} (h : header ++ r <+: C.stream ad s fs) (hlen : header.length = 4) :
    ∃ f gs, fs = f :: gs ∧ header = toBE 4 (C.push s ad f.1 f.2).1.length ∧
      r <+: (C.push s ad f.1 f.2).1 ++ C.stream ad (C.push s ad f.1 f.2).2 gs := by
  cases fs with
  | nil =>
    have hnil : header ++ r = [] := prefix_nil.mp h
    rw [(append_eq_nil_iff.mp hnil).1] at hlen
    cases hlen
  | cons f gs =>
    have hshape : C.stream ad s (f :: gs) = toBE 4 (C.push s ad f.1 f.2).1.length ++
        ((C.push s ad f.1 f.2).1 ++ C.stream ad (C.push s ad f.1 f.2).2 gs) := append_assoc _ _ _
    have hhdr : header = toBE 4 (C.push s ad f.1 f.2).1.length := by
      rw [← take_eq_of_prefix h, hlen, hshape, ← length_toBE 4 (C.push s ad f.1 f.2).1.length]
      exact take_left
    refine ⟨f, gs, rfl, hhdr, ?_⟩
    rw [hshape, hhdr] at h
    exact (prefix_append_right_inj _).mp h

/-- The bytes after it are the ciphertext when there are as many as its length says. -/
theorem stream_cipher {body cipher rest : Bytes} (h : body <+: cipher ++ rest) (hlen : body.length = cipher.length) :
    body = cipher := by
  obtain ⟨t, ht⟩ := h
  exact (append_inj ht hlen).1

end SecretStream

end Library
