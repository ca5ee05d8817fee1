import Shadow6.Library.Bytes
import Shadow6.Library.Slots

/-!
# `CoreHare.Receive` — the receive queue of Core-Hare

The receive path of `runtime` in `Core-Hare/src/runtime.ha`, for frames that authenticate. The length of a frame is
checked before its domain: 65535 marks an acknowledgement, and it is admitted for data too. If no data frame has it,
every slice lies in its array (`slices_within`); a data frame that has it ends the process (`marked_data_aborts`).
-/

namespace Shadow6.CoreHare

open Library Function Slots List

structure Frame where
  nonce : Bytes
  plain : Bytes
  nonce_length : nonce.length = 12
  plain_length : plain.length = 980

structure Queued where
  sequence : Nat
  size : Nat
  plain : Bytes
  nonce : Bytes

/-- The receiving side; a slot without a sequence is empty. -/
structure Receiver where
  expected : Nat
  queued : Slots 256 Queued

def start : Receiver := ⟨1, fun _ => none⟩

/-- `nonce_number`. -/
def nonceNumber (counter : Bytes) (domain : UInt8) : Nat :=
  if counter.take 4 = [domain, 0, 0, 0] then ofBE (counter.drop 4) else 0

/-- `array[from .. to]`; `none` is the abort of a slice that is out of bounds. -/
def slice (array : Bytes) (start stop : Nat) : Option Bytes :=
  if stop ≤ array.length then some ((array.take stop).drop start) else none

/-- `packet[32]` says what the frame is: 0 for data. -/
def Frame.isData (f : Frame) : Bool := f.nonce.head? = some 0

def Frame.payloadLen (f : Frame) : Nat := ofBE (f.plain.take 2)

/-- The loop that delivers; `sent` is what `send_application` returns for a record. The process ends if an
    acknowledgement cannot be sent. -/
def drain (sent : Nat → Bool) : Nat → Receiver → Option Receiver
  | 0, r => some r
  | n + 1, r =>
    match r.queued (slotOf 256 r.expected) with
    | none => some r
    | some q =>
      if q.sequence ≠ r.expected then some r
      else if 250880 < r.expected % 256 * 980 + q.size then none
      else if !sent r.expected then some r
      else drain sent n ⟨r.expected + 1, update r.queued (slotOf 256 r.expected) none⟩

/-- A frame. Acknowledgements change the sending side only. -/
def receive (sent : Nat → Bool) (r : Receiver) (f : Frame) : Option Receiver :=
  let seq := nonceNumber f.nonce 0
  if 978 < f.payloadLen ∧ f.payloadLen ≠ 65535 then some r
  else if !f.isData then some r
  else if seq = 0 ∨ seq < r.expected ∨ 256 ≤ seq - r.expected then some r
  else
    match r.queued (slotOf 256 seq) with
    | some q => if q.sequence ≠ seq then some r else drain sent 256 r
    | none =>
      (slice f.plain 2 (2 + f.payloadLen)).bind fun payload =>
        if 250880 < seq % 256 * 980 + f.payloadLen then none
        else drain sent 256 ⟨r.expected, update r.queued (slotOf 256 seq) (some ⟨seq, f.payloadLen, payload, f.nonce⟩)⟩

structure Bounded (r : Receiver) : Prop where
  windowed : Windowed Queued.sequence r.expected r.queued
  size_le : ∀ i q, r.queued i = some q → q.size ≤ 978

theorem Bounded.update {r : Receiver} (h : Bounded r) {next : Nat} {i : Fin 256} {q : Option Queued}
    (hw : Windowed Queued.sequence next (update r.queued i q)) (hq : ∀ x ∈ q, x.size ≤ 978) :
    Bounded ⟨next, Function.update r.queued i q⟩ :=
  ⟨hw, (forall_update_iff r.queued fun _ q => ∀ x, q = some x → x.size ≤ 978).mpr ⟨hq, fun j _ => h.size_le j⟩⟩

/-- The slice of a slot that holds at most 978 bytes. -/
theorem slot_fits {seq size : Nat} (h : size ≤ 978) : ¬ 250880 < seq % 256 * 980 + size := by omega

theorem Bounded.drain (sent : Nat → Bool) {n : Nat} {r : Receiver} (h : Bounded r) :
    ∃ r', CoreHare.drain sent n r = some r' ∧ Bounded r' := by
  induction n generalizing r with
  | zero => exact ⟨r, rfl, h⟩
  | succ n ih =>
    rw [CoreHare.drain]
    split
    · exact ⟨r, rfl, h⟩
    rename_i q hq
    rw [if_neg (slot_fits (h.size_le _ q hq))]
    split_ifs
    · exact ⟨r, rfl, h⟩
    · exact ⟨r, rfl, h⟩
    · exact ih (h.update h.windowed.take nofun)

theorem Bounded.receive (sent : Nat → Bool) {r : Receiver} (h : Bounded r) {f : Frame}
    (hf : f.isData = true → f.payloadLen ≠ 65535) : ∃ r', CoreHare.receive sent r f = some r' ∧ Bounded r' := by
  unfold CoreHare.receive
  generalize nonceNumber f.nonce 0 = seq
  dsimp only
  split
  · exact ⟨r, rfl, h⟩
  split
  · exact ⟨r, rfl, h⟩
  split
  · exact ⟨r, rfl, h⟩
  rename_i hlong hdata hwindow
  have hlen : f.payloadLen ≤ 978 := by
    have := hf (by simpa using hdata)
    omega
  split
  · split_ifs
    · exact ⟨r, rfl, h⟩
    · exact h.drain sent
  · have hfit : 2 + f.payloadLen ≤ f.plain.length := by have := f.plain_length; omega
    rw [slice, if_pos hfit, Option.bind_some, if_neg (slot_fits hlen)]
    apply Bounded.drain
    have hseq : r.expected ≤ seq ∧ seq < r.expected + 256 := by omega
    refine h.update (h.windowed.put (x := ⟨seq, _, _, _⟩) hseq.1 hseq.2) ?_
    rintro x ⟨⟩
    exact hlen

/-- The main loop over the frames that arrive, each with what the sends of its turn return. -/
def run (frames : List ((Nat → Bool) × Frame)) : Option Receiver := frames.foldlM (fun r f => receive f.1 r f.2) start

/-- **Every slice lies in its array**, if no data frame has the length 65535, and what is queued is in the window and in
    its slot. -/
theorem slices_within (frames : List ((Nat → Bool) × Frame))
    (h : ∀ f ∈ frames, f.2.isData = true → f.2.payloadLen ≠ 65535) :
    ∃ r, run frames = some r ∧ ∀ i q, r.queued i = some q →
      q.sequence % 256 = i ∧ r.expected ≤ q.sequence ∧ q.sequence < r.expected + 256 ∧ q.size ≤ 978 := by
  suffices hb : ∀ s, Bounded s → ∃ r, frames.foldlM (fun r f => receive f.1 r f.2) s = some r ∧ Bounded r by
    obtain ⟨r, hr, hbound⟩ := hb start ⟨.empty, nofun⟩
    refine ⟨r, hr, fun i q hq => ?_⟩
    obtain ⟨rfl, hlow, hhigh⟩ := hbound.windowed i q hq
    exact ⟨rfl, hlow, hhigh, hbound.size_le _ q hq⟩
  induction frames with
  | nil => exact fun s hs => ⟨s, rfl, hs⟩
  | cons f frames ih =>
    intro s hs
    rw [forall_mem_cons] at h
    obtain ⟨r, hr, hbound⟩ := hs.receive f.1 h.1
    rw [foldlM_cons, hr]
    exact ih h.2 r hbound

def sampleFrame (domain number high low : UInt8) : Frame :=
  ⟨domain :: replicate 10 0 ++ [number], high :: low :: replicate 978 0, rfl,
    by rw [length_cons, length_cons, length_replicate]⟩

/-- The first record is delivered; the third and the fourth wait for the second. An acknowledgement comes between them. -/
def outOfOrder : List ((Nat → Bool) × Frame) :=
  [(fun _ => true, sampleFrame 0 1 0 9), (fun _ => true, sampleFrame 0 4 3 210), (fun _ => true, sampleFrame 1 1 255 255),
    (fun _ => true, sampleFrame 0 3 0 5)]

theorem slices_within_out_of_order :
    (run outOfOrder).map (fun r => (r.expected, (r.queued 2).isSome, (r.queued 3).map Queued.size,
      (r.queued 4).map Queued.size)) = some (2, false, some 5, some 978) ∧
    ∃ r, run outOfOrder = some r ∧ ∀ i q, r.queued i = some q →
      q.sequence % 256 = i ∧ r.expected ≤ q.sequence ∧ q.sequence < r.expected + 256 ∧ q.size ≤ 978 :=
  ⟨by decide +kernel, slices_within _ (by decide +kernel)⟩

/-- **A data frame with the length of an acknowledgement** makes the process abort. -/
theorem marked_data_aborts : run [(fun _ => true, sampleFrame 0 1 255 255)] = none := by decide +kernel

end Shadow6.CoreHare
