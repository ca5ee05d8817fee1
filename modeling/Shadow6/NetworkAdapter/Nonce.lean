import Shadow6.NetworkAdapter.Runs

/-!
# `NetworkAdapter.Nonce` — one plaintext per header

The nonce of a record is a hash of its header, so the cipher is safe only if a header is never built for
two different plaintexts. `DATA` and `EXTENSION` headers carry a message number of the adapter's own
counter; `ACK` headers echo the peer's numbers but seal the empty plaintext. `OneTime` is the invariant:
message numbers in sealed records have been handed out, and a queue is past every chunk it has sealed.
-/

namespace Shadow6.NetworkAdapter

open Library ReliableAdapter Setup

variable {τ : Type}

/-- Records sealed so far, against the counters and the queues. -/
structure OneTime (S : Setup τ) (a : ReliableAdapter τ) : Prop where
  admits : ∀ f ∈ a.encoded, S.codec.Admits f
  ack : ∀ f ∈ a.encoded, f.kind = .ack → f.payload = []
  numbered : ∀ f ∈ a.encoded, f.kind ≠ .ack → f.message < a.nextMessage f.stream
  past : ∀ f ∈ a.encoded, f.kind = .data → ∀ item ∈ a.queues f.stream, item.message = f.message →
    f.index < item.index
  unique : ∀ f ∈ a.encoded, ∀ g ∈ a.encoded, f.header = g.header → f.payload = g.payload

section

variable {S : Setup τ} {a b : ReliableAdapter τ}

theorem OneTime.init : OneTime S S.init := by
  refine ⟨?_, ?_, ?_, ?_, ?_⟩ <;> simp [Setup.init]

/-- Steps that seal nothing: counters may grow and queues may lose items. -/
theorem OneTime.mono (h : OneTime S a) (henc : b.encoded = a.encoded) (hnx : ∀ s, a.nextMessage s ≤ b.nextMessage s)
    (hqs : ∀ s, ∀ item ∈ b.queues s, item ∈ a.queues s ∨ item.message = a.nextMessage s) : OneTime S b := by
  refine ⟨?_, ?_, ?_, ?_, ?_⟩
  · rw [henc]; exact h.admits
  · rw [henc]; exact h.ack
  · intro f hf hk
    rw [henc] at hf
    exact lt_of_lt_of_le (h.numbered f hf hk) (hnx f.stream)
  · intro f hf hk item hit heq
    rw [henc] at hf
    rcases hqs f.stream item hit with hold | hnew
    · exact h.past f hf hk item hold heq
    -- the number of a new message is in no sealed record
    have hlt := h.numbered f hf (by rw [hk]; decide)
    rw [← heq, hnew] at hlt
    exact absurd hlt (lt_irrefl _)
  · rw [henc]; exact h.unique

/-- A step that seals one record. Its header must be new, or its plaintext the old one; the queues may
    only have moved on. -/
theorem OneTime.seal {f : Frame} (h : OneTime S a) (henc : b.encoded = f :: a.encoded)
    (hnx : ∀ s, a.nextMessage s ≤ b.nextMessage s) (hqs : ∀ s, ∀ item ∈ b.queues s, ∃ old ∈ a.queues s,
      old.message = item.message ∧ old.index ≤ item.index)
    (hadm : S.codec.Admits f) (hack : f.kind = .ack → f.payload = [])
    (hnum : f.kind ≠ .ack → f.message < b.nextMessage f.stream)
    (hpast : f.kind = .data → ∀ item ∈ b.queues f.stream, item.message = f.message → f.index < item.index)
    (hnew : ∀ g ∈ a.encoded, g.kind = f.kind → g.stream = f.stream → g.message = f.message →
      g.index = f.index → g.payload = f.payload) : OneTime S b := by
  have hspl : ∀ g ∈ b.encoded, g = f ∨ g ∈ a.encoded := fun g hg => List.mem_cons.mp (henc ▸ hg)
  have hhdr : ∀ g ∈ a.encoded, g.header = f.header → g.payload = f.payload := by
    intro g hg heq
    obtain ⟨hk, hs, hm, hi, -, -⟩ := header_injective (h.admits g hg).fits hadm.fits heq
    exact hnew g hg hk hs hm hi
  refine ⟨?_, ?_, ?_, ?_, ?_⟩
  · intro g hg
    rcases hspl g hg with rfl | hold
    · exact hadm
    · exact h.admits g hold
  · intro g hg
    rcases hspl g hg with rfl | hold
    · exact hack
    · exact h.ack g hold
  · intro g hg hk
    rcases hspl g hg with rfl | hold
    · exact hnum hk
    · exact lt_of_lt_of_le (h.numbered g hold hk) (hnx g.stream)
  · intro g hg hk item hit heq
    rcases hspl g hg with rfl | hold
    · exact hpast hk item hit heq
    · obtain ⟨old, hmem, hmsg, hidx⟩ := hqs g.stream item hit
      exact lt_of_lt_of_le (h.past g hold hk old hmem (hmsg.trans heq)) hidx
  intro g hg g' hg' heq
  rcases hspl g hg with rfl | hold
  · rcases hspl g' hg' with rfl | hold'
    · rfl
    · exact (hhdr g' hold' heq.symm).symm
  rcases hspl g' hg' with rfl | hold'
  · exact hhdr g hold heq
  · exact h.unique g hold g' hold' heq

theorem OneTime.transmit {now : τ} {stream : Nat} {rest : List Nat} {item : Item} {it : List Item}
    (h : OneTime S a) (hs : Sending S a) (hqu : a.queues stream = item :: it)
    (hadm : S.codec.Admits (chunkFrame S stream item)) : OneTime S (a.transmitted S now stream rest item it) := by
  have hit : item ∈ a.queues stream := hqu ▸ List.mem_cons_self
  obtain ⟨-, hidx, -, hout⟩ := hs.queued stream item hit
  have hord := hs.ordered stream
  rw [hqu, List.pairwise_cons] at hord
  refine h.seal rfl (fun _ => le_refl _) ?_ hadm (fun hk => by cases hk) (fun _ => (hs.numbered _ hout).1) ?_ ?_
  · intro s x hx
    rcases mem_transmitted hqu hidx hx with ⟨rfl, rfl, -⟩ | ⟨hx, -⟩
    · exact ⟨item, hit, rfl, Nat.le_succ _⟩
    · exact ⟨x, hx, rfl, le_refl _⟩
  · intro _ x hx heq
    rcases mem_transmitted hqu hidx hx with ⟨-, rfl, -⟩ | ⟨-, hmem⟩
    · exact Nat.lt_succ_self _
    · exact absurd heq (ne_of_gt (hord.1 x (hmem rfl)))
  · intro g hg hk hst hm hi
    -- an old chunk with this index would not be behind the queue
    have hlt := h.past g hg hk item (hst ▸ hit) hm.symm
    rw [hi] at hlt
    exact absurd hlt (lt_irrefl _)

theorem OneTime.noteAck {f : Frame} (h : OneTime S a) (hadm : S.codec.Admits (ackFrame f)) :
    OneTime S (a.note (ackFrame f)) :=
  h.seal rfl (fun _ => le_refl _) (fun _ item hit => ⟨item, hit, rfl, le_refl _⟩) hadm
    (fun _ => rfl) (fun hk => absurd rfl hk) (fun hk => by cases hk) fun g hg hk _ _ _ => h.ack g hg hk

theorem OneTime.extend {stream : Nat} {p : Bytes} (h : OneTime S a)
    (hadm : S.codec.Admits (extensionFrame stream (a.nextMessage stream) p)) :
    OneTime S ((a.reserve stream).note (extensionFrame stream (a.nextMessage stream) p)) := by
  refine h.seal rfl (le_reserve stream) (fun _ item hit => ⟨item, hit, rfl, le_refl _⟩) hadm
    (fun hk => by cases hk) ?_ (fun hk => by cases hk) ?_
  · intro _
    show a.nextMessage stream < Function.update a.nextMessage stream (a.nextMessage stream + 1) stream
    rw [Function.update_self]
    exact Nat.lt_succ_self _
  · intro g hg hk hst hm _
    -- no sealed record has the number the counter is about to hand out
    have hlt := h.numbered g hg (by rw [hk]; simp [extensionFrame])
    rw [hst, hm] at hlt
    exact absurd hlt (lt_irrefl _)

theorem OneTime.step {n : Note} (hacc : Accounted S a) (h : OneTime S a) (hstep : Step S a n b) : OneTime S b := by
  have hkeep : ∀ s, ∀ item ∈ a.queues s, item ∈ a.queues s ∨ item.message = a.nextMessage s :=
    fun _ _ hit => .inl hit
  cases hstep with
  | @accept stream data _ _ _ _ _ _ =>
    refine h.mono rfl (fun s => ?_) fun s item hit => ?_
    · by_cases hs : s = stream <;> simp [enqueue, hs]
    · rcases mem_enqueue hit with hit | ⟨rfl, rfl⟩
      · exact .inl hit
      · exact .inr rfl
  | transmit _ _ _ hqu hadm => exact h.transmit hacc.sending hqu hadm
  | reserve _ _ _ => exact h.mono rfl (le_reserve _) hkeep
  | extend _ _ hadm => exact h.extend hadm
  | noteAck hadm => exact h.noteAck hadm
  | @acknowledge now key p o _ _ _ =>
    obtain ⟨_, _, _, heq⟩ := acknowledged_eq S now key p o a
    rw [heq]
    exact h.mono rfl (fun _ => le_refl _) hkeep
  | again _ _ | duplicate _ _ _ => exact h
  | event _ _ _ =>
    obtain ⟨c, o, heq⟩ := remember_eq a _
    rw [heq]
    exact h.mono rfl (fun _ => le_refl _) hkeep
  | absorb _ _ _ | expire _ | resend _ => exact h.mono rfl (fun _ => le_refl _) hkeep
  | @deliver now f =>
    obtain ⟨_, _, _, heq⟩ := delivered_eq S now f a
    rw [heq]
    exact h.mono rfl (fun _ => le_refl _) hkeep
  | close =>
    unfold ReliableAdapter.close
    split_ifs
    · exact h
    · exact h.mono rfl (fun _ => le_refl _) fun _ _ hit => absurd hit List.not_mem_nil

/-- **Nonce discipline.** In every run, records with the same header have the same plaintext; so a nonce
    is used for one plaintext only, as long as the hash does not collide on the headers of the run. -/
theorem run_one_plaintext (S : Setup τ) (ops : List (Op τ)) :
    (∀ f ∈ (S.run S.init ops).encoded, ∀ g ∈ (S.run S.init ops).encoded,
      f.header = g.header → f.payload = g.payload) ∧
    (Set.InjOn S.codec.nonce {h | ∃ f ∈ (S.run S.init ops).encoded, f.header = h} →
      ∀ f ∈ (S.run S.init ops).encoded, ∀ g ∈ (S.run S.init ops).encoded,
        S.codec.nonce f.header = S.codec.nonce g.header → f.payload = g.payload) := by
  have h : OneTime S (S.run S.init ops) := run_invariant OneTime.init OneTime.step ops
  refine ⟨h.unique, ?_⟩
  intro hinj f hf g hg hnonce
  exact h.unique f hf g hg (hinj ⟨f, hf, rfl⟩ ⟨g, hg, rfl⟩ hnonce)

end

/-- Two messages sent and a record of the peer acknowledged. -/
def smallTraffic : List (Op ℚ) :=
  [.send 0 (List.replicate 65 1) 0, .send 1 [2, 3] 1,
    .receive ((small 1).codec.sealed
      { kind := .data, stream := 0, message := 0, index := 0, count := 1, payload := [4] }) 2]

def smallEncoded : List Frame := ((small 0).run (small 0).init smallTraffic).encoded

/-- The hypothesis of the second part is met by a run that seals chunks and an acknowledgement. -/
theorem run_one_plaintext_small : (smallEncoded.map Frame.kind = [.ack, .data, .data, .data]) ∧
    Set.InjOn (small 0).codec.nonce {h | ∃ f ∈ smallEncoded, f.header = h} ∧
    ∀ f ∈ smallEncoded, ∀ g ∈ smallEncoded,
        (small 0).codec.nonce f.header = (small 0).codec.nonce g.header → f.payload = g.payload := by
  have hdistinct : ∀ f ∈ smallEncoded, ∀ g ∈ smallEncoded,
      (small 0).codec.nonce f.header = (small 0).codec.nonce g.header → f.header = g.header := by
    decide +kernel
  have hinj : Set.InjOn (small 0).codec.nonce {h | ∃ f ∈ smallEncoded, f.header = h} := by
    rintro _ ⟨f, hf, rfl⟩ _ ⟨g, hg, rfl⟩ heq
    exact hdistinct f hf g hg heq
  exact ⟨by decide +kernel, hinj, (run_one_plaintext (small 0) smallTraffic).2 hinj⟩

end Shadow6.NetworkAdapter
