import Shadow6.NetworkAdapter.Runs

/-!
# `NetworkAdapter.History` — what an adapter has sent and received

The notes of a run are its history. On the sending side, `Numbering` ties every chunk that was put on the
wire to the message it was cut from, and `Tracking` says where each chunk of an accepted message is: in
the queue, in flight, or acknowledged. On the receiving side, `Assembled` says that reassembly holds
chunks of one message only, given that the confirmed frames come from such a sender, and `Kept` that a
confirmed chunk is not forgotten before its message is delivered.
-/

namespace Shadow6.NetworkAdapter

open Library ReliableAdapter List Function Dict ReliableAdapter

variable {τ : Type}

/-! ## Histories -/

section

variable {S : Setup τ} {a b : ReliableAdapter τ}

/-- An invariant of history and state that every step preserves is preserved by a sequence of steps. -/
theorem Steps.history {I : List Note → ReliableAdapter τ → Prop}
    (hstep : ∀ {ns a n b}, I ns a → Step S a n b → I (ns ++ [n]) b) {ns ms : List Note}
    (h : Steps S a ms b) (ha : I ns a) : I (ns ++ ms) b := by
  induction h generalizing ns with
  | refl => simpa using ha
  | @head a b c n ms hs _ ih =>
    have hnx := ih (hstep ha hs)
    rwa [append_assoc, singleton_append] at hnx

/-! ## What a step that sends nothing leaves alone -/

theorem resendLoop_wire {T : Timing τ} {now rto : τ} {l : List (ChunkKey × Pending τ)}
    {e : ChunkKey × Pending τ} (he : e ∈ (resendLoop T now rto l).1) : ∃ e' ∈ l, e'.1 = e.1 ∧ e'.2.wire = e.2.wire := by
  induction l with
  | nil => simp [resendLoop] at he
  | cons x xs ih =>
    have hrs : e ∈ (resendLoop T now rto xs).1 → ∃ e' ∈ x :: xs, e'.1 = e.1 ∧ e'.2.wire = e.2.wire := by
      intro h
      obtain ⟨e', he', heq⟩ := ih h
      exact ⟨e', mem_cons_of_mem x he', heq⟩
    simp only [resendLoop] at he
    split_ifs at he
    · rcases mem_cons.mp he with rfl | he
      · exact ⟨_, mem_cons_self, rfl, rfl⟩
      · exact hrs he
    · exact ⟨e, he, rfl, rfl⟩
    rcases mem_cons.mp he with rfl | he
    · exact ⟨_, mem_cons_self, rfl, rfl⟩
    · exact hrs he

/-- Steps that neither accept nor emit only move on: counters grow, queues and pending records shrink. -/
structure Inert (n : Note) (a b : ReliableAdapter τ) : Prop where
  next : ∀ s, a.nextMessage s ≤ b.nextMessage s
  queues : ∀ s, ∀ item ∈ b.queues s, item ∈ a.queues s
  wires : ∀ key p, b.pending.find? key = some p → ∃ q, a.pending.find? key = some q ∧ q.wire = p.wire
  still : b.closed = false → a.closed = false ∧ b.queues = a.queues ∧
    ∀ key ∈ a.pending, key ∈ b.pending ∨ n = .released key

variable {n : Note}

theorem Inert.refl (n : Note) (a : ReliableAdapter τ) : Inert n a a where
  next := fun _ => le_rfl
  queues := fun _ _ h => h
  wires := fun _ p h => ⟨p, h, rfl⟩
  still := fun h => ⟨h, rfl, fun _ hk => .inl hk⟩

theorem Step.inert (h : Step S a n b) (haccp : ∀ s m d, n ≠ .accepted s m d) (hemit : ∀ f, n ≠ .emitted f) :
    Inert n a b := by
  cases h with
  | accept => exact absurd rfl (haccp _ _ _)
  | transmit | extend => exact absurd rfl (hemit _)
  | reserve => exact { Inert.refl _ a with next := le_reserve _ }
  | @acknowledge now key p o ho hp _ =>
    obtain ⟨out, buf, est, heq⟩ := acknowledged_eq S now key p o a
    rw [heq]
    refine ⟨fun _ => le_refl _, fun _ _ h => h, ?_, ?_⟩
    · intro key' q hq
      rw [find?_erase] at hq
      split_ifs at hq
      exact ⟨q, hq, rfl⟩
    · intro _
      refine ⟨ho, rfl, fun key' hkey' => ?_⟩
      by_cases hk : key' = key
      · exact .inr (by rw [hk])
      · exact .inl (mem_erase.mpr ⟨hk, hkey'⟩)
  | event =>
    obtain ⟨c, o, heq⟩ := remember_eq a _
    rw [heq]
    exact { Inert.refl _ a with }
  | @deliver now f =>
    obtain ⟨_, _, _, heq⟩ := delivered_eq S now f a
    rw [heq]
    exact { Inert.refl _ a with }
  | resend ho =>
    refine ⟨fun _ => le_refl _, fun _ _ h => h, ?_, ?_⟩
    · intro key p hp
      obtain ⟨⟨_, q⟩, he, rfl, hw⟩ := resendLoop_wire (find?_eq_some_iff.mp hp)
      exact ⟨q, find?_eq_some_iff.mpr he, hw⟩
    · intro _
      refine ⟨ho, rfl, fun key hkey => .inl ?_⟩
      show key ∈ (resendLoop _ _ _ _).1.map Prod.fst
      rw [resendLoop_keys]
      exact hkey
  | close =>
    unfold ReliableAdapter.close
    split_ifs with hc
    · exact { Inert.refl _ a with }
    refine ⟨fun _ => le_refl _, ?_, ?_, ?_⟩
    · exact fun _ _ h => absurd h not_mem_nil
    · intro _ _ h
      cases h
    · intro h
      cases h
  | noteAck | again | duplicate | absorb | expire => exact { Inert.refl _ a with }

/-! ## The sender: every chunk on the wire is cut from an accepted message -/

/-- `f` is chunk `f.index` of `data`, for payloads of `payload` bytes. -/
structure ChunkOf (payload : Nat) (f : Frame) (data : Bytes) : Prop where
  count : f.count = chunkCount data.length payload
  payload : f.payload = chunk payload data f.index

/-- Message numbers are handed out once, and the frames on the wire are chunks of the messages that got
    them or extensions with a number of their own. -/
structure Numbering (S : Setup τ) (ns : List Note) (a : ReliableAdapter τ) : Prop where
  accepted_lt : ∀ s m d, .accepted s m d ∈ ns → m < a.nextMessage s
  emitted_lt : ∀ f, .emitted f ∈ ns → f.message < a.nextMessage f.stream
  nonempty : ∀ s m d, .accepted s m d ∈ ns → d ≠ []
  unique : ∀ s m d d', .accepted s m d ∈ ns → .accepted s m d' ∈ ns → d = d'
  queued : ∀ s, ∀ item ∈ a.queues s, .accepted s item.message item.data ∈ ns ∧
    item.count = chunkCount item.data.length S.codec.payload
  admits : ∀ f, .emitted f ∈ ns → S.codec.Admits f ∧ f.kind ≠ .ack
  chunks : ∀ f, .emitted f ∈ ns → f.kind = .data →
    ∃ d, .accepted f.stream f.message d ∈ ns ∧ ChunkOf S.codec.payload f d
  extensions : ∀ f, .emitted f ∈ ns → f.kind = .extension → ∀ d, .accepted f.stream f.message d ∉ ns

theorem Numbering.init : Numbering S [] S.init := by
  refine ⟨?_, ?_, ?_, ?_, ?_, ?_, ?_, ?_⟩ <;> simp [Setup.init]

variable {ns : List Note}

theorem mem_snoc {n m : Note} : m ∈ ns ++ [n] ↔ m ∈ ns ∨ m = n := by simp

theorem mem_snoc_ne {n m : Note} (h : m ≠ n) : m ∈ ns ++ [n] ↔ m ∈ ns := by simp [h]

/-- One more note: an accepted message has a new number, and an emitted frame belongs to a message of its kind. -/
theorem Numbering.next (h : Numbering S ns a) (hnx : ∀ s, a.nextMessage s ≤ b.nextMessage s)
    (hqs : ∀ s, ∀ item ∈ b.queues s,
      (∃ old ∈ a.queues s, old.message = item.message ∧ old.data = item.data ∧ old.count = item.count) ∨
        n = .accepted s item.message item.data ∧ item.count = chunkCount item.data.length S.codec.payload)
    (haccp : ∀ s m d, n = .accepted s m d → m = a.nextMessage s ∧ m < b.nextMessage s ∧ d ≠ [])
    (hemit : ∀ f, n = .emitted f → f.message < b.nextMessage f.stream ∧ (S.codec.Admits f ∧ f.kind ≠ .ack) ∧
      (f.kind = .data → ∃ d, .accepted f.stream f.message d ∈ ns ∧ ChunkOf S.codec.payload f d) ∧
      (f.kind = .extension → ∀ d, .accepted f.stream f.message d ∉ ns)) : Numbering S (ns ++ [n]) b := by
  have hnew : ∀ s m d d', n = .accepted s m d → .accepted s m d' ∉ ns := by
    intro s m d d' heq hd'
    have hlt := h.accepted_lt s m d' hd'
    rw [(haccp s m d heq).1] at hlt
    exact lt_irrefl _ hlt
  refine ⟨?_, ?_, ?_, ?_, ?_, ?_, ?_, ?_⟩
  · intro s m d hm
    rcases mem_snoc.mp hm with hm | heq
    · exact lt_of_lt_of_le (h.accepted_lt s m d hm) (hnx s)
    · exact (haccp s m d heq.symm).2.1
  · intro f hf
    rcases mem_snoc.mp hf with hf | heq
    · exact lt_of_lt_of_le (h.emitted_lt f hf) (hnx f.stream)
    · exact (hemit f heq.symm).1
  · intro s m d hm
    rcases mem_snoc.mp hm with hm | heq
    · exact h.nonempty s m d hm
    · exact (haccp s m d heq.symm).2.2
  · intro s m d d' hd hd'
    rcases mem_snoc.mp hd with hd | heq <;> rcases mem_snoc.mp hd' with hd' | heq'
    · exact h.unique s m d d' hd hd'
    · exact absurd hd (hnew s m d' d heq'.symm)
    · exact absurd hd' (hnew s m d d' heq.symm)
    · exact (Note.accepted.inj (heq.trans heq'.symm)).2.2
  · intro s item hit
    rcases hqs s item hit with ⟨old, hold, hm, hd, hc⟩ | ⟨heq, hcnt⟩
    · rw [← hm, ← hd, ← hc]
      exact (h.queued s old hold).imp_left fun hacc => mem_snoc.mpr (.inl hacc)
    · exact ⟨mem_snoc.mpr (.inr heq.symm), hcnt⟩
  · intro f hf
    rcases mem_snoc.mp hf with hf | heq
    · exact h.admits f hf
    · exact (hemit f heq.symm).2.1
  · intro f hf hk
    have hold : ∃ d, .accepted f.stream f.message d ∈ ns ∧ ChunkOf S.codec.payload f d := by
      rcases mem_snoc.mp hf with hf | heq
      · exact h.chunks f hf hk
      · exact (hemit f heq.symm).2.2.1 hk
    obtain ⟨d, hd, hchn⟩ := hold
    exact ⟨d, mem_snoc.mpr (.inl hd), hchn⟩
  · intro f hf hk d hd
    rcases mem_snoc.mp hf with hf | rfl
    · rcases mem_snoc.mp hd with hd | heq
      · exact h.extensions f hf hk d hd
      have hlt := h.emitted_lt f hf
      rw [(haccp _ _ d heq.symm).1] at hlt
      exact lt_irrefl _ hlt
    · rw [mem_snoc_ne (by simp)] at hd
      exact (hemit f rfl).2.2.2 hk d hd

variable {stream : Nat} {f : Frame} {now : τ} {data : Bytes}

theorem Numbering.accept (h : Numbering S ns a) (hdt : data ≠ []) :
    Numbering S (ns ++ [.accepted stream (a.nextMessage stream) data]) (a.enqueue S stream data) := by
  refine h.next ?_ ?_ ?_ nofun
  · intro s
    by_cases hs : s = stream <;> simp [enqueue, hs]
  · intro s item hit
    rcases mem_enqueue hit with hit | ⟨rfl, rfl⟩
    · exact .inl ⟨item, hit, rfl, rfl, rfl⟩
    · exact .inr ⟨rfl, rfl⟩
  · rintro s m d ⟨⟩
    exact ⟨rfl, by simp [enqueue], hdt⟩

/-- The item that an item left in the queue comes from. -/
theorem transmitted_queue {rest : List Nat} {item : Item} {it : List Item} (hqu : a.queues stream = item :: it)
    (hidx : item.index < item.count) {s : Nat} {x : Item}
    (hx : x ∈ (a.transmitted S now stream rest item it).queues s) :
    ∃ old ∈ a.queues s, old.message = x.message ∧ old.data = x.data ∧ old.count = x.count := by
  rcases mem_transmitted hqu hidx hx with ⟨rfl, rfl, -⟩ | ⟨hx, -⟩
  · exact ⟨item, hqu ▸ mem_cons_self, rfl, rfl, rfl⟩
  · exact ⟨x, hx, rfl, rfl, rfl⟩

theorem Numbering.step (hacc : Accounted S a) (h : Numbering S ns a) (hstep : Step S a n b) :
    Numbering S (ns ++ [n]) b := by
  have hstep' := hstep
  cases hstep with
  | accept _ _ hdt => exact h.accept hdt
  | @transmit now stream rest item items ho hwin hact hqu hadm =>
    have hit : item ∈ a.queues stream := hqu ▸ mem_cons_self
    obtain ⟨-, hidx, -, hout⟩ := hacc.sending.queued stream item hit
    obtain ⟨hacce, hcnt⟩ := h.queued stream item hit
    refine h.next (fun _ => le_refl _) (fun s x hx => .inl (transmitted_queue hqu hidx hx)) nofun ?_
    rintro f ⟨⟩
    exact ⟨(hacc.sending.numbered _ hout).1, ⟨hadm, by simp [chunkFrame]⟩, fun _ => ⟨item.data, hacce, hcnt, rfl⟩,
      nofun⟩
  | @extend stream payload ho hnx hadm =>
    refine h.next (le_reserve stream) (fun _ item hit => .inl ⟨item, hit, rfl, rfl, rfl⟩) nofun ?_
    rintro f ⟨⟩
    refine ⟨?_, ⟨hadm, by simp [extensionFrame]⟩, nofun, fun _ d hd => ?_⟩
    · simp [note, reserve, extensionFrame]
    · exact lt_irrefl _ (h.accepted_lt _ _ d hd)
  | _ =>
    have hi := hstep'.inert (by simp) (by simp)
    exact h.next hi.next (fun s item hit => .inl ⟨item, hi.queues s item hit, rfl, rfl, rfl⟩) (by simp) (by simp)

/-! ## The sender: where the chunks of a message are -/

/-- Records in flight were emitted, and every chunk of an accepted message is queued, in flight or
    acknowledged. -/
structure Tracking (S : Setup τ) (ns : List Note) (a : ReliableAdapter τ) : Prop where
  wires : ∀ key p, a.pending.find? key = some p → ∃ f, .emitted f ∈ ns ∧ p.wire = S.codec.sealed f
  traced : a.closed = false → ∀ s m d, .accepted s m d ∈ ns →
    ∀ i < chunkCount d.length S.codec.payload,
      (s, m, i) ∈ a.pending ∨ (∃ item ∈ a.queues s, item.message = m ∧ item.index ≤ i) ∨
        .released (s, m, i) ∈ ns

theorem Tracking.init : Tracking S [] S.init := by
  constructor <;> simp [Setup.init]

theorem Tracking.inert (h : Tracking S ns a) (hi : Inert n a b) (haccp : ∀ s m d, n ≠ .accepted s m d) :
    Tracking S (ns ++ [n]) b := by
  constructor
  · intro key p hp
    obtain ⟨q, hq, hwire⟩ := hi.wires key p hp
    obtain ⟨f, hf, heq⟩ := h.wires key q hq
    exact ⟨f, mem_snoc.mpr (.inl hf), hwire ▸ heq⟩
  intro ho s m d hd i hlt
  obtain ⟨ho', hqs, hpend⟩ := hi.still ho
  rw [mem_snoc_ne (haccp s m d).symm] at hd
  rcases h.traced ho' s m d hd i hlt with hp | hq | hr
  · rcases hpend _ hp with hp | hn
    · exact .inl hp
    · exact .inr (.inr (mem_snoc.mpr (.inr hn.symm)))
  · rw [hqs]
    exact .inr (.inl hq)
  · exact .inr (.inr (mem_snoc.mpr (.inl hr)))

theorem Tracking.accept (h : Tracking S ns a) (ho : a.closed = false) :
    Tracking S (ns ++ [.accepted stream (a.nextMessage stream) data]) (a.enqueue S stream data) := by
  constructor
  · intro key p hp
    obtain ⟨f, hf, heq⟩ := h.wires key p hp
    exact ⟨f, mem_snoc.mpr (.inl hf), heq⟩
  intro _ s m d hd i hlt
  rcases mem_snoc.mp hd with hd | heq
  · rcases h.traced ho s m d hd i hlt with hp | ⟨item, hit, hm, hle⟩ | hr
    · exact .inl hp
    · refine .inr (.inl ⟨item, ?_, hm, hle⟩)
      by_cases hs : s = stream
      · subst hs
        simp only [enqueue, update_self, mem_append]
        exact .inl hit
      · simpa only [enqueue, update_of_ne hs] using hit
    · exact .inr (.inr (mem_snoc.mpr (.inl hr)))
  cases heq
  refine .inr (.inl ⟨⟨a.nextMessage stream, data, 0, chunkCount data.length S.codec.payload⟩, ?_, rfl, Nat.zero_le i⟩)
  simp [enqueue]

theorem Tracking.transmit {r : List Nat} {itm : Item} {it : List Item} (hnum : Numbering S ns a)
    (h : Tracking S ns a) (ho : a.closed = false) (hqu : a.queues stream = itm :: it) :
    Tracking S (ns ++ [.emitted (chunkFrame S stream itm)]) (a.transmitted S now stream r itm it) := by
  have hit : itm ∈ a.queues stream := hqu ▸ mem_cons_self
  obtain ⟨hacce, hcnt⟩ := hnum.queued stream itm hit
  constructor
  · intro key p hp
    rcases find?_set_cases hp with ⟨-, rfl⟩ | ⟨-, hp⟩
    · exact ⟨_, mem_snoc.mpr (.inr rfl), rfl⟩
    · obtain ⟨f, hf, heq⟩ := h.wires key p hp
      exact ⟨f, mem_snoc.mpr (.inl hf), heq⟩
  intro _ s m d hd i hlt
  rw [mem_snoc_ne (by simp)] at hd
  have hpend : (s, m, i) ∈ a.pending ∨ (s, m, i) = (stream, itm.message, itm.index) →
      (s, m, i) ∈ (a.transmitted S now stream r itm it).pending := fun hor =>
    mem_set.mpr hor.symm
  rcases h.traced ho s m d hd i hlt with hp | ⟨x, hx, hm, hle⟩ | hr
  · exact .inl (hpend (.inl hp))
  · by_cases hs : s = stream
    · subst hs
      subst hm
      rw [hqu] at hx
      rcases mem_cons.mp hx with rfl | hx
      · -- the chunk is the one that goes out, or the advanced item still has it
        by_cases hi : i = x.index
        · exact .inl (hpend (.inr (by rw [hi])))
        have hdt : d = x.data := hnum.unique s x.message d x.data hd hacce
        refine .inr (.inl ⟨{ x with index := x.index + 1 }, ?_, rfl, ?_⟩)
        · have hne : ¬ x.index + 1 = x.count := by
            rw [hcnt, ← hdt]
            omega
          simp [transmitted, advance, hne]
        · show x.index + 1 ≤ i
          omega
      refine .inr (.inl ⟨x, ?_, rfl, hle⟩)
      simp only [transmitted, update_self, advance]
      split_ifs
      · exact hx
      · exact mem_cons_of_mem _ hx
    · refine .inr (.inl ⟨x, ?_, hm, hle⟩)
      simpa only [transmitted, update_of_ne hs] using hx
  · exact .inr (.inr (mem_snoc.mpr (.inl hr)))

theorem Tracking.step (hnum : Numbering S ns a) (h : Tracking S ns a) (hstep : Step S a n b) :
    Tracking S (ns ++ [n]) b := by
  have hstep' := hstep
  cases hstep with
  | accept ho => exact h.accept ho
  | transmit ho _ _ hqu _ => exact h.transmit hnum ho hqu
  | extend ho =>
    exact h.inert { Inert.refl _ a with next := le_reserve _ } (by simp)
  | _ => exact h.inert (hstep'.inert (by simp) (by simp)) (by simp)

/-! ## The receiver: reassembly holds chunks of one message -/

/-- The stored parts of a message are the chunks of the data that was sent under its number. -/
def Assembled (payload : Nat) (sent : Nat → Nat → Bytes → Prop) (a : ReliableAdapter τ) : Prop :=
  ∀ id r, a.incoming.find? id = some r → ∃ d, sent id.1 id.2 d ∧ r.count = chunkCount d.length payload ∧
    ∀ i p, r.parts.find? i = some p → p = chunk payload d i

section

variable {pl : Nat} {sn : Nat → Nat → Bytes → Prop}

/-- A chunk of the sent data joins the stored ones. -/
theorem Assembled.added {d : Bytes} (h : Assembled pl sn a)
    (hfun : ∀ s m d d', sn s m d → sn s m d' → d = d') (hsn : sn f.stream f.message d)
    (hchn : ChunkOf pl f d) : ∀ i p, ((a.reassemblyFor S now f).add f.index f.payload).parts.find? i = some p →
      p = chunk pl d i := by
  intro i p hp
  change ((a.reassemblyFor S now f).parts.set f.index f.payload).find? i = some p at hp
  rw [find?_set] at hp
  split_ifs at hp with hi
  · simp only [Option.some.injEq] at hp
    rw [← hp, hi]
    exact hchn.payload
  unfold reassemblyFor at hp
  cases hfd : a.incoming.find? (f.stream, f.message) with
  | none =>
    rw [hfd] at hp
    cases hp
  | some r =>
    rw [hfd] at hp
    obtain ⟨d', hd', -, hps⟩ := h _ r hfd
    rw [hfun _ _ d d' hsn hd']
    exact hps i p hp

theorem join_chunks {r : Reassembly τ} {d data : Bytes} (hp : 0 < pl)
    (hcnt : r.count = chunkCount d.length pl) (hsz : r.parts.size = r.count)
    (hlt : ∀ i ∈ r.parts, i < r.count) (hps : ∀ i p, r.parts.find? i = some p → p = chunk pl d i)
    (hjoin : r.join = some data) : data = d := by
  have hfind : ∀ i < r.count, r.parts.find? i = some (chunk pl d i) := by
    intro i hi
    obtain ⟨p, hfd⟩ := mem_iff_find?.mp (mem_of_lt hsz hlt hi)
    rw [hfd, hps i p hfd]
  rw [Reassembly.join_eq hfind, hcnt, flatMap_chunk hp] at hjoin
  exact (Option.some.inj hjoin).symm

/-- A step keeps reassembly to chunks of one message, and what it delivers is the message that was sent. -/
theorem Assembled.step (hacc : Accounted S a) (h : Assembled S.codec.payload sn a)
    (hfun : ∀ s m d d', sn s m d → sn s m d' → d = d') (hauth : ∀ f done, n = .confirmed f done → f.kind = .data →
      ∃ d, sn f.stream f.message d ∧ ChunkOf S.codec.payload f d) (hstep : Step S a n b) :
    Assembled S.codec.payload sn b ∧
      ∀ f data, n = .confirmed f (some (some data)) → sn f.stream f.message data := by
  have hpos : 0 < S.codec.payload := lt_of_lt_of_le (by decide) S.codec.payload_bounds.1
  cases hstep with
  | @absorb now f ho hf hps =>
    obtain ⟨d, hsn, hchn⟩ := hauth f none rfl hf.kind
    refine ⟨?_, by simp⟩
    intro id r hr
    rcases find?_set_cases hr with ⟨hid, rfl⟩ | ⟨-, hr⟩
    · rw [hid]
      exact ⟨d, hsn, hf.count.trans hchn.count, h.added hfun hsn hchn⟩
    · exact h id r hr
  | @deliver now f data ho hf hps hjoin =>
    obtain ⟨d, hsn, hchn⟩ := hauth f (some (some data)) rfl hf.kind
    obtain ⟨-, -, hind⟩ := hacc.reassembling.added hf
    have hcnt : ((a.reassemblyFor S now f).add f.index f.payload).count = f.count := hf.count
    constructor
    · obtain ⟨_, _, _, heq⟩ := delivered_eq S now f a
      rw [heq]
      intro id r hr
      change ((a.incoming.set _ _).erase _).find? id = some r at hr
      rw [find?_erase] at hr
      split_ifs at hr with hid
      rw [find?_set, if_neg hid] at hr
      exact h id r hr
    · intro f' data' heq
      obtain ⟨rfl, rfl⟩ := heq
      have hdt : data = d := join_chunks hpos (hcnt.trans hchn.count) (hps.trans hcnt.symm)
        (by rw [hcnt]; exact hind) (h.added hfun hsn hchn) hjoin
      rw [hdt]
      exact hsn
  | @acknowledge now key p o =>
    obtain ⟨_, _, _, heq⟩ := acknowledged_eq S now key p o a
    rw [heq]
    exact ⟨h, by simp⟩
  | event =>
    obtain ⟨c, o, heq⟩ := remember_eq a _
    rw [heq]
    exact ⟨h, by simp⟩
  | expire =>
    refine ⟨?_, by simp⟩
    intro id r hr
    change (a.incoming.filter _).find? id = some r at hr
    rw [Dict.find?_filter, Option.filter_eq_some_iff] at hr
    exact h id r hr.1
  | close =>
    refine ⟨?_, by simp⟩
    unfold close
    split_ifs
    · exact h
    · intro id r hr
      cases hr
  | accept | transmit | reserve | extend | noteAck | again | duplicate | resend => exact ⟨h, by simp⟩

end

/-! ## The receiver: a confirmed chunk is kept until its message is returned -/

/-- The message with this identity was returned. -/
def Returned (ns : List Note) (id : Identity) : Prop :=
  ∃ f data, .confirmed f (some (some data)) ∈ ns ∧ (f.stream, f.message) = id

theorem Returned.snoc {id : Identity} (h : Returned ns id) : Returned (ns ++ [n]) id := by
  obtain ⟨f, data, hf, hid⟩ := h
  exact ⟨f, data, mem_snoc.mpr (.inl hf), hid⟩

/-- Every confirmed chunk is in a reassembly state, or its message was returned. -/
structure Kept (ns : List Note) (a : ReliableAdapter τ) : Prop where
  completed : ∀ id ∈ a.completed, ∃ f done, .confirmed f (some done) ∈ ns ∧ (f.stream, f.message) = id
  event : ∀ f, .confirmed f (some none) ∈ ns → f.kind = .extension
  kept : a.closed = false → ∀ f done, .confirmed f done ∈ ns → f.kind = .data →
    Returned ns (f.stream, f.message) ∨
      ∃ r, a.incoming.find? (f.stream, f.message) = some r ∧ f.index ∈ r.parts

theorem Kept.init : Kept [] S.init := by
  refine ⟨?_, ?_, ?_⟩ <;> simp [Setup.init]

theorem mem_remember {key id : Identity} (h : id ∈ (a.remember key).completed) : id = key ∨ id ∈ a.completed := by
  unfold remember at h
  split at h
  · split_ifs at h
    · exact Finset.mem_insert.mp (Finset.mem_of_mem_erase h)
    · exact Finset.mem_insert.mp h
  · exact .inr h

/-- One more note: a confirmed frame is in a reassembly state, or its message was returned. -/
theorem Kept.next (h : Kept ns a)
    (hcomp : ∀ id ∈ b.completed, id ∈ a.completed ∨ ∃ f done, n = .confirmed f (some done) ∧ (f.stream, f.message) = id)
    (hevent : ∀ f, n = .confirmed f (some none) → f.kind = .extension) (hkept : b.closed = false → a.closed = false ∧
      (∀ id r, a.incoming.find? id = some r → Returned (ns ++ [n]) id ∨
        ∃ r', b.incoming.find? id = some r' ∧ ∀ i ∈ r.parts, i ∈ r'.parts) ∧
      ∀ f done, n = .confirmed f done → f.kind = .data → Returned (ns ++ [n]) (f.stream, f.message) ∨
        ∃ r, b.incoming.find? (f.stream, f.message) = some r ∧ f.index ∈ r.parts) : Kept (ns ++ [n]) b := by
  refine ⟨?_, ?_, ?_⟩
  · intro id hid
    rcases hcomp id hid with hid | ⟨f, done, rfl, heq⟩
    · obtain ⟨f, done, hf, heq⟩ := h.completed id hid
      exact ⟨f, done, mem_snoc.mpr (.inl hf), heq⟩
    · exact ⟨f, done, mem_snoc.mpr (.inr rfl), heq⟩
  · intro f hf
    rcases mem_snoc.mp hf with hf | heq
    · exact h.event f hf
    · exact hevent f heq.symm
  · intro ho f done hf hk
    obtain ⟨ho', hold, hnew⟩ := hkept ho
    rcases mem_snoc.mp hf with hf | heq
    · rcases h.kept ho' f done hf hk with hret | ⟨r, hr, hi⟩
      · exact .inl hret.snoc
      · exact (hold _ r hr).imp_right fun ⟨r', hr', hsub⟩ => ⟨r', hr', hsub _ hi⟩
    · exact hnew f done heq.symm hk

/-- Steps that confirm nothing and drop no reassembly state. -/
theorem Kept.quiet (h : Kept ns a) (hn : ∀ f done, n ≠ .confirmed f done) (hcomp : b.completed ⊆ a.completed)
    (hinc : b.closed = false → a.closed = false ∧ ∀ id r, a.incoming.find? id = some r →
      Returned ns id ∨ b.incoming.find? id = some r) : Kept (ns ++ [n]) b := by
  refine h.next (fun id hid => .inl (hcomp hid)) (fun f heq => absurd heq (hn f _)) fun ho => ?_
  obtain ⟨ho', hkeep⟩ := hinc ho
  refine ⟨ho', fun id r hr => ?_, fun f done heq => absurd heq (hn f done)⟩
  exact (hkeep id r hr).imp Returned.snoc fun hr' => ⟨r, hr', fun _ hi => hi⟩

/-- A step that confirms `f` without completing anything. -/
theorem Kept.confirm (h : Kept ns a) (ho : b.closed = false → a.closed = false) (hcomp : b.completed = a.completed)
    (hinc : ∀ id r, a.incoming.find? id = some r → ∃ r', b.incoming.find? id = some r' ∧
      ∀ i ∈ r.parts, i ∈ r'.parts) (hf : f.kind = .data → Returned ns (f.stream, f.message) ∨
      ∃ r, b.incoming.find? (f.stream, f.message) = some r ∧ f.index ∈ r.parts) :
    Kept (ns ++ [.confirmed f none]) b := by
  refine h.next (fun id hid => .inl (hcomp ▸ hid)) nofun fun hb =>
    ⟨ho hb, fun id r hr => .inr (hinc id r hr), ?_⟩
  rintro g done ⟨⟩ hk
  exact (hf hk).imp_left Returned.snoc

theorem Kept.deliver (h : Kept ns a) (ho : a.closed = false) :
    Kept (ns ++ [.confirmed f (some (some data))]) (a.delivered S now f) := by
  have hself : Returned (ns ++ [.confirmed f (some (some data))]) (f.stream, f.message) :=
    ⟨f, data, mem_snoc.mpr (.inr rfl), rfl⟩
  refine h.next (fun id hid => ?_) nofun fun _ => ⟨ho, fun id r hr => ?_, ?_⟩
  · rcases mem_remember hid with rfl | hid
    · exact .inr ⟨f, some data, rfl, rfl⟩
    · exact .inl hid
  · obtain ⟨_, _, _, heq⟩ := delivered_eq S now f a
    by_cases hid : id = (f.stream, f.message)
    · exact .inl (hid ▸ hself)
    refine .inr ⟨r, ?_, fun _ hi => hi⟩
    rw [heq]
    show ((a.incoming.set _ _).erase _).find? _ = _
    rw [find?_erase, if_neg hid, find?_set, if_neg hid]
    exact hr
  · rintro g done ⟨⟩ _
    exact .inl hself

/-- A step keeps the confirmed chunks, if the frames of one identity are of one kind and only reassembly
    states of returned messages expire. -/
theorem Kept.step (h : Kept ns a)
    (hkinds : ∀ f g done done', .confirmed f done ∈ ns ++ [n] → .confirmed g done' ∈ ns ++ [n] →
      (f.stream, f.message) = (g.stream, g.message) → f.kind = g.kind)
    (hexp : ∀ ids, n = .expired ids → ∀ id ∈ ids, Returned ns id) (hstep : Step S a n b) : Kept (ns ++ [n]) b := by
  have hsm : ∀ id r, a.incoming.find? id = some r → Returned ns id ∨ a.incoming.find? id = some r :=
    fun _ _ hr => .inr hr
  cases hstep with
  | @again f hkd hdone =>
    refine h.confirm (fun h => h) rfl (fun id r hr => ⟨r, hr, fun _ hi => hi⟩) fun hk => .inl ?_
    -- the identity was completed by a frame of the same kind, hence by a message
    obtain ⟨g, done, hg, hid⟩ := h.completed _ hdone
    cases done with
    | none =>
      have hext := h.event g hg
      have heq := hkinds f g none (some none) (mem_snoc.mpr (.inr rfl)) (mem_snoc.mpr (.inl hg)) hid.symm
      rw [hk, hext] at heq
      cases heq
    | some data => exact ⟨g, data, hg, hid⟩
  | @duplicate f r hkd hfd hpart =>
    refine h.confirm (fun h => h) rfl (fun id r hr => ⟨r, hr, fun _ hi => hi⟩) fun _ => .inr ⟨r, hfd, ?_⟩
    obtain ⟨p, hp⟩ := Option.isSome_iff_exists.mp hpart
    exact mem_of_find? hp
  | @absorb now f ho hf hps =>
    refine h.confirm (fun _ => ho) rfl (fun id r hr => ?_) fun _ =>
      .inr ⟨(a.reassemblyFor S now f).add f.index f.payload, ?_, mem_set.mpr (.inl rfl)⟩
    · show ∃ r', (a.incoming.set _ _).find? id = some r' ∧ _
      rw [find?_set]
      split_ifs with hid
      · refine ⟨_, rfl, fun i hi => mem_set.mpr (.inr ?_)⟩
        unfold reassemblyFor
        rw [← hid, hr]
        exact hi
      · exact ⟨r, hr, fun _ hi => hi⟩
    · show (a.incoming.set _ _).find? _ = _
      rw [find?_set, if_pos rfl]
  | deliver ho => exact h.deliver ho
  | @event f ho hkd hfsh =>
    obtain ⟨c, o, heq⟩ := remember_eq a (f.stream, f.message)
    refine h.next (fun id hid => ?_) ?_ fun _ => ⟨ho, fun id r hr => .inr ⟨r, ?_, fun _ hi => hi⟩, ?_⟩
    · rcases mem_remember hid with rfl | hid
      · exact .inr ⟨f, none, rfl, rfl⟩
      · exact .inl hid
    · rintro g ⟨⟩
      exact hkd
    · rw [heq]
      exact hr
    · rintro g done ⟨⟩ hk
      rw [hkd] at hk
      cases hk
  | @expire now ho =>
    refine h.quiet (by simp) (fun _ hid => hid) fun _ => ⟨ho, fun id r hr => ?_⟩
    by_cases hdue : S.timing.isReached now r.deadline
    · refine .inl (hexp _ rfl id ?_)
      apply mem_of_find? (v := r)
      rw [Dict.find?_filter, hr, Option.filter_some, if_pos hdue]
    refine .inr ?_
    show (a.incoming.filter _).find? id = some r
    rw [Dict.find?_filter, hr, Option.filter_some, if_pos (by simpa using hdue)]
  | @acknowledge now key p o ho =>
    obtain ⟨_, _, _, heq⟩ := acknowledged_eq S now key p o a
    rw [heq]
    exact h.quiet (by simp) (fun _ hid => hid) fun ho => ⟨ho, hsm⟩
  | close =>
    unfold close
    split_ifs
    · exact h.quiet (by simp) (fun _ hid => hid) fun ho => ⟨ho, hsm⟩
    · refine h.quiet (by simp) (Finset.empty_subset _) fun ho => ?_
      cases ho
  | accept | transmit | reserve | extend | noteAck | resend =>
    exact h.quiet (by simp) (fun _ hid => hid) fun ho => ⟨ho, hsm⟩

end

end Shadow6.NetworkAdapter
