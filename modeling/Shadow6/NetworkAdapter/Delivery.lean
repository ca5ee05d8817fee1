import Shadow6.NetworkAdapter.Runs

/-!
# `NetworkAdapter.Delivery` — what one call hands on, and when it is not refused

The callers of an adapter see its answers only. This module says what the state tells about them in advance:
a datagram completes a message only if it brings the one missing chunk (`receive_completes`), `receive` does not
raise on a frame it has room for (`receive_takes`), and `retransmit` does not raise unless a frame in flight is
out of attempts (`retransmit_takes`). Message numbers are given out by sending alone.
-/

namespace Shadow6.NetworkAdapter

open Library ReliableAdapter List Dict Setup

variable {τ : Type}

namespace ReliableAdapter

/-- The chunks stored for an unfinished message. -/
def storedParts (a : ReliableAdapter τ) (id : Identity) : Dict Nat Bytes :=
  match a.incoming.find? id with
  | some r => r.parts
  | none => .empty

/-- The frame brings the one missing chunk of a message that is not completed. -/
def LastChunk (a : ReliableAdapter τ) (f : Frame) : Prop :=
  f.kind = .data ∧ (f.stream, f.message) ∉ a.completed ∧
    f.index ∉ a.storedParts (f.stream, f.message) ∧ (a.storedParts (f.stream, f.message)).size + 1 = f.count

instance (a : ReliableAdapter τ) (f : Frame) : Decidable (a.LastChunk f) :=
  inferInstanceAs (Decidable (_ ∧ _ ∉ _ ∧ _ ∉ _ ∧ _ = _))

variable (S : Setup τ) (now : τ) (f : Frame) (a : ReliableAdapter τ)

/-- None of the checks of `receive` refuses the frame: it is an acknowledgement, its message is completed, its
    chunk is stored already, or there is room for the chunk. -/
def Takes : Prop :=
  f.kind = .ack ∨ (f.stream, f.message) ∈ a.completed ∨
    (f.kind = .data ∧ f.payload ≠ [] ∧ (∃ r ∈ a.incoming.find? (f.stream, f.message), r.count = f.count) ∧
      f.index ∈ a.storedParts (f.stream, f.message)) ∨
    Absorbable S now f a

instance : Decidable (Absorbable S now f a) :=
  decidable_of_iff
    (f.kind = .data ∧ (f.stream, f.message) ∉ a.completed ∧ f.payload ≠ [] ∧
      (a.incoming.find? (f.stream, f.message) = none → a.incoming.size < 4096) ∧
      (a.reassemblyFor S now f).count = f.count ∧ f.index < f.count ∧
      (a.reassemblyFor S now f).parts.find? f.index = none ∧
      a.incomingBytes + f.payload.length ≤ S.limits.maxInflight ∧
      (a.reassemblyFor S now f).bytes + f.payload.length ≤ S.limits.maxMessage)
    ⟨fun ⟨h₁, h₂, h₃, h₄, h₅, h₆, h₇, h₈, h₉⟩ => ⟨h₁, h₂, h₃, h₄, h₅, h₆, h₇, h₈, h₉⟩,
      fun h => ⟨h.kind, h.fresh, h.payload, h.room, h.count, h.index, h.absent, h.inflight, h.message⟩⟩

instance : Decidable (Takes S now f a) :=
  inferInstanceAs (Decidable (_ ∨ _ ∈ _ ∨ (_ ∧ _ ≠ [] ∧ (∃ r ∈ _, _ = _) ∧ _ ∈ _) ∨ Absorbable S now f a))

/-- A frame in flight is due at `now` and has used up its eight attempts. -/
def OutOfAttempts : Prop :=
  ∃ e ∈ a.pending.entries, S.timing.isBefore now e.2.deadline = false ∧ 8 ≤ e.2.attempts

instance : Decidable (a.OutOfAttempts S now) :=
  inferInstanceAs (Decidable (∃ e ∈ _, _ ∧ _ ≤ _))

end ReliableAdapter

section

variable {S : Setup τ} {a b : ReliableAdapter τ} {f : Frame}

/-! ## Completed messages -/

theorem reassemblyFor_parts (now : τ) : (a.reassemblyFor S now f).parts = a.storedParts (f.stream, f.message) := by
  unfold reassemblyFor storedParts
  cases a.incoming.find? (f.stream, f.message) <;> rfl

theorem Step.lastChunk {dt : Bytes} (h : Step S a (.confirmed f (some (some dt))) b) : a.LastChunk f := by
  cases h with
  | @deliver now _ _ ho hf hps hjoin =>
    have habs := hf.absent
    rw [reassemblyFor_parts] at habs
    have hsz : ((a.reassemblyFor S now f).add f.index f.payload).parts.size
        = (a.storedParts (f.stream, f.message)).size + 1 := by
      show ((a.reassemblyFor S now f).parts.set f.index f.payload).size = _
      rw [reassemblyFor_parts, size_set_absent habs]
    exact ⟨hf.kind, hf.fresh, not_mem_iff_find?.mpr habs, hsz ▸ hps⟩

variable {now : τ} {wr : Bytes}

/-- An answer of `receive` comes from the branch of the frame's kind. -/
theorem receive_ok {r : Received} (hr : (a.receive S wr now).1 = .ok r) :
    a.closed = false ∧ ∃ f, S.codec.decode wr = .ok f ∧ S.codec.Admits (ackFrame f) ∧
      ((f.kind = .ack ∧ (a.receiveAck S f now).1 = .ok r) ∨ (f.kind = .extension ∧
          ((a.note (ackFrame f)).receiveExtension S f (S.codec.sealed (ackFrame f))).1 = .ok r) ∨ (f.kind = .data ∧
          ((a.note (ackFrame f)).receiveData S f (S.codec.sealed (ackFrame f)) now).1 = .ok r)) := by
  unfold ReliableAdapter.receive at hr
  split at hr
  · cases hr
  rename_i hcl
  refine ⟨by simpa using hcl, ?_⟩
  split at hr
  · cases hr
  rename_i f hdec
  have hadm : S.codec.Admits (ackFrame f) := Codec.ack_admits hdec
  refine ⟨f, hdec, hadm, ?_⟩
  rw [Codec.encode_of_admits hadm] at hr
  cases hkd : f.kind <;> simpa [hkd] using hr

theorem readExtension_disabled {nfc : Text → Text} {p : Bytes} {x : Text × Json} :
    Portable.Python.readExtension nfc [] p ≠ .ok x := by
  unfold Portable.Python.readExtension
  split
  · simp
  split
  · simp
  split_ifs
  · simp
  · split <;> simp

/-- **A datagram completes at most one message, and only by bringing its last chunk**; without extensions it is no
    event. -/
theorem receive_completes (h : Accounted S a) {r : Received} (hr : (a.receive S wr now).1 = .ok r) :
    (r.messages = [] ∨ ∃ f data, S.codec.decode wr = .ok f ∧ a.LastChunk f ∧ r.messages = [(f.stream, data)]) ∧
      (S.extensions = [] → r.events = []) := by
  obtain ⟨ho, f, hdec, hadm, ⟨-, hr⟩ | ⟨-, hr⟩ | ⟨hdt, hr⟩⟩ := receive_ok hr
  · rcases receiveAck_steps h f now ho with heq | ⟨b, heq, -⟩ <;>
      · rw [heq] at hr
        cases hr
        exact ⟨.inl rfl, fun _ => rfl⟩
  · unfold receiveExtension at hr
    split at hr
    · cases hr
      exact ⟨.inl rfl, fun _ => rfl⟩
    split at hr
    · cases hr
    rename_i hrd
    cases hr
    exact ⟨.inl rfl, fun hpl => absurd (hpl ▸ hrd) readExtension_disabled⟩
  rcases receiveData_steps (h.step (.noteAck hadm)) (S.codec.sealed (ackFrame f)) now ho hdt
      (Codec.decode_bounds hdec).2.2.2.2.1 with ⟨e, -, heq⟩ | ⟨done, m, b, hdone, heq, hstep⟩ <;>
    rw [heq] at hr <;> cases hr
  · refine ⟨?_, fun _ => rfl⟩
    cases hdone with
    | nothing => exact .inl rfl
    | message data => exact .inr ⟨f, data, hdec, hstep.lastChunk, rfl⟩

/-! ## Answers without an exception -/

/-- A `DATA` frame that the adapter takes is answered. -/
theorem receiveData_takes (ack : Bytes) (h : Accounted S a) (ho : a.closed = false) (hkd : f.kind = .data)
    (htks : a.Takes S now f) : ∃ r, (a.receiveData S f ack now).1 = .ok r := by
  unfold receiveData
  by_cases hdone : (f.stream, f.message) ∈ a.completed
  · exact ⟨⟨[ack], [], []⟩, by rw [if_pos hdone]⟩
  rcases htks with hack | hdone' | ⟨-, hpay, ⟨r, hr, hcnt⟩, hpart⟩ | hf
  · rw [hkd] at hack
    cases hack
  · exact absurd hdone' hdone
  · -- the chunk is stored already
    have hfd : a.incoming.find? (f.stream, f.message) = some r := hr
    obtain ⟨p, hp⟩ := mem_iff_find?.mp hpart
    simp only [storedParts, hfd] at hp
    refine ⟨⟨[ack], [], []⟩, ?_⟩
    simp [hdone, hpay, hfd, hcnt, hp, settle_duplicate h hfd hcnt]
  obtain ⟨done, m, b, -, heq, -⟩ := settle_absorb h ack ho hf
  refine ⟨⟨[ack], m, []⟩, ?_⟩
  have hr : (a.incoming.find? (f.stream, f.message)).getD
      ⟨f.count, .empty, 0, S.timing.reassemblyDeadline now S.limits.reassemblySeconds⟩
        = a.reassemblyFor S now f := rfl
  have hroom : ¬ ((a.incoming.find? (f.stream, f.message)).isNone = true ∧ 4096 ≤ a.incoming.size) := by
    rintro ⟨hnone, hfull⟩
    exact absurd (hf.room (Option.isNone_iff_eq_none.mp hnone)) (not_lt.mpr hfull)
  simp only [hr, if_neg hdone, if_neg hf.payload, if_neg hroom, if_neg (not_not.mpr hf.count), hf.absent,
    if_neg (not_lt.mpr hf.inflight), if_neg (not_lt.mpr hf.message)]
  exact congrArg Prod.fst heq

/-- Sealing an acknowledgement leaves the room there is. -/
theorem ReliableAdapter.Takes.note {g : Frame} (h : a.Takes S now f) : (a.note g).Takes S now f := by
  rcases h with hack | hdone | hstor | hf
  · exact .inl hack
  · exact .inr (.inl hdone)
  · exact .inr (.inr (.inl hstor))
  · exact .inr (.inr (.inr { hf with }))

/-- **`receive` does not raise on a frame it takes.** -/
theorem receive_takes (h : Accounted S a) (ho : a.closed = false) (hdec : S.codec.decode wr = .ok f)
    (htks : a.Takes S now f) : ∃ r, (a.receive S wr now).1 = .ok r := by
  have hadm : S.codec.Admits (ackFrame f) := Codec.ack_admits hdec
  unfold ReliableAdapter.receive
  rw [ho, hdec]
  dsimp only
  rw [Codec.encode_of_admits hadm]
  cases hkd : f.kind with
  | ack =>
    rcases receiveAck_steps h f now ho with heq | ⟨b, heq, -⟩ <;> exact ⟨⟨[], [], []⟩, by simp [heq]⟩
  | extension =>
    -- only a completed extension is taken
    rcases htks with hack | hdone | ⟨hdt, -⟩ | hf
    · rw [hkd] at hack
      cases hack
    · have hdone' : (f.stream, f.message) ∈ (a.note (ackFrame f)).completed := hdone
      exact ⟨⟨[S.codec.sealed (ackFrame f)], [], []⟩, by simp [receiveExtension, hdone']⟩
    · rw [hkd] at hdt
      cases hdt
    have hdt := hf.kind
    rw [hkd] at hdt
    cases hdt
  | data =>
    obtain ⟨r, hr⟩ := receiveData_takes (S.codec.sealed (ackFrame f)) (h.step (.noteAck hadm)) ho hkd
      htks.note
    exact ⟨r, by simpa using hr⟩

/-- The loop raises at a frame that is out of attempts, and changes nothing if it is the first one that is due. -/
theorem resendLoop_error {T : Timing τ} {now rto : τ} {l : List (ChunkKey × Pending τ)} {key : ChunkKey}
    (h : (resendLoop T now rto l).2 = .error key) : (∃ e ∈ l, T.isBefore now e.2.deadline = false ∧ 8 ≤ e.2.attempts) ∧
      ((∀ e ∈ l.find? fun e => !T.isBefore now e.2.deadline, 8 ≤ e.2.attempts) → (resendLoop T now rto l).1 = l) := by
  induction l with
  | nil => cases h
  | cons e es ih =>
    simp only [resendLoop, find?_cons] at h ⊢
    split_ifs at h ⊢ with hbef hlim
    · obtain ⟨⟨e', he', hout⟩, hsm⟩ := ih h
      simp only [hbef]
      exact ⟨⟨e', mem_cons_of_mem e he', hout⟩, fun hfst => congrArg _ (hsm hfst)⟩
    · exact ⟨⟨e, mem_cons_self, by simpa using hbef, hlim⟩, fun _ => rfl⟩
    cases hrs : (resendLoop T now rto es).2 with
    | error key' =>
      obtain ⟨⟨e', he', hout⟩, -⟩ := ih (hrs.trans (by rw [hrs] at h; exact h))
      refine ⟨⟨e', mem_cons_of_mem e he', hout⟩, fun hfst => absurd ?_ hlim⟩
      simpa [hbef] using hfst
    | ok frames =>
      rw [hrs] at h
      cases h

/-- A frame out of attempts stops the loop. -/
theorem resendLoop_raises {T : Timing τ} {now : τ} (rto : τ) {l : List (ChunkKey × Pending τ)}
    (h : ∃ e ∈ l, T.isBefore now e.2.deadline = false ∧ 8 ≤ e.2.attempts) :
    ∃ key, (resendLoop T now rto l).2 = .error key := by
  induction l with
  | nil =>
    obtain ⟨_, ⟨⟩, -⟩ := h
  | cons e es ih =>
    obtain ⟨x, hx, hdue, hout⟩ := h
    have hrest : x ≠ e → ∃ key, (resendLoop T now rto es).2 = .error key :=
      fun hne => ih ⟨x, (mem_cons.mp hx).resolve_left hne, hdue, hout⟩
    simp only [resendLoop]
    split_ifs with hbefore hlimit
    · exact hrest (by rintro rfl; simp_all)
    · exact ⟨_, rfl⟩
    obtain ⟨key, hkey⟩ := hrest (by rintro rfl; exact hlimit hout)
    exact ⟨key, by rw [hkey]; rfl⟩

/-- The first frame that is due is charged if it has attempts left. -/
theorem resendLoop_charges {T : Timing τ} {now : τ} (rto : τ) {l : List (ChunkKey × Pending τ)} {e : ChunkKey × Pending τ}
    (h : (l.find? fun e => !T.isBefore now e.2.deadline) = some e) (hleft : ¬ 8 ≤ e.2.attempts) :
    ∃ p, (e.1, p) ∈ (resendLoop T now rto l).1 ∧ p.attempts = e.2.attempts + 1 := by
  induction l with
  | nil => cases h
  | cons x xs ih =>
    simp only [resendLoop, find?_cons] at h ⊢
    split_ifs with hbefore hlimit
    · simp only [hbefore] at h
      obtain ⟨p, hp, hone⟩ := ih h
      exact ⟨p, mem_cons_of_mem _ hp, hone⟩
    · simp only [hbefore] at h
      cases h
      exact absurd hlimit hleft
    · simp only [hbefore] at h
      cases h
      exact ⟨_, mem_cons_self, rfl⟩

/-- **`retransmit` does not raise while every frame that is due has attempts left.** -/
theorem retransmit_takes (h : Accounted S a) (ho : a.closed = false) (hatt : ¬ a.OutOfAttempts S now) :
    ∃ wires, (a.retransmit S now).1 = .ok wires := by
  cases hloop : (resendLoop S.timing now a.estimator.rto a.pending.entries).2 with
  | error key => exact absurd (resendLoop_error hloop).1 hatt
  | ok frames =>
    obtain ⟨sent, b, hok, -⟩ := outbound_steps now (h.resent ho now) ho
    rw [retransmit_resent ho hloop]
    exact ⟨frames ++ sent.map S.codec.sealed, by simp [hok, Except.map]⟩

/-- What a call that returns has charged is among what it returns. -/
theorem retransmit_returns (h : Accounted S a) (hopen : a.closed = false) {frames : List Bytes} {key : ChunkKey}
    {p p' : Pending τ} (hloop : (resendLoop S.timing now a.estimator.rto a.pending.entries).2 = .ok frames)
    (hp : a.pending.find? key = some p) (hp' : (a.retransmit S now).2.pending.find? key = some p')
    (hnew : (key, p') ∉ a.pending.entries) : ∃ wires, (a.retransmit S now).1 = .ok wires ∧ p.wire ∈ wires := by
  obtain ⟨sent, b, hok, -, hkeeps⟩ := outbound_steps now (h.resent hopen now) hopen
  rw [retransmit_resent hopen hloop, hok] at hp' ⊢
  have hkey : key ∈ ((a.expire S now).resent S now).pending := by
    show key ∈ (resendLoop S.timing now a.estimator.rto a.pending.entries).1.map Prod.fst
    rw [resendLoop_keys]
    exact mem_of_find? hp
  have hmem : (key, p') ∈ (resendLoop S.timing now a.estimator.rto a.pending.entries).1 :=
    find?_eq_some_iff.mp ((hkeeps key hkey).symm.trans hp')
  obtain ⟨e, he, rfl, hwire⟩ := ((resendLoop_ok hloop).2 _ hmem).resolve_left hnew
  obtain rfl : e.2 = p := Option.some.inj ((find?_eq_some_iff.mpr he).symm.trans hp)
  exact ⟨_, rfl, mem_append_left _ hwire⟩

/-- **A chunk is charged an attempt only if its frame is returned**, in a reachable state, exactly if the first chunk
    that is due is out of attempts as soon as any is. In particular nothing is charged then by a call that raises. -/
theorem retransmit_charges (S : Setup τ) (ops : List (Op τ)) (now : τ) :
    (∀ key p p', (S.run S.init ops).pending.find? key = some p →
      ((S.run S.init ops).retransmit S now).2.pending.find? key = some p' →
      p'.attempts ≠ p.attempts ∨ p'.deadline ≠ p.deadline →
        ∃ wires, ((S.run S.init ops).retransmit S now).1 = .ok wires ∧ p.wire ∈ wires) ↔
    ((S.run S.init ops).closed = false → (S.run S.init ops).OutOfAttempts S now →
      ∀ e ∈ (S.run S.init ops).pending.entries.find? fun e => !S.timing.isBefore now e.2.deadline,
        8 ≤ e.2.attempts) := by
  have h : Accounted S (S.run S.init ops) := Accounted.init.run ops
  generalize S.run S.init ops = a at h
  constructor
  · intro hreturned hopen hout e he
    by_contra hleft
    obtain ⟨key, hloop⟩ := resendLoop_raises a.estimator.rto hout
    obtain ⟨p, hp, hone⟩ := resendLoop_charges a.estimator.rto he hleft
    have hfound : a.pending.find? e.1 = some e.2 := find?_eq_some_iff.mpr (mem_of_find?_eq_some he)
    obtain ⟨wires, hok, -⟩ := hreturned e.1 e.2 p hfound
      (by rw [retransmit_exhausted hopen hloop]; exact find?_eq_some_iff.mpr hp) (.inl (by omega))
    rw [retransmit_exhausted hopen hloop] at hok
    cases hok
  · intro hfirst key p p' hp hp' hcharged
    have hnew : (key, p') ∉ a.pending.entries := by
      intro hmem
      obtain rfl : p' = p := Option.some.inj ((find?_eq_some_iff.mpr hmem).symm.trans hp)
      simp at hcharged
    cases hclosed : a.closed with
    | true =>
      rw [ReliableAdapter.retransmit, if_pos hclosed] at hp'
      exact absurd (find?_eq_some_iff.mp hp') hnew
    | false =>
      cases hloop : (resendLoop S.timing now a.estimator.rto a.pending.entries).2 with
      | error key' =>
        rw [retransmit_exhausted hclosed hloop] at hp'
        obtain ⟨hout, hsame⟩ := resendLoop_error hloop
        have hmem : (key, p') ∈ (resendLoop S.timing now a.estimator.rto a.pending.entries).1 :=
          find?_eq_some_iff.mp hp'
        rw [hsame (hfirst hclosed hout)] at hmem
        exact absurd hmem hnew
      | ok frames => exact retransmit_returns h hclosed hloop hp hp' hnew

/-- Two messages are acknowledged between the sending of two others, so that the later one of these is due first; the
    other side is silent from then on. -/
def silentRun : List (Op ℚ) :=
  let ack (message : Nat) : Bytes := (small 1).codec.sealed ⟨.ack, 0, message, 0, 1, []⟩
  [.send 0 [1] 0, .send 0 [2] 0, .receive (ack 0) 1, .send 0 [3] 1, .receive (ack 1) 1, .send 0 [4] 1,
    .retransmit (7 / 2), .retransmit 9, .retransmit 14, .retransmit 19, .retransmit 24, .retransmit 29, .retransmit 34,
    .retransmit 39]

/-- **A chunk is charged its last attempt by a call that raises**, for the sake of a later one that is out of attempts. -/
theorem charged_not_returned :
    (((small 0).run (small 0).init silentRun).pending.find? (0, 2, 0)).map Pending.attempts = some 7 ∧
    (((small 0).run (small 0).init silentRun).retransmit (small 0) 44).1.toOption = none ∧
    ((((small 0).run (small 0).init silentRun).retransmit (small 0) 44).2.pending.find?
      (0, 2, 0)).map Pending.attempts = some 8 := by
  decide +kernel

/-! ## Message numbers

Only sending takes message numbers and only closing closes: the other calls leave the standing of an adapter
as it is. -/

/-- The next number of every stream, and whether the adapter is closed. -/
def ReliableAdapter.standing (a : ReliableAdapter τ) : (Nat → Nat) × Bool := (a.nextMessage, a.closed)

theorem outboundLoop_standing (now : τ) (k : Nat) (a : ReliableAdapter τ) :
    (outboundLoop S now k a).2.standing = a.standing := by
  have htran : ∀ a : ReliableAdapter τ, (transmit S a now).2.standing = a.standing := by
    intro a
    unfold transmit
    split
    · rfl
    split
    · rfl
    · split <;> rfl
  induction k generalizing a with
  | zero => rfl
  | succ k ih =>
    unfold outboundLoop
    split
    · have hone := htran a
      rcases htr : transmit S a now with ⟨_ | wr, b⟩
      · rw [htr] at hone
        exact hone
      rw [htr] at hone
      have hrs := (ih b).trans hone
      dsimp only
      rcases hloop : outboundLoop S now k b with ⟨_ | wires, c⟩ <;>
        · rw [hloop] at hrs
          exact hrs
    · rfl

theorem outbound_standing (now : τ) (a : ReliableAdapter τ) : (a.outbound S now).2.standing = a.standing := by
  unfold outbound
  split
  · rfl
  · exact outboundLoop_standing now _ a

theorem remember_standing (id : Identity) (a : ReliableAdapter τ) : (a.remember id).standing = a.standing := by
  obtain ⟨c, o, heq⟩ := remember_eq a id
  rw [heq]
  rfl

theorem settle_standing (ack : Bytes) (r : Reassembly τ) (a : ReliableAdapter τ) :
    (a.settle S f ack r).2.standing = a.standing := by
  unfold settle
  split
  · split
    · rfl
    split
    · rfl
    · exact remember_standing _ _
  · rfl

theorem receive_standing (wire : Bytes) (now : τ) (a : ReliableAdapter τ) :
    (a.receive S wire now).2.standing = a.standing := by
  have hack : ∀ f, (a.receiveAck S f now).2.standing = a.standing := by
    intro f
    unfold receiveAck
    split
    · rfl
    rename_i p _
    dsimp only
    split
    · rfl
    rename_i o _
    obtain ⟨e, heq⟩ := sampled_eq S now p
      (({ a with pending := a.pending.erase (f.stream, f.message, f.index) } : ReliableAdapter τ).release
        (f.stream, f.message) o)
    rw [heq]
    unfold release
    split <;> rfl
  have hext : ∀ f ack, ((a.note (ackFrame f)).receiveExtension S f ack).2.standing = a.standing := by
    intro f ack
    unfold receiveExtension
    split
    · rfl
    split
    · rfl
    · exact remember_standing _ _
  have hdt : ∀ f ack, ((a.note (ackFrame f)).receiveData S f ack now).2.standing = a.standing := by
    intro f ack
    unfold receiveData
    dsimp only
    split_ifs <;> first | rfl | exact settle_standing _ _ _
  unfold ReliableAdapter.receive
  split
  · rfl
  split
  · rfl
  split
  · exact hack _
  split
  · rfl
  split
  · exact hext _ _
  · exact hdt _ _

theorem retransmit_standing (now : τ) (a : ReliableAdapter τ) : (a.retransmit S now).2.standing = a.standing := by
  cases hcl : a.closed with
  | true => simp [ReliableAdapter.retransmit, hcl]
  | false =>
    cases hloop : (resendLoop S.timing now a.estimator.rto a.pending.entries).2 with
    | error key =>
      rw [retransmit_exhausted hcl hloop]
      rfl
    | ok frames =>
      rw [retransmit_resent hcl hloop]
      exact outbound_standing now _

/-- A flow-controlled send gives the message the next number of its stream, or changes nothing. -/
theorem sendFlowControlled_nextMessage (h : Accounted S a) (stream : Nat) (dt : Bytes) (now : τ) :
    (∃ e, a.sendFlowControlled S stream dt now = (.error e, a)) ∨
    ((∃ wires, (a.sendFlowControlled S stream dt now).1 = .ok wires) ∧
      (a.sendFlowControlled S stream dt now).2.nextMessage
        = Function.update a.nextMessage stream (a.nextMessage stream + 1)) := by
  rcases sendFlowControlled_eq (S := S) (a := a) stream dt now with ⟨e, -, heq⟩ | ⟨-, heq⟩
  · exact .inl ⟨e, heq⟩
  rw [heq]
  rcases send_cases (S := S) (a := a) stream dt now with ⟨e, -, heq⟩ | ⟨-, ho, hstep, heq⟩
  · exact .inl ⟨e, heq⟩
  obtain ⟨frames, b, hok, -⟩ := outbound_steps now (h.step hstep) ho
  rw [heq]
  exact .inr ⟨⟨_, congrArg Prod.fst hok⟩, congrArg Prod.fst (outbound_standing now _)⟩

end

end Shadow6.NetworkAdapter
