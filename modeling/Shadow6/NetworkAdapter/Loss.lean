import Shadow6.NetworkAdapter.Link

/-!
# `NetworkAdapter.Loss` — when an acknowledged message is a delivered one

The sender forgets a message when every chunk is acknowledged. The receiver acknowledges a chunk when it
stores it, but drops an unfinished reassembly state at its deadline, together with the chunks it has
already acknowledged. So a message can be acknowledged in full and never be delivered
(`acknowledged_not_returned`). It cannot happen as long as `retransmit` of the receiver finds no unreturned
message overdue (`acknowledged_was_returned`).
-/

namespace Shadow6.NetworkAdapter

open Library ReliableAdapter List Function Pair

variable {τ : Type}

/-! ## The condition -/

/-- The instant at which an event retransmits on `side`, if it does. -/
def Event.retransmits (side : Side) : Event τ → Option τ
  | .call s (.retransmit now) _ => if s = side then some now else none
  | _ => none

/-- If the event is a `retransmit` of `side`, the reassembly states it drops are of messages that `side`
    has already returned. -/
def Pair.DropsReturned (P : Pair τ) (side : Side) (l : Link τ) (e : Event τ) : Prop :=
  ∀ now ∈ e.retransmits side, ∀ id ∈ (l side).adapter.overdue (P.setup side) now,
    ∃ m ∈ (l side).returned, (m.stream, m.number) = id

instance (P : Pair τ) (side : Side) (l : Link τ) (e : Event τ) : Decidable (P.DropsReturned side l e) :=
  inferInstanceAs (Decidable (∀ now ∈ _, ∀ id ∈ _, ∃ m ∈ _, _ = id))

section

variable {P : Pair τ} {l : Link τ} {ns : Side → List Note} {S : Setup τ} {a b : ReliableAdapter τ} {sd : Side}
  {m : Message}

/-! ## Confirmed chunks along a run -/

theorem Kept.steps {hs ms : List Note} (h : Kept hs a)
    (hkinds : ∀ f g done done', .confirmed f done ∈ hs ++ ms → .confirmed g done' ∈ hs ++ ms →
      (f.stream, f.message) = (g.stream, g.message) → f.kind = g.kind)
    (hexp : ∀ ids, .expired ids ∈ ms → ∀ id ∈ ids, Returned hs id) (hsts : Steps S a ms b) :
    Kept (hs ++ ms) b := by
  induction hsts generalizing hs with
  | refl => simpa using h
  | @head a b c n ms hstep _ ih =>
    have hsub : ∀ m ∈ hs ++ [n], m ∈ hs ++ n :: ms := by
      intro m hm
      rcases mem_snoc.mp hm with hm | rfl
      · exact mem_append_left _ hm
      · exact mem_append_right _ mem_cons_self
    have hone := h.step (fun f g done done' hf hg => hkinds f g done done' (hsub _ hf) (hsub _ hg))
      (fun ids hn => hexp ids (hn ▸ mem_cons_self)) hstep
    rw [← singleton_append, ← append_assoc] at hkinds ⊢
    exact ih hone hkinds fun ids hids id hid => (hexp ids (mem_cons_of_mem _ hids) id hid).snoc

/-- Frames of one identity have one kind: a number goes to a message or to an extension. -/
theorem Numbering.same_kind {ns : List Note} (h : Numbering S ns a) {f g : Frame} (hf : .emitted f ∈ ns)
    (hg : .emitted g ∈ ns) (hid : (f.stream, f.message) = (g.stream, g.message)) : f.kind = g.kind := by
  have hdif : ∀ {f g : Frame}, .emitted f ∈ ns → .emitted g ∈ ns →
      (f.stream, f.message) = (g.stream, g.message) → f.kind = .data → g.kind ≠ .extension := by
    intro f g hf hg hid hdt hext
    obtain ⟨d, hd, -⟩ := h.chunks f hf hdt
    simp only [Prod.mk.injEq] at hid
    rw [hid.1, hid.2] at hd
    exact h.extensions g hg hext d hd
  have hfk := (h.admits f hf).2
  have hgk := (h.admits g hg).2
  cases hkf : f.kind with
  | ack => exact absurd hkf hfk
  | data =>
    cases hkg : g.kind with
    | ack => exact absurd hkg hgk
    | data => rfl
    | extension => exact absurd hkg (hdif hf hg hid hkf)
  | extension =>
    cases hkg : g.kind with
    | ack => exact absurd hkg hgk
    | data => exact absurd hkf (hdif hg hf hid.symm hkg)
    | extension => rfl

/-- Only `retransmit` lets reassembly states expire. -/
theorem Served.expired {op : Op τ} {r : Except PyError Reply} {ms : List Note} {ids : List Identity}
    (h : Served S a op r ms) (hids : .expired ids ∈ ms) : ∃ now, op = .retransmit now ∧ ids = a.overdue S now := by
  cases h with
  | @retransmit now _ _ _ | @exhaust now _ => exact ⟨now, rfl, by simpa using hids⟩
  | _ => simp at hids

/-- Along a run that drops only reassembly states of returned messages, the receiver keeps what it has
    confirmed. -/
theorem Linked.step_kept {e : Event τ} (h : Linked P l ns) (hkept : Kept (ns sd) (l sd).adapter)
    (hok : P.DropsReturned sd l e) :
    ∃ ns', Linked P (P.step l e) ns' ∧ Kept (ns' sd) (P.step l e sd).adapter := by
  have hevent : ∀ s op, P.step l e = update l s ((l s).call (P.setup s) op) →
      (∀ wr now, op = .receive wr now → wr ∈ (l s.other).wires) →
      (∀ now, s = sd → op = .retransmit now → e.retransmits sd = some now) →
      ∃ ns', Linked P (P.step l e) ns' ∧ Kept (ns' sd) (P.step l e sd).adapter := by
    intro s op heq hauth hretr
    obtain ⟨ms, hserv, hsts⟩ := apply_served (h.follows s).accounted op
    have hlin := h.call hauth hserv hsts
    rw [heq]
    refine ⟨_, hlin, ?_⟩
    by_cases hs : sd = s
    · subst hs
      have hhd := hlin.hears sd
      simp only [update_self, update_of_ne sd.other_ne] at hhd ⊢
      refine hkept.steps ?_ ?_ hsts
      · intro f g done done' hf hg hid
        exact (h.follows sd.other).numbering.same_kind (hhd.confirmed f done hf) (hhd.confirmed g done' hg) hid
      · intro ids hids id hid
        obtain ⟨now, rfl, rfl⟩ := hserv.expired hids
        obtain ⟨m, hm, rfl⟩ := hok now (hretr now rfl rfl) id hid
        obtain ⟨f, hf, hfs, hfn⟩ := ((h.follows sd).returned m).mp hm
        exact ⟨f, m.data, hf, by rw [hfs, hfn]⟩
    · simp only [update_of_ne hs]
      exact hkept
  cases e with
  | call s op hop =>
    refine hevent s op rfl ?_ ?_
    · rintro wr now rfl
      cases hop
    · rintro now rfl rfl
      simp [Event.retransmits]
  | deliver s n now =>
    cases hw : (l s.other).wires[n]? with
    | none =>
      have heq : P.step l (.deliver s n now) = l := by simp only [Pair.step, hw]
      rw [heq]
      exact ⟨ns, h, hkept⟩
    | some wr =>
      refine hevent s (.receive wr now) (by simp only [Pair.step, hw]) ?_ ?_
      · intro wr' now' heq
        cases heq
        exact mem_of_getElem? hw
      · intro now' _ heq
        cases heq

/-! ## Acknowledged in full means returned -/

/-- Nothing of a message that left `outgoing` is queued or in flight: all its chunks were acknowledged. -/
theorem Follows.released {e : Endpoint τ} {hs : List Note} (h : Follows S e hs) (hm : m ∈ e.sent)
    (hout : (m.stream, m.number) ∉ e.adapter.outgoing) (hopen : e.adapter.closed = false) :
    ∀ i < chunkCount m.data.length S.codec.payload, .released (m.stream, m.number, i) ∈ hs := by
  intro i hi
  rcases h.tracking.traced hopen _ _ _ ((h.sent m).mp hm) i hi with hp | ⟨item, hit, hn, -⟩ | hr
  · exact absurd (h.accounted.sending.pending_outgoing _ hp) hout
  · have hmem := (h.accounted.sending.queued m.stream item hit).2.2.2
    rw [hn] at hmem
    exact absurd hmem hout
  · exact hr

/-- A reassembly state is never complete, so it lacks some chunk. -/
theorem Reassembling.missing (h : Reassembling S a) {id : Identity} {r : Reassembly τ}
    (hr : a.incoming.find? id = some r) : ∃ i < r.count, i ∉ r.parts := by
  by_contra hall
  push Not at hall
  have hsz := (h.state id r hr).2.1
  have hsub : range r.count ⊆ r.parts.entries.map Prod.fst := fun i hi => hall i (mem_range.mp hi)
  have hle := (subperm_of_subset nodup_range hsub).length_le
  rw [length_range, length_map] at hle
  exact absurd hsz (not_lt.mpr hle)

/-- A returned identity is a returned message, if it is the identity of a sent one. -/
theorem Linked.returned_of (h : Linked P l ns) (hm : m ∈ (l sd).sent)
    (hret : Returned (ns sd.other) (m.stream, m.number)) : m ∈ (l sd.other).returned := by
  obtain ⟨f, data, hf, hid⟩ := hret
  simp only [Prod.mk.injEq] at hid
  have hsn := (h.hears sd.other).delivered f data hf
  rw [Side.other_other, hid.1, hid.2] at hsn
  have hdt := (h.follows sd).numbering.unique _ _ _ _ hsn (((h.follows sd).sent m).mp hm)
  exact ((h.follows sd.other).returned m).mpr ⟨f, hdt ▸ hf, hid.1, hid.2⟩

/-- A confirmed chunk of a sent message is a `DATA` frame. -/
theorem Linked.confirmed_data (h : Linked P l ns) {f : Frame} {dn : Option (Option Bytes)} (hm : m ∈ (l sd).sent)
    (hf : .confirmed f dn ∈ ns sd.other) (hid : (f.stream, f.message) = (m.stream, m.number)) : f.kind = .data := by
  have hem := (h.hears sd.other).confirmed f dn hf
  rw [Side.other_other] at hem
  cases hk : f.kind with
  | data => rfl
  | ack => exact absurd hk ((h.follows sd).numbering.admits f hem).2
  | extension =>
    simp only [Prod.mk.injEq] at hid
    have hnot := (h.follows sd).numbering.extensions f hem hk m.data
    rw [hid.1, hid.2] at hnot
    exact absurd (((h.follows sd).sent m).mp hm) hnot

/-- **No silent loss, while no unfinished reassembly expires.** Take any run in which each `retransmit` of
    the receiver drops only reassembly states of messages it has already returned. A message that the
    sender has accepted and no longer lists in `outgoing` has been returned by the receiver (both open). -/
theorem acknowledged_was_returned (P : Pair τ) (events : List (Event τ)) (side : Side)
    (hok : Along P.step (P.DropsReturned side.other) P.init events) :
    ∀ m ∈ (P.run events side).sent, (m.stream, m.number) ∉ (P.run events side).adapter.outgoing →
      (P.run events side).adapter.closed = false → (P.run events side.other).adapter.closed = false →
      m ∈ (P.run events side.other).returned := by
  obtain ⟨ns, h, hkept⟩ := hok.invariant
    (I := fun l => ∃ ns, Linked P l ns ∧ Kept (ns side.other) (l side.other).adapter)
    (fun _ _ hl hd => hl.elim fun _ hl => hl.1.step_kept hl.2 hd) ⟨_, Linked.init P, .init⟩
  intro m hm hout hopen hopen'
  by_contra hnot
  have hnum := (h.follows side).numbering
  have hsent := ((h.follows side).sent m).mp hm
  have hpos : 0 < (P.setup side).codec.payload :=
    lt_of_lt_of_le (by decide) (P.setup side).codec.payload_bounds.1
  -- each chunk was acknowledged, hence confirmed, hence is still in reassembly
  have hparts : ∀ i < chunkCount m.data.length (P.setup side).codec.payload,
      ∃ r, (P.run events side.other).adapter.incoming.find? (m.stream, m.number) = some r ∧ i ∈ r.parts := by
    intro i hi
    have hrel := (h.follows side).released hm hout hopen i hi
    obtain ⟨f, done, hf, hkey⟩ := (h.hears side).released _ hrel
    simp only [Prod.mk.injEq] at hkey
    have hid : (f.stream, f.message) = (m.stream, m.number) := by rw [hkey.1, hkey.2.1]
    rcases hkept.kept hopen' f done hf (h.confirmed_data hm hf hid) with hret | hr
    · exact absurd (h.returned_of hm (hid ▸ hret)) hnot
    · rw [hid, ← hkey.2.2] at hr
      exact hr
  -- all of them in one state, which is then complete
  have hone := chunkCount_pos hpos (length_pos_iff.mpr (hnum.nonempty _ _ _ hsent))
  obtain ⟨r, hr, -⟩ := hparts 0 hone
  obtain ⟨d, hd, hcount, -⟩ := (h.hears side.other).assembled _ r hr
  rw [Side.other_other] at hd
  obtain ⟨i, hi, hmissing⟩ := (h.follows side.other).accounted.reassembling.missing hr
  have hdata : d = m.data := hnum.unique _ _ _ _ hd hsent
  rw [hcount, hdata, ← (P.agree side).1] at hi
  obtain ⟨r', hr', hmem⟩ := hparts i hi
  rw [hr] at hr'
  exact hmissing (Option.some.inj hr' ▸ hmem)

end

/-- The receiver calls `retransmit` between the two chunks of a message, before the deadline: the condition
    holds, the sender forgets the message, and it has been returned. -/
def patientRun : List (Event ℚ) :=
  [.call .a (.send 0 (replicate 65 1) 0), .deliver .b 0 0, .deliver .a 0 0, .call .b (.retransmit 10),
    .deliver .b 1 11, .deliver .a 1 11]

theorem patient_was_returned : Along small.step (small.DropsReturned .b) small.init patientRun ∧
      (small.run patientRun .a).adapter.outgoing.size = 0 ∧
      (⟨0, 0, replicate 65 1⟩ : Message) ∈ (small.run patientRun .b).returned := by
  have hok : Along small.step (small.DropsReturned .b) small.init patientRun := by
    decide +kernel
  refine ⟨hok, by decide +kernel, ?_⟩
  exact acknowledged_was_returned small patientRun .a hok ⟨0, 0, replicate 65 1⟩
    (by decide +kernel) (by decide +kernel) (by decide +kernel) (by decide +kernel)

/-- The second chunk is lost and the receiver calls `retransmit` at the reassembly deadline of 30 seconds.
    The retransmitted second chunk starts a new reassembly state and is acknowledged. -/
def lossyRun : List (Event ℚ) :=
  [.call .a (.send 0 (replicate 65 1) 0), .deliver .b 0 0, .deliver .a 0 0, .call .b (.retransmit 30),
    .call .a (.retransmit 30), .deliver .b 2 31, .deliver .a 1 31]

/-- **A message can be acknowledged in full and never be returned**: the sender has nothing left to send,
    the receiver has returned nothing, and neither is closed. -/
theorem acknowledged_not_returned : (⟨0, 0, replicate 65 1⟩ : Message) ∈ (small.run lossyRun .a).sent ∧
      (0, 0) ∉ (small.run lossyRun .a).adapter.outgoing ∧
      (small.run lossyRun .a).adapter.pending.size = 0 ∧
      (small.run lossyRun .a).adapter.closed = false ∧
      (small.run lossyRun .b).adapter.closed = false ∧
      (small.run lossyRun .b).returned = [] := by
  decide +kernel

end Shadow6.NetworkAdapter
