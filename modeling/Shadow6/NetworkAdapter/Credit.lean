import Shadow6.NetworkAdapter.History

/-!
# `NetworkAdapter.Credit` — the application credit of an adapter

`application_credit` is computed from the outgoing messages, the window is kept by the frames in flight. When data is
sent through `send_flow_controlled` only, a message is sent whole by the call that accepts it, so no queue holds a
chunk between two calls and the credit is what the window leaves (`credit_conserved`).
-/

namespace Shadow6.NetworkAdapter

open Library ReliableAdapter List Function Dict

variable {τ : Type} {S : Setup τ} {a b : ReliableAdapter τ}

/-- No queue holds a chunk. -/
def ReliableAdapter.Drained (a : ReliableAdapter τ) : Prop := ∀ s, a.queues s = []

/-! ## The credit of a drained adapter -/

/-- What is owed for the outgoing messages is what is in flight. -/
theorem Sending.owed (h : Sending S a) (hdrn : a.Drained) :
    (a.outgoing.sumOf fun _ o => o.remaining) = a.pending.size := by
  have hrem : (a.outgoing.sumOf fun _ o => o.remaining) = a.outgoing.sumOf fun id _ =>
      ∑ key ∈ (a.pending.entries.map Prod.fst).toFinset, if (key.1, key.2.1) = id then (1 : Int) else 0 := by
    refine sumOf_congr fun id o ho => ?_
    rw [(h.remaining id o (find?_eq_some_iff.mpr ho)).2, unsentOf, hdrn, pendingOf, sumOf_key,
      sum_toFinset _ a.pending.nodup]
    exact add_zero _
  -- each frame in flight is counted for its own message, and for no other
  have hone : ∀ key ∈ (a.pending.entries.map Prod.fst).toFinset,
      (∑ id ∈ (a.outgoing.entries.map Prod.fst).toFinset, if (key.1, key.2.1) = id then (1 : Int) else 0) = 1 := by
    intro key hkey
    rw [Finset.sum_ite_eq, if_pos (mem_toFinset.mpr (h.pending_outgoing key (mem_toFinset.mp hkey)))]
  rw [hrem, sumOf_key, ← sum_toFinset _ a.outgoing.nodup, Finset.sum_comm, Finset.sum_congr rfl hone,
    Finset.sum_const, toFinset_card_of_nodup a.pending.nodup, length_map]
  exact mul_one _

theorem Sending.size_le_owed (h : Sending S a) : (a.outgoing.size : Int) ≤ a.outgoing.sumOf fun _ o => o.remaining := by
  rw [size_eq_sumOf]
  refine sum_le_sum fun e he => ?_
  exact (h.remaining e.1 e.2 (find?_eq_some_iff.mpr he)).1

theorem Sending.credit (h : Sending S a) (hopen : a.closed = false) (hdrn : a.Drained) :
    a.applicationCredit S + a.pending.size = S.window := by
  have howed := h.owed hdrn
  have hsz := h.size_le_owed
  have hwin := h.window
  have hmax : S.window ≤ 4096 := (min_le_right _ _).trans S.limits.maxWindow_safe.2
  rw [applicationCredit, if_neg (ne_true_of_eq_false hopen), howed]
  omega

/-! ## Sending a message at once -/

/-- The frames of a message from the given index on. -/
def messageFrames (S : Setup τ) (stream : Nat) (item : Item) : List Frame :=
  (range' item.index (item.count - item.index)).map fun i => chunkFrame S stream { item with index := i }

theorem outboundLoop_idle (now : τ) (k : Nat) (h : a.activeStreams = []) : outboundLoop S now k a = (.ok [], a) := by
  cases k with
  | zero => rfl
  | succ k => rw [outboundLoop, if_neg fun hgo => hgo.2 h]

/-- With room for it in the window the loop sends what is left of the only message. -/
theorem outboundLoop_drains (now : τ) (k : Nat) {stream : Nat} {it : Item} (h : Accounted S a)
    (hopen : a.closed = false) (hqs : a.queues = update (fun _ => []) stream [it])
    (hact : a.activeStreams = [stream]) (hfuel : it.count - it.index ≤ k)
    (hroom : a.pending.size + (it.count - it.index) ≤ S.window) :
    (outboundLoop S now k a).1 = .ok ((messageFrames S stream it).map S.codec.sealed) ∧
      (outboundLoop S now k a).2.Drained := by
  induction k generalizing a it with
  | zero =>
    have hidx := (h.sending.queued stream it (by rw [hqs]; simp)).2.1
    omega
  | succ k ih =>
    have hit : a.queues stream = [it] := by rw [hqs, update_self]
    have hidx := (h.sending.queued stream it (hit ▸ mem_singleton_self it)).2.1
    have hadm := h.sending.chunk_admits (hit ▸ mem_singleton_self it)
    have hgo : a.pending.size < S.window ∧ a.activeStreams ≠ [] := ⟨by omega, by simp [hact]⟩
    have hrnd : transmit S a now
        = (.ok (S.codec.sealed (chunkFrame S stream it)), a.transmitted S now stream [] it []) := by
      simp only [transmit, hact, hit, Codec.encode_of_admits hadm]
    have hstep : Accounted S (a.transmitted S now stream [] it []) :=
      h.step (.transmit hopen hgo.1 hact hit hadm)
    have hsz : (a.transmitted S now stream [] it []).pending.size = a.pending.size + 1 := by
      refine size_set_absent (not_mem_iff_find?.mp fun hmem => ?_)
      exact lt_irrefl _ (h.sending.ahead stream it (hit ▸ mem_singleton_self it) it.index hmem)
    have hcut : it.count - it.index = it.count - (it.index + 1) + 1 := by omega
    simp only [outboundLoop, if_pos hgo, hrnd, messageFrames, hcut, range'_succ, map_cons]
    by_cases hlast : it.index + 1 = it.count
    · have hidle : (a.transmitted S now stream [] it []).activeStreams = [] := by simp [transmitted, advance, hlast]
      have hnone : it.count - (it.index + 1) = 0 := by omega
      rw [outboundLoop_idle now k hidle, hnone]
      refine ⟨rfl, fun s => ?_⟩
      simp [transmitted, advance, hlast, hqs]
    have hrs : (a.transmitted S now stream [] it []).queues
        = update (fun _ => []) stream [{ it with index := it.index + 1 }] := by
      simp [transmitted, advance, hlast, hqs]
    obtain ⟨hws, hdrn⟩ := ih hstep hopen hrs (by simp [transmitted, advance, hlast])
      (by dsimp only; omega) (by rw [hsz]; dsimp only; omega)
    generalize outboundLoop S now k (a.transmitted S now stream [] it []) = r at hws hdrn
    obtain ⟨_ | wires, b⟩ := r
    · cases hws
    cases hws
    exact ⟨rfl, hdrn⟩

/-- A flow-controlled send is refused, or returns the frames of its whole message and leaves the queues empty. -/
theorem sendFlowControlled_drains (h : Accounted S a) (hdrn : a.Drained) (stream : Int) (dt : Bytes) (now : τ) :
    (∃ e, a.sendFlowControlled S stream dt now = (.error e, a)) ∨
    ((a.sendFlowControlled S stream dt now).1 = .ok ((messageFrames S stream.toNat
      ⟨a.nextMessage stream.toNat, dt, 0, chunkCount dt.length S.codec.payload⟩).map S.codec.sealed) ∧
      (a.sendFlowControlled S stream dt now).2.Drained) := by
  rcases sendFlowControlled_eq (S := S) (a := a) stream dt now with ⟨e, -, heq⟩ | ⟨hcred, heq⟩ <;> rw [heq]
  · exact .inl ⟨e, rfl⟩
  rcases send_cases (S := S) (a := a) stream dt now with ⟨e, -, heq⟩ | ⟨-, hopen, hstep, heq⟩ <;> rw [heq]
  · exact .inl ⟨e, rfl⟩
  have hbal := h.sending.credit hopen hdrn
  have hqu := hdrn stream.toNat
  have hidle : a.activeStreams = [] := by
    refine eq_nil_iff_forall_not_mem.mpr fun s hs => ?_
    exact (h.sending.active.mem s).mp hs (hdrn s)
  have hopen' : (a.enqueue S stream.toNat dt).closed = false := hopen
  rw [outbound, if_neg (ne_true_of_eq_false hopen')]
  refine .inr (outboundLoop_drains now _ (h.step hstep) hopen ?_ ?_ ?_ ?_)
  · simp [enqueue, funext hdrn]
  · simp [enqueue, hqu, hidle]
  · simp only [enqueue]
    omega
  · simp only [enqueue]
    omega

/-! ## Runs -/

variable {n : Note} {ns : List Note}

/-- A step that accepts nothing leaves drained queues as they are. -/
theorem Step.drained (h : Step S a n b) (hdrn : a.Drained) (hn : ∀ s m d, n ≠ .accepted s m d) : b.Drained := by
  have hinert : (∀ f, n ≠ .emitted f) → b.Drained := by
    intro hemit s
    refine eq_nil_iff_forall_not_mem.mpr fun item hit => ?_
    have hold := (h.inert hn hemit).queues s item hit
    rw [hdrn s] at hold
    cases hold
  cases n with
  | emitted f =>
    cases h with
    | transmit _ _ _ hqu _ => exact absurd (hqu.symm.trans (hdrn _)) (cons_ne_nil _ _)
    | extend _ _ _ => exact hdrn
  | _ => exact hinert nofun

theorem Steps.drained (h : Steps S a ns b) (hdrn : a.Drained) (hns : ∀ s m d, .accepted s m d ∉ ns) : b.Drained := by
  induction h with
  | refl => exact hdrn
  | head hstep _ ih =>
    refine ih (hstep.drained hdrn fun s m d heq => ?_) fun s m d hmem => hns s m d (mem_cons_of_mem _ hmem)
    exact hns s m d (heq ▸ mem_cons_self)

/-- Is data sent through `send_flow_controlled` only? -/
def Op.credited : Op τ → Bool
  | .send _ _ _ => false
  | _ => true

theorem Accounted.apply_drained (h : Accounted S a) (hdrn : a.Drained) {op : Op τ} (hop : op.credited = true) :
    (S.apply a op).2.Drained := by
  obtain ⟨notes, hserv, hsts⟩ := apply_served h op
  generalize (S.apply a op).1 = answer at hserv
  cases op with
  | send => cases hop
  | sendFlowControlled stream data now =>
    rcases sendFlowControlled_drains h hdrn stream data now with ⟨e, heq⟩ | ⟨-, haft⟩
    · rw [Setup.apply, heq]
      exact hdrn
    · exact haft
  | _ => exact hsts.drained hdrn (by cases hserv <;> simp)

theorem Accounted.run_drained (h : Accounted S a) (hdrn : a.Drained) {ops : List (Op τ)}
    (hops : ∀ op ∈ ops, op.credited = true) : (S.run a ops).Drained := by
  induction ops generalizing a with
  | nil => exact hdrn
  | cons op ops ih =>
    obtain ⟨hop, hops⟩ := forall_mem_cons.mp hops
    exact ih (h.apply op) (h.apply_drained hdrn hop) hops

/-- **Credit is conserved.** In every run that sends data through `send_flow_controlled` only, the credit of an open
    adapter and the frames that are not acknowledged make up the window, the queues are empty between the calls, and
    an accepted call returns all frames of its message. -/
theorem credit_conserved (S : Setup τ) (ops : List (Op τ)) (hops : ∀ op ∈ ops, op.credited = true) :
    ((S.run S.init ops).closed = false →
      (S.run S.init ops).applicationCredit S + (S.run S.init ops).pending.size = S.window) ∧
    (∀ stream, (S.run S.init ops).queues stream = []) ∧
    ∀ stream data now wires, ((S.run S.init ops).sendFlowControlled S stream data now).1 = .ok wires →
      wires = (messageFrames S stream.toNat ⟨(S.run S.init ops).nextMessage stream.toNat, data, 0,
        chunkCount data.length S.codec.payload⟩).map S.codec.sealed := by
  have h : Accounted S (S.run S.init ops) := Accounted.init.run ops
  have hdrained : (S.run S.init ops).Drained := Accounted.init.run_drained (fun _ => rfl) hops
  generalize S.run S.init ops = a at h hdrained ⊢
  refine ⟨fun hopen => h.sending.credit hopen hdrained, hdrained, fun stream data now wires hok => ?_⟩
  rcases sendFlowControlled_drains h hdrained stream data now with ⟨e, heq⟩ | ⟨hwires, -⟩
  · rw [heq] at hok
    cases hok
  · exact Except.ok.inj (hok.symm.trans hwires)

/-- A message of two chunks. -/
def creditedRun : List (Op ℚ) := [.sendFlowControlled 0 (replicate 65 1) 0]

theorem credit_conserved_two_chunks :
    ((Setup.small 0).run (Setup.small 0).init creditedRun).applicationCredit (Setup.small 0) + 2
      = (Setup.small 0).window :=
  (credit_conserved (Setup.small 0) creditedRun (by simp [creditedRun, Op.credited])).1 rfl

end Shadow6.NetworkAdapter
