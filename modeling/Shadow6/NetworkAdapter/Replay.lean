import Shadow6.Library.Recency
import Shadow6.NetworkAdapter.Runs

/-!
# `NetworkAdapter.Replay` — the replay window of the receiver

A completed identity (stream, message number) is remembered among the last 4096 and a frame of a
remembered identity is acknowledged but not delivered. Three paths complete an identity (a one-chunk
message, the last chunk of a longer one, an extension event); all of them go through `remember`, so the
log of completions is `Spaced 4096` and the memory of the adapter is its recent end.
-/

namespace Shadow6.NetworkAdapter

open Library ReliableAdapter List Setup

variable {τ : Type}

/-! ## The log of completions -/

/-- The identities that a call delivers: one for each message and each event it returns. -/
def Setup.completions (S : Setup τ) : Op τ → Except PyError Reply → List Identity
  | .receive wire _, .ok (.received r) =>
    match S.codec.decode wire with
    | .ok f => r.messages.map (fun _ => (f.stream, f.message)) ++ r.events.map fun _ => (f.stream, f.message)
    | .error _ => []
  | _, _ => []

/-- The identities delivered by a run, in order. -/
def Setup.deliveries (S : Setup τ) (a : ReliableAdapter τ) : List (Op τ) → List Identity
  | [] => []
  | op :: ops => S.completions op (S.apply a op).1 ++ S.deliveries (S.apply a op).2 ops

/-- The identities completed by a step. -/
def Note.completed : Note → List Identity
  | .confirmed f (some _) => [(f.stream, f.message)]
  | _ => []

section

variable {S : Setup τ} {a b : ReliableAdapter τ}

theorem completed_emitted (fs : List Frame) : (fs.map Note.emitted).flatMap Note.completed = [] := by
  rw [flatMap_eq_nil_iff]
  intro n hn
  obtain ⟨f, -, rfl⟩ := mem_map.mp hn
  rfl

theorem Served.completions {op : Op τ} {r : Except PyError Reply} {ns : List Note}
    (h : Served S a op r ns) : S.completions op r = ns.flatMap Note.completed := by
  cases h with
  | refuse _ => cases op <;> rfl
  | refuseFrame _ | refuseExtension _ | extension _ | close => rfl
  | send _ | sendFlowControlled _ | retransmit _ => simp [Setup.completions, Note.completed, completed_emitted]
  | outbound => simp [Setup.completions, completed_emitted]
  | stale hdec _ => simp [Setup.completions, hdec]
  | release hdec _ => simp [Setup.completions, hdec, Note.completed]
  | confirm hdec _ hdone =>
    cases hdone with
    | nothing | event name value | message data => simp [Setup.completions, hdec, Note.completed]
  | exhaust => simp [Setup.completions, Note.completed]

/-! ## The memory of the adapter -/

/-- The adapter remembers the end of the log. A closed adapter has forgotten everything, but it delivers
    nothing either. -/
structure Remembers (log : List Identity) (a : ReliableAdapter τ) : Prop where
  spaced : Spaced 4096 log
  order : a.closed = false → a.completedOrder = lastN 4096 log
  completed : a.closed = false → a.completed = a.completedOrder.toFinset

theorem Remembers.init : Remembers [] S.init := ⟨.nil, fun _ => rfl, fun _ => rfl⟩

variable {log : List Identity}

/-- A step that completes nothing logs nothing. -/
theorem Remembers.quiet {n : Note} (h : Remembers log b) (hn : n.completed = []) :
    Remembers (log ++ n.completed) b := by
  rw [hn, append_nil]
  exact h

/-- The set that `_remember` leaves is the set of the order it leaves. -/
theorem erase_oldest {key ol : Identity} {o r : List Identity} (hnd : (o ++ [key]).Nodup)
    (h : o ++ [key] = ol :: r) : (insert key o.toFinset).erase ol = r.toFinset := by
  have hset : insert key o.toFinset = (o ++ [key]).toFinset := by
    ext x
    simp only [Finset.mem_insert, mem_toFinset, mem_append, mem_singleton]
    exact or_comm
  rw [h] at hnd hset
  rw [hset, toFinset_cons, Finset.erase_insert]
  rw [mem_toFinset]
  exact (nodup_cons.mp hnd).1

/-- Completing a fresh identity logs it. -/
theorem Remembers.remember {key : Identity} (h : Remembers log a) (ho : a.closed = false)
    (hfsh : key ∉ a.completed) : Remembers (log ++ [key]) (a.remember key) := by
  have hord := h.order ho
  have hset := h.completed ho
  have hnew : key ∉ lastN 4096 log := by
    rw [hset, mem_toFinset, hord] at hfsh
    exact hfsh
  have hnd : (a.completedOrder ++ [key]).Nodup := by
    rw [hord]
    exact h.spaced.nodup_lastN.append (nodup_singleton _) (by simpa using hnew)
  have hlen : a.completedOrder.length = min 4096 log.length := by rw [hord, length_lastN]
  refine ⟨h.spaced.snoc hnew, fun _ => ?_, fun _ => ?_⟩
  · unfold ReliableAdapter.remember
    split
    · rename_i oldest r heq
      rw [← heq, length_append, length_singleton, hlen]
      split_ifs with hfull
      · rw [lastN_append_of_le key (by omega), ← hord, heq]
        rfl
      · rw [lastN_append_of_lt key (by omega), ← hord, heq]
    · rename_i heq
      simp at heq
  unfold ReliableAdapter.remember
  split
  · rename_i oldest r heq
    split_ifs
    · rw [hset]
      exact erase_oldest hnd heq
    rw [hset, ← heq]
    ext x
    simp only [Finset.mem_insert, mem_toFinset, mem_append, mem_singleton]
    exact or_comm
  · rename_i heq
    simp at heq

theorem Remembers.step {n : Note} (h : Remembers log a) (hstep : Step S a n b) : Remembers (log ++ n.completed) b := by
  cases hstep with
  | event ho _ hfsh => exact h.remember ho hfsh
  | deliver ho hf _ _ =>
    exact Remembers.remember { h with } ho hf.fresh
  | @acknowledge now key p o _ _ _ =>
    obtain ⟨_, _, _, heq⟩ := acknowledged_eq S now key p o a
    apply Remembers.quiet _ rfl
    rw [heq]
    exact { h with }
  | close =>
    apply Remembers.quiet _ rfl
    unfold ReliableAdapter.close
    split_ifs
    · exact h
    · exact ⟨h.spaced, (nomatch ·), (nomatch ·)⟩
  | accept | transmit | reserve | extend | noteAck | again | duplicate | absorb | expire | resend =>
    apply Remembers.quiet _ rfl
    exact { h with }

theorem Remembers.steps {ns : List Note} (h : Remembers log a) (hsts : Steps S a ns b) :
    Remembers (log ++ ns.flatMap Note.completed) b := by
  induction hsts generalizing log with
  | refl => simpa using h
  | head hs _ ih =>
    rw [flatMap_cons, ← append_assoc]
    exact ih (h.step hs)

theorem Remembers.run (hacc : Accounted S a) (h : Remembers log a) (ops : List (Op τ)) :
    Remembers (log ++ S.deliveries a ops) (S.run a ops) := by
  induction ops generalizing a log with
  | nil => simpa [deliveries, run] using h
  | cons op ops ih =>
    obtain ⟨notes, hserv, hsts⟩ := apply_served hacc op
    rw [deliveries, hserv.completions, ← append_assoc]
    exact ih (hacc.apply op) (h.steps hsts)

/-- **Replay window.** Between two deliveries of one identity, at least 4096 other identities were
    completed; and as long as the adapter is open, `completed` is the set of the last 4096 completed
    identities (all of them while there are fewer), which `completedOrder` lists without repetition. -/
theorem run_replay_window (S : Setup τ) (ops : List (Op τ)) :
    (∀ i j (hij : i < j) (hj : j < (S.deliveries S.init ops).length),
      (S.deliveries S.init ops)[i] = (S.deliveries S.init ops)[j] →
        4096 ≤ ((((S.deliveries S.init ops).take j).drop (i + 1)).toFinset.erase
          (S.deliveries S.init ops)[i]).card) ∧ ((S.run S.init ops).closed = false →
      (S.run S.init ops).completedOrder = lastN 4096 (S.deliveries S.init ops) ∧
      (S.run S.init ops).completedOrder.Nodup ∧
      (S.run S.init ops).completed = (S.run S.init ops).completedOrder.toFinset) := by
  have h : Remembers (S.deliveries S.init ops) (S.run S.init ops) := by
    simpa using Remembers.init.run Accounted.init ops
  refine ⟨fun i j hij hj heq => h.spaced.card_between hij hj heq, fun hopen => ?_⟩
  refine ⟨h.order hopen, ?_, h.completed hopen⟩
  rw [h.order hopen]
  exact h.spaced.nodup_lastN

end

end Shadow6.NetworkAdapter
