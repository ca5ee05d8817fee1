import Mathlib.Tactic

/-!
# `Public6.Charge` — the rate limit of a tenant

`Broker.charge` of `Public6/virtual_broker.py`, with times and tokens as rationals. The calls overlap: one that has to
wait sleeps after it has taken its tokens, and it may be cancelled there.

When the last of the calls that have returned was made, all of them fitted in what the tenant had got until that call
was due (`Covered`), whatever was refunded later.
-/

namespace Shadow6.Public6.Charge

open List Function

/-- `Tenant`, as far as `charge` reads it; `load` wants a positive rate. -/
structure Tenant where
  bytesPerSecond : Nat
  burstBytes : Nat
  positive : 0 < bytesPerSecond

structure RuntimeTenant where
  tokens : ℚ
  updated : ℚ

inductive CallState where
  | sleeping
  | returned
  | cancelled
deriving DecidableEq

/-- A call of `charge`, and the instant from which it may return. -/
structure Call where
  size : Nat
  due : ℚ
  state : CallState

/-- `charge(tenant, size)` up to its `await`; no call is left after a `TimeoutError`. -/
def charge (tenant : Tenant) (idleSeconds : ℚ) (runtime : RuntimeTenant) (now : ℚ) (size : Nat) :
    RuntimeTenant × Option Call :=
  let tokens := min (tenant.burstBytes : ℚ) (runtime.tokens + (now - runtime.updated) * tenant.bytesPerSecond) - size
  if tokens < 0 then
    let delay := -tokens / tenant.bytesPerSecond
    if idleSeconds < delay then (⟨tokens + size, now⟩, none)
    else (⟨tokens, now⟩, some ⟨size, now + delay, .sleeping⟩)
  else (⟨tokens, now⟩, some ⟨size, now, .returned⟩)

/-- The state of a tenant, with the calls made for it, the last one first. -/
abbrev Account := RuntimeTenant × List Call

variable (T : Tenant) (idleSeconds start now : ℚ)

/-- What can happen to a tenant at `now`: a call is made, or a sleeping one returns or is cancelled. -/
inductive Step : Account → Account → Prop where
  | charge (r : RuntimeTenant) (calls : List Call) (size : Nat) :
    Step (r, calls) ((charge T idleSeconds r now size).1, (charge T idleSeconds r now size).2.toList ++ calls)
  | wake (r : RuntimeTenant) (newer older : List Call) {c : Call} (hst : c.state = .sleeping) (hdue : c.due ≤ now) :
    Step (r, newer ++ c :: older) (r, newer ++ { c with state := .returned } :: older)
  | cancel (r : RuntimeTenant) (newer older : List Call) {c : Call} (hst : c.state = .sleeping) :
    Step (r, newer ++ c :: older)
      ({ r with tokens := r.tokens + c.size }, newer ++ { c with state := .cancelled } :: older)

/-- The states of a Broker made at `start`, each with its time. -/
inductive Reachable {ι : Type} [DecidableEq ι] (tenants : ι → Tenant) : ℚ → (ι → Account) → Prop where
  | init : Reachable tenants start fun x => (⟨(tenants x).burstBytes, start⟩, [])
  | step {clock now : ℚ} {b : ι → Account} (h : Reachable tenants clock b) (hnow : clock ≤ now) (x : ι) {r : Account}
      (hstep : Step (tenants x) idleSeconds now (b x) r) : Reachable tenants now (update b x r)

/-- The total size of the calls that have returned. -/
def completed (calls : List Call) : ℚ := (calls.map fun c => if c.state = .returned then (c.size : ℚ) else 0).sum

/-- The total size of the calls that have not been refunded. -/
def held (calls : List Call) : ℚ := (calls.map fun c => if c.state = .cancelled then (0 : ℚ) else c.size).sum

/-- What a tenant has got until `t`. -/
def Tenant.allowance (t : ℚ) : ℚ := T.burstBytes + T.bytesPerSecond * (t - start)

/-- Each call fits, with those before it, in what the tenant has got when it is due. -/
def Covered : List Call → Prop
  | [] => True
  | c :: older => (c.state ≠ .cancelled → held (c :: older) ≤ T.allowance start c.due) ∧ Covered older

/-- The invariant of a tenant. -/
structure Kept (s : Account) : Prop where
  started : start ≤ s.1.updated
  updated : s.1.updated ≤ now
  balance : held s.2 + s.1.tokens ≤ T.allowance start s.1.updated
  covered : Covered T start s.2
  due : ∀ c ∈ s.2, c.state = .returned → c.due ≤ now

variable {T idleSeconds start now} {calls newer older : List Call} {c c' : Call} {s s' : Account}

theorem Kept.later (h : Kept T start now s) {t : ℚ} (ht : now ≤ t) : Kept T start t s :=
  { h with updated := h.updated.trans ht, due := fun c hc hs => (h.due c hc hs).trans ht }

theorem Kept.completed_le (h : Kept T start now s) : completed s.2 ≤ T.allowance start now := by
  have hmono : ∀ t ≤ now, T.allowance start t ≤ T.allowance start now := by
    intro t ht
    unfold Tenant.allowance
    gcongr
  have hle : ∀ calls, completed calls ≤ held calls := fun calls => sum_le_sum fun c _ => by cases c.state <;> simp
  obtain ⟨hbeg, hup, -, hcov, hdue⟩ := h
  generalize s.2 = calls at hcov hdue
  induction calls with
  | nil =>
    have h0 : 0 ≤ T.allowance start start := by simp [Tenant.allowance]
    exact h0.trans (hmono start (hbeg.trans hup))
  | cons c older ih =>
    by_cases hc : c.state = .returned
    · exact (hle _).trans ((hcov.1 (by simp [hc])).trans (hmono _ (hdue c mem_cons_self hc)))
    · have hpass : completed (c :: older) = completed older := by simp [completed, hc]
      rw [hpass]
      exact ih hcov.2 fun d hd => hdue d (mem_cons_of_mem c hd)

/-- A call may be given up. -/
theorem Covered.replace (h : Covered T start (newer ++ c :: older)) (hheld : held [c'] ≤ held [c]) (hdue : c'.due = c.due)
    (hc : c.state ≠ .cancelled) : Covered T start (newer ++ c' :: older) := by
  induction newer with
  | nil =>
    refine ⟨fun _ => ?_, h.2⟩
    rw [hdue]
    refine le_trans ?_ (h.1 hc)
    simpa [held] using hheld
  | cons d newer ih =>
    refine ⟨fun hd => le_trans ?_ (h.1 hd), ih h.2⟩
    simpa [held] using hheld

/-- A call is made. -/
theorem Kept.made (h : Kept T start now s) {tokens : ℚ}
    (htok : tokens + c.size ≤ s.1.tokens + (now - s.1.updated) * T.bytesPerSecond)
    (hpaid : -tokens ≤ T.bytesPerSecond * (c.due - now)) (hc : c.state ≠ .cancelled)
    (hdue : c.state = .returned → c.due ≤ now) : Kept T start now (⟨tokens, now⟩, c :: s.2) := by
  have hheld : held (c :: s.2) = c.size + held s.2 := by simp [held, hc]
  have hbal := h.balance
  unfold Tenant.allowance at hbal
  refine ⟨h.started.trans h.updated, le_rfl, ?_, ⟨fun _ => ?_, h.covered⟩, forall_mem_cons.mpr ⟨hdue, h.due⟩⟩
  all_goals
    rw [hheld]
    unfold Tenant.allowance
    linarith

theorem Kept.charge (h : Kept T start now s) (size : Nat) : Kept T start now
    ((charge T idleSeconds s.1 now size).1, (charge T idleSeconds s.1 now size).2.toList ++ s.2) := by
  have hrate : (T.bytesPerSecond : ℚ) ≠ 0 := Nat.cast_ne_zero.mpr T.positive.ne'
  have hmin := min_le_right (T.burstBytes : ℚ) (s.1.tokens + (now - s.1.updated) * T.bytesPerSecond)
  unfold Charge.charge
  dsimp only
  generalize min (T.burstBytes : ℚ) _ = filled at hmin ⊢
  split
  · split
    · refine { h with started := h.started.trans h.updated, updated := le_rfl, balance := ?_ }
      have hbal := h.balance
      show held s.2 + (filled - size + size) ≤ _
      unfold Tenant.allowance at hbal ⊢
      linarith
    · refine h.made (by simpa using hmin) ?_ nofun nofun
      field_simp
      linarith
  · exact h.made (by simpa using hmin) (by simp; linarith) nofun fun _ => le_rfl

/-- A call ends its sleep, and what it no longer holds is refunded. -/
theorem Kept.ended {r : RuntimeTenant} {t : ℚ} (h : Kept T start now (r, newer ++ c :: older))
    (hst : c.state = .sleeping) (hdue : c'.due = c.due) (hret : c'.state = .returned → c.due ≤ now)
    (hheld : held [c'] ≤ held [c]) (htok : held [c'] + t = held [c] + r.tokens) :
    Kept T start now ({ r with tokens := t }, newer ++ c' :: older) := by
  have hspl : ∀ d, held (newer ++ d :: older) = held newer + held [d] + held older := by simp [held, add_assoc]
  refine ⟨h.started, h.updated, ?_, h.covered.replace hheld hdue (by simp [hst]), ?_⟩
  · have hbal := h.balance
    rw [hspl] at hbal ⊢
    linarith
  · have hold := h.due
    simp only [mem_append, mem_cons] at hold ⊢
    grind

theorem Kept.step (h : Kept T start now s) (hstep : Step T idleSeconds now s s') : Kept T start now s' := by
  cases hstep with
  | charge r calls size => exact h.charge size
  | wake r newer older hst hdue =>
    exact h.ended hst rfl (fun _ => hdue) (by simp [held, hst]) (by simp [held, hst])
  | cancel r newer older hst =>
    exact h.ended hst rfl nofun (by simp [held, hst]) (by simp [held, hst, add_comm])

variable {ι : Type} [DecidableEq ι] {tenants : ι → Tenant} {clock : ℚ} {b : ι → Account}

theorem Reachable.kept (h : Reachable idleSeconds start tenants clock b) (x : ι) : Kept (tenants x) start clock (b x) := by
  induction h with
  | init => exact ⟨le_rfl, le_rfl, by simp [held, Tenant.allowance], trivial, nofun⟩
  | step _ hnow y hstep ih =>
    have hlat := ih.later hnow
    by_cases hx : x = y
    · subst hx
      rw [update_self]
      exact hlat.step hstep
    · rw [update_of_ne hx]
      exact hlat

/-- **The rate limit holds** for every tenant, however the calls overlap, wait, time out and are cancelled: what has
    returned by the time `t` is at most the burst and what the rate has brought until then. -/
theorem completed_within_rate (h : Reachable idleSeconds start tenants clock b) (x : ι) {t : ℚ} (ht : clock ≤ t) :
    completed (b x).2 ≤ (tenants x).burstBytes + (tenants x).bytesPerSecond * (t - start) :=
  ((h.kept x).later ht).completed_le

/-- A tenant alone at its Broker. -/
theorem Reachable.alone {a a' : Account} (h : Reachable idleSeconds start (fun _ : Unit => T) clock fun _ => a)
    (hnow : clock ≤ now) (hstep : Step T idleSeconds now a a') :
    Reachable idleSeconds start (fun _ : Unit => T) now fun _ => a' := by
  have hnext := h.step hnow () hstep
  rwa [update_eq_const_of_subsingleton] at hnext

/-- The tenant makes a call. -/
theorem Reachable.call {r r' : RuntimeTenant} {made : Option Call} {size : Nat}
    (h : Reachable idleSeconds start (fun _ : Unit => T) clock fun _ => (r, calls))
    (heq : charge T idleSeconds r clock size = (r', made)) :
    Reachable idleSeconds start (fun _ : Unit => T) clock fun _ => (r', made.toList ++ calls) := by
  have hstep : Step T idleSeconds clock (r, calls) _ := .charge r calls size
  rw [heq] at hstep
  exact h.alone le_rfl hstep

def sampleTenant : Tenant := ⟨1024, 2048, by decide⟩

/-- A call takes the burst, two more sleep side by side; the later one is cancelled, and the other returns as soon as
    it may. -/
theorem completed_within_rate_overlapping :
    Reachable 60 0 (fun _ : Unit => sampleTenant) 1 (fun _ => (⟨-2048 + (1024 : Nat), 0⟩,
      [⟨1024, 2, .cancelled⟩, ⟨1024, 1, .returned⟩, ⟨2048, 0, .returned⟩])) ∧
    completed [⟨1024, 2, .cancelled⟩, ⟨1024, 1, .returned⟩, ⟨2048, 0, .returned⟩] = 3072 ∧
    completed [⟨1024, 2, .cancelled⟩, ⟨1024, 1, .returned⟩, ⟨2048, 0, .returned⟩] ≤ (2048 : Nat) + (1024 : Nat) * (1 - 0) := by
  have hburst : charge sampleTenant 60 ⟨2048, 0⟩ 0 2048 = (⟨0, 0⟩, some ⟨2048, 0, .returned⟩) := by
    norm_num [charge, sampleTenant]
  have hsleep : charge sampleTenant 60 ⟨0, 0⟩ 0 1024 = (⟨-1024, 0⟩, some ⟨1024, 1, .sleeping⟩) := by
    norm_num [charge, sampleTenant]
  have hlater : charge sampleTenant 60 ⟨-1024, 0⟩ 0 1024 = (⟨-2048, 0⟩, some ⟨1024, 2, .sleeping⟩) := by
    norm_num [charge, sampleTenant]
  have hcalls := ((Reachable.init.call hburst).call hsleep).call hlater
  have hcancel := hcalls.alone zero_le_one (.cancel ⟨-2048, 0⟩ [] _ rfl)
  have h := hcancel.alone le_rfl (.wake _ [⟨1024, 2, .cancelled⟩] _ rfl le_rfl)
  have hstate : CallState.cancelled ≠ .returned := by decide
  exact ⟨h, by norm_num [completed, hstate], completed_within_rate h () le_rfl⟩

end Shadow6.Public6.Charge
