import Shadow6.C11Relay.Codec

/-!
# `C11Relay.Receive` — the receive calls of a readiness event

The loops of `run_relay` in `C11Relay/c11relay.c` over the datagrams of a ready socket; they are the same for the
listener and for a peer. A receive call obtains datagrams or fails, because none is pending or the socket is broken.
In high-speed mode a call that obtains nothing is the last one of its event. In the other modes the loop goes on after it
unless the relay is stopped or the batch is full (`receive_work_bounded`, `drained_socket_read_on`).
-/

namespace Shadow6.C11Relay

open List

/-- `MAX_BATCH_DATAGRAMS`. -/
def maxBatchDatagrams : Nat := 256

variable (mode : RelayMode) (answer : Nat → Option Nat) (stopped : Nat → Bool)

/-- What the receive calls of an event obtain, from the `k`-th on and with `batch` datagrams counted, if they are answered
    with `answer`. `stopped` is `stop_requested` at the head of the loop. -/
def receives (batch k : Nat) : List (Option Nat) :=
  if h : batch < maxBatchDatagrams ∧ stopped k = false then
    if mode = .highSpeed then
      match answer k with
      | some (n + 1) => some (n + 1) :: receives (batch + min (n + 1) (maxBatchDatagrams - batch)) (k + 1)
      | failed => [failed]
    else
      -- a failed `recv` ends the loop over the one item, which is then counted like a datagram
      (answer k).map (fun _ => 1) :: receives (batch + 1) (k + 1)
  else []
termination_by maxBatchDatagrams - batch

/-- The calls of the whole event. -/
def handleEvent : List (Option Nat) := receives mode answer stopped 0 0

/-- The number of datagrams obtained. -/
def obtained (calls : List (Option Nat)) : Nat := (calls.map (·.getD 0)).sum

/-- At most one call more than datagrams obtained, and none after one that failed. -/
def Bounded (calls : List (Option Nat)) : Prop := calls.length ≤ obtained calls + 1 ∧ none ∉ calls.dropLast

/-- Calls of which only the last one may obtain nothing. -/
theorem bounded_of_fruitful {calls : List (Option Nat)} (h : ∀ call ∈ calls.dropLast, 0 < call.getD 0) :
    Bounded calls := by
  refine ⟨?_, fun hnone => absurd (h none hnone) (lt_irrefl 0)⟩
  induction calls with
  | nil => exact Nat.zero_le _
  | cons call calls ih =>
    cases calls with
    | nil => simp
    | cons next calls =>
      rw [dropLast_cons_cons, forall_mem_cons] at h
      have hrest := ih h.2
      simp only [obtained, length_cons, map_cons, sum_cons] at hrest ⊢
      omega

/-- In high-speed mode every call before the last one obtains a datagram. -/
theorem receives_fruitful (batch k : Nat) :
    ∀ call ∈ (receives .highSpeed answer stopped batch k).dropLast, 0 < call.getD 0 := by
  induction batch, k using receives.induct .highSpeed answer stopped with
  | case1 batch k h _ n hn ih =>
    rw [receives, dif_pos h, if_pos rfl, hn]
    dsimp only
    generalize receives .highSpeed answer stopped _ _ = calls at ih ⊢
    cases calls with
    | nil => simp
    | cons call calls =>
      rw [dropLast_cons_cons, forall_mem_cons]
      exact ⟨Nat.succ_pos n, ih⟩
  | case2 batch k h _ hn =>
    rw [receives, dif_pos h, if_pos rfl]
    split <;> simp_all
  | case3 batch k h hmode => exact absurd rfl hmode
  | case4 batch k h =>
    rw [receives, dif_neg h]
    simp

section

variable {mode} (hmode : mode ≠ .highSpeed)
include hmode

/-- In the other modes a call obtains one datagram or fails. -/
theorem mem_receives (batch k : Nat) : ∀ call ∈ receives mode answer stopped batch k, call = none ∨ call = some 1 := by
  induction batch, k using receives.induct mode answer stopped with
  | case1 | case2 => contradiction
  | case3 batch k h _ ih =>
    rw [receives, dif_pos h, if_neg hmode, forall_mem_cons]
    exact ⟨by cases answer k <;> simp, ih⟩
  | case4 batch k h =>
    rw [receives, dif_neg h]
    simp

/-- No call fails but the last one, exactly if none fails after which the loop goes on. -/
theorem none_not_mem_dropLast (batch k : Nat) : none ∉ (receives mode answer stopped batch k).dropLast ↔
    ∀ i, batch + i + 1 < maxBatchDatagrams → (∀ j ≤ i + 1, stopped (k + j) = false) → answer (k + i) ≠ none := by
  induction batch, k using receives.induct mode answer stopped with
  | case1 | case2 => contradiction
  | case3 batch k h _ ih =>
    rw [receives, dif_pos h, if_neg hmode]
    by_cases hgo : batch + 1 < maxBatchDatagrams ∧ stopped (k + 1) = false
    · -- another call follows, so this one must not fail
      have hnext := ih
      rw [receives, dif_pos hgo, if_neg hmode] at hnext ⊢
      rw [dropLast_cons_cons, mem_cons, not_or, hnext, eq_comm, Option.map_eq_none_iff]
      constructor
      · rintro ⟨hfirst, hlater⟩ i hlt hrun
        cases i with
        | zero => exact hfirst
        | succ i =>
          rw [← Nat.add_assoc, Nat.add_right_comm]
          refine hlater i (by omega) fun j hj => ?_
          rw [Nat.add_right_comm]
          exact hrun (j + 1) (by omega)
      · intro hall
        refine ⟨hall 0 hgo.1 fun j hj => ?_, fun i hlt hrun => ?_⟩
        · interval_cases j
          · exact h.2
          · exact hgo.2
        · rw [Nat.add_right_comm]
          refine hall (i + 1) (by omega) fun j hj => ?_
          cases j with
          | zero => exact h.2
          | succ j =>
            rw [← Nat.add_assoc, Nat.add_right_comm]
            exact hrun j (by omega)
    · rw [receives, dif_neg hgo]
      simp only [dropLast_singleton, not_mem_nil, not_false_eq_true, true_iff]
      intro i hlt hrun
      exact absurd ⟨by omega, hrun 1 (by omega)⟩ hgo
  | case4 batch k h =>
    rw [receives, dif_neg h]
    simp only [dropLast_nil, not_mem_nil, not_false_eq_true, true_iff]
    intro i hlt hrun
    exact absurd ⟨by omega, hrun 0 (Nat.zero_le _)⟩ h

end

/-- **Bounded receive work**, for any answers and however the relay is stopped: an event makes at most one call more than
    datagrams obtained, and none after one that failed, exactly if the relay is in high-speed mode or no call fails that
    the loop goes on after. -/
theorem receive_work_bounded (mode : RelayMode) (answer : Nat → Option Nat) (stopped : Nat → Bool) :
    Bounded (handleEvent mode answer stopped) ↔ mode = .highSpeed ∨
      ∀ k, k + 1 < maxBatchDatagrams → (∀ j ≤ k + 1, stopped j = false) → answer k ≠ none := by
  by_cases hmode : mode = .highSpeed
  · subst hmode
    exact iff_of_true (bounded_of_fruitful (receives_fruitful answer stopped 0 0)) (.inl rfl)
  have hlast := none_not_mem_dropLast answer stopped hmode 0 0
  simp only [zero_add] at hlast
  rw [or_iff_right hmode, ← hlast]
  refine ⟨And.right, fun hnone => bounded_of_fruitful fun call hcall => ?_⟩
  rcases mem_receives answer stopped hmode 0 0 call (mem_of_mem_dropLast hcall) with rfl | rfl
  · exact absurd hcall hnone
  · exact Nat.one_pos

/-- In the other modes a call that failed is followed by the next one. -/
theorem receives_drained (hmode : mode ≠ .highSpeed) (bt k : Nat) :
    receives mode (fun _ => none) (fun _ => false) bt k = replicate (maxBatchDatagrams - bt) none := by
  induction bt, k using receives.induct mode (fun _ => none) (fun _ => false) with
  | case1 | case2 => contradiction
  | case3 bt k h _ ih =>
    rw [receives, dif_pos h, if_neg hmode, ih, Option.map_none, ← replicate_succ]
    congr 1
    omega
  | case4 bt k h =>
    rw [receives, dif_neg h, Nat.sub_eq_zero_of_le (by simpa using h)]
    rfl

/-- **A drained socket is read on**: an event without a datagram makes 256 receive calls. -/
theorem drained_socket_read_on : (handleEvent .normal (fun _ => none) fun _ => false).length = 256 ∧
    obtained (handleEvent .normal (fun _ => none) fun _ => false) = 0 ∧
    none ∈ (handleEvent .normal (fun _ => none) fun _ => false).dropLast := by
  unfold handleEvent
  rw [receives_drained .normal (by decide)]
  simp [obtained, maxBatchDatagrams, -reduceReplicate]

end Shadow6.C11Relay
