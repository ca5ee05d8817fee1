import Shadow6.Library.Bytes
import Shadow6.Library.Machine
import Shadow6.Library.Replay

/-!
# `Crosed.ReplayFile` — the replay files of Core-Ada and Core-Nim

`s6_replay` of `Core-Ada/src/platform.c` and `nim_replay` of `Core-Nim/src/native.c` keep the digests of accepted
requests in a locked file of 256 records. A record has the time of its call, the digest and a checksum over both. A
call refuses a digest that has a live record, and writes its own record over the first one that is not live.

Both read the time as `uint64_t`, where a record without a time is an empty slot. The time 0 is such a time: Core-Nim
refuses it, Core-Ada writes a record that it takes for an empty slot at the next call (`accepted_at_zero`). Apart from
that, no record is overwritten as long as a request with its digest can pass the window of 300 seconds that the callers
check, and no such request is accepted twice (`replay_files_sound`).

A call holds the lock from its first look at the file to its last write, so calls do not overlap. The time is read
before the lock is taken.
-/

namespace Shadow6.Crosed

open Library List Function

/-- The window for the timestamp of a request, which every core checks before it looks for a replay. -/
def Fresh (issuedAt now : Int) : Prop := now - 300 ≤ issuedAt ∧ issuedAt ≤ now + 300

instance (issuedAt now : Int) : Decidable (Fresh issuedAt now) := inferInstanceAs (Decidable (_ ∧ _))

namespace ReplayFile

/-! ## Records -/

/-- One of `records[256][72]`: eight bytes of time, the digest, the checksum. -/
structure Record where
  stamp : Nat
  digest : Bytes
  checksum : Bytes
deriving DecidableEq

/-- 72 bytes of zero. -/
def Record.zero : Record := ⟨0, replicate 32 0, replicate 32 0⟩

/-- The first 40 bytes of a record. -/
def checkedBytes (stamp : Nat) (digest : Bytes) : Bytes := toBE 8 stamp ++ digest

/-- What the file holds. A file of any other size is refused. -/
inductive Content where
  | empty
  | records (slots : Fin 256 → Record)
  | misshapen

/-- `int64_t`. -/
structure Time where
  val : Int
  lower : -(2 ^ 63) ≤ val
  upper : val < 2 ^ 63

/-- `(uint64_t)now`. -/
def Time.unsigned (now : Time) : Nat := (now.val % 2 ^ 64).toNat

/-- `t && (t > (uint64_t)now || (uint64_t)now-t <= 600)`. -/
def live (t : Nat) (now : Time) : Bool :=
  decide (t ≠ 0) && (decide (now.unsigned < t) || decide (now.unsigned - t ≤ 600))

/-! ## A call -/

/-- How the file system answers the last write. -/
inductive Answer where
  /-- All is written, and the file and its directory reach the disk or not. -/
  | written (synced : Bool)
  /-- The write stops early, with this left in the slot. -/
  | torn (left : Record)

/-- The arguments of a call, and what it meets. -/
structure Call where
  digest : Bytes
  now : Time
  /-- The directory and the file are the owner's, the lock is free, the file can be read. -/
  usable : Bool
  /-- The zero records that Core-Ada writes to an empty file reach the disk; otherwise it may be left with any size. -/
  filled : Content × Bool
  answer : Answer

variable (hash : Bytes → Bytes)

/-- A record that is neither empty nor carries its checksum. -/
def damaged (r : Record) : Bool :=
  decide (r ≠ .zero) && decide (hash (checkedBytes r.stamp r.digest) ≠ r.checksum)

/-- The loop over the records: `none` refuses; otherwise the first slot that is not live, if there is one. -/
def scan (slots : Fin 256 → Record) (digest : Bytes) (now : Time) :
    List (Fin 256) → Option (Fin 256) → Option (Option (Fin 256))
  | [], slot => some slot
  | i :: is, slot =>
    if damaged hash (slots i) then none
    else if live (slots i).stamp now then
      if (slots i).digest = digest then none else scan slots digest now is slot
    else scan slots digest now is (slot <|> some i)

/-- The record a call writes. -/
def recordOf (digest : Bytes) (now : Time) : Record :=
  ⟨now.unsigned, digest, hash (checkedBytes now.unsigned digest)⟩

/-- The records with the slot as the last write leaves it, and whether the call succeeds. -/
def commit (slots : Fin 256 → Record) (slot : Fin 256) (c : Call) : (Fin 256 → Record) × Bool :=
  match c.answer with
  | .written synced => (update slots slot (recordOf hash c.digest c.now), synced)
  | .torn left => (update slots slot left, false)

/-- The loop, the slot and the write. -/
def search (slots : Fin 256 → Record) (c : Call) : (Fin 256 → Record) × Bool :=
  match scan hash slots c.digest c.now (finRange 256) none with
  | some (some slot) => commit hash slots slot c
  | _ => (slots, false)

/-- The records of an empty file. -/
def zeros : Fin 256 → Record := fun _ => .zero

/-- `s6_replay(path, digest, now)`; success is the result 0. -/
def s6Replay (content : Content) (c : Call) : Content × Bool :=
  if !c.usable then (content, false)
  else match content with
  | .misshapen => (.misshapen, false)
  | .records slots => (.records (search hash slots c).1, (search hash slots c).2)
  -- the zero records are written before the loop
  | .empty =>
    if c.filled.2 then (.records (search hash zeros c).1, (search hash zeros c).2) else (c.filled.1, false)

/-- `nim_replay(path, hash, now)`; success is the result 1. -/
def nimReplay (content : Content) (c : Call) : Content × Bool :=
  if c.now.val ≤ 0 then (content, false)
  else if !c.usable then (content, false)
  else match content with
  | .misshapen => (.misshapen, false)
  | .records slots => (.records (search hash slots c).1, (search hash slots c).2)
  -- all records are written at the end: a write that stops early leaves a short file
  | .empty =>
    match c.answer with
    | .written _ => (.records (search hash zeros c).1, (search hash zeros c).2)
    | .torn _ => (.misshapen, false)

/-! ## Sequences of calls -/

/-- A digest that was accepted, with the time its call had read. -/
structure Accepted where
  digest : Bytes
  now : Time

/-- The clock, the file, and what was accepted so far with the instant of each. -/
structure Store where
  clock : Int
  content : Content
  accepted : List (Accepted × Int)

inductive Event where
  | tick (seconds : Nat)
  /-- A process takes the lock; it has read the clock at this instant or before. -/
  | call (c : Call)

def Store.start (clock : Int) (content : Content) : Store := ⟨clock, content, []⟩

def step (replay : Content → Call → Content × Bool) (s : Store) : Event → Store
  | .tick seconds => { s with clock := s.clock + seconds }
  | .call c =>
    if s.clock < c.now.val then s
    else
      let (content, ok) := replay s.content c
      { s with content, accepted := if ok then s.accepted ++ [(⟨c.digest, c.now⟩, s.clock)] else s.accepted }

def run (replay : Content → Call → Content × Bool) (s : Store) (es : List Event) : Store := es.foldl (step replay) s

/-! ## What a call can do -/

variable {hash}

/-- A slot that the loop returns is not live, and no live record has the digest. -/
theorem scan_ok {slots : Fin 256 → Record} {digest : Bytes} {now : Time} {is : List (Fin 256)} {slot₀ : Option (Fin 256)}
    {slot : Fin 256} (h : scan hash slots digest now is slot₀ = some (some slot)) :
    (slot₀ = some slot ∨ live (slots slot).stamp now = false) ∧
      ∀ i ∈ is, live (slots i).stamp now = true → (slots i).digest ≠ digest := by
  induction is generalizing slot₀ with
  | nil =>
    rw [scan, Option.some.injEq] at h
    exact ⟨.inl h, by simp⟩
  | cons i is ih =>
    rw [scan] at h
    split_ifs at h with hdam hlive hdig
    · obtain ⟨hslot, hrs⟩ := ih h
      refine ⟨hslot, ?_⟩
      simp only [mem_cons, forall_eq_or_imp]
      exact ⟨fun _ => hdig, hrs⟩
    obtain ⟨hslot, hrs⟩ := ih h
    rw [Bool.not_eq_true] at hlive
    constructor
    -- the slot was found before, or it is this one
    · cases slot₀ with
      | none =>
        rcases hslot with hslot | hslot
        · cases hslot
          exact .inr hlive
        · exact .inr hslot
      | some j => exact hslot
    · simp only [mem_cons, forall_eq_or_imp]
      exact ⟨fun hcon => by simp [hlive] at hcon, hrs⟩

/-- **What a search can do**: leave the records as they are, or overwrite one that is not live. It succeeds only with
    its own record, for a digest without a live record. -/
theorem search_cases (hash : Bytes → Bytes) (sl : Fin 256 → Record) (c : Call) :
    search hash sl c = (sl, false) ∨
    ∃ slot r ok, search hash sl c = (update sl slot r, ok) ∧ live (sl slot).stamp c.now = false ∧
      (ok = true → r = recordOf hash c.digest c.now ∧
        ∀ i, live (sl i).stamp c.now = true → (sl i).digest ≠ c.digest) := by
  rw [search]
  split
  · rename_i slot hscan
    obtain ⟨hslot, hdgs⟩ := scan_ok hscan
    have hlive : live (sl slot).stamp c.now = false := by
      rcases hslot with hslot | hslot
      · cases hslot
      · exact hslot
    right
    rw [commit]
    split
    · rename_i sy hans
      exact ⟨slot, _, sy, rfl, hlive, fun _ => ⟨rfl, fun i => hdgs i (mem_finRange i)⟩⟩
    · rename_i left hans
      exact ⟨slot, left, false, rfl, hlive, fun hcon => by simp at hcon⟩
  · exact .inl rfl

/-- What a call makes of the file. -/
inductive Outcome (hash : Bytes → Bytes) (content : Content) (c : Call) : Content × Bool → Prop where
  | same : Outcome hash content c (content, false)
  /-- A failed write to an empty file. -/
  | spoiled (h : content = .empty) (content' : Content) : Outcome hash content c (content', false)
  | searched {slots : Fin 256 → Record} (h : content = .records slots ∨ content = .empty ∧ slots = zeros) :
      Outcome hash content c (.records (search hash slots c).1, (search hash slots c).2)

theorem s6Replay_outcome (ct : Content) (c : Call) : Outcome hash ct c (s6Replay hash ct c) := by
  unfold s6Replay
  by_cases husab : c.usable
  · rw [if_neg (by simp [husab])]
    cases ct with
    | misshapen => exact .same
    | records slots => exact .searched (.inl rfl)
    | empty =>
      split_ifs
      · exact .searched (.inr ⟨rfl, rfl⟩)
      · exact .spoiled rfl _
  · rw [if_pos (by simp [husab])]
    exact .same

/-- Core-Nim does nothing at times up to 0. -/
theorem nimReplay_outcome (hash : Bytes → Bytes) (ct : Content) (c : Call) :
    nimReplay hash ct c = (ct, false) ∨ 0 < c.now.val ∧ Outcome hash ct c (nimReplay hash ct c) := by
  unfold nimReplay
  split_ifs with hnow
  · exact .inl rfl
  · exact .inl rfl
  refine .inr ⟨not_le.mp hnow, ?_⟩
  cases ct with
  | misshapen => exact .same
  | records slots => exact .searched (.inl rfl)
  | empty =>
    dsimp only
    split
    · exact .searched (.inr ⟨rfl, rfl⟩)
    · exact .spoiled rfl _

/-! ## Every run -/

/-- The time of a call is not 0, and not before 0 once the clock has passed it. -/
def Nonzero (s : Store) : Event → Prop
  | .tick _ => True
  | .call c => c.now.val ≠ 0 ∧ (c.now.val < 0 → s.clock < 0)

/-- The record of an accepted digest is in the file. -/
def Recorded (hash : Bytes → Bytes) (content : Content) (a : Accepted) : Prop :=
  ∃ slots i, content = .records slots ∧ slots i = recordOf hash a.digest a.now

/-- The last instant at which the record of an accepted digest is live. -/
def Accepted.deadline (a : Accepted) : Int := a.now.val + 600

/-- A record that is not live any more is past its deadline. -/
theorem deadline_lt {a now : Time} {clock : Int} (ha : a.val ≠ 0) (hacl : a.val ≤ clock) (hclk : now.val ≤ clock)
    (hzero : now.val ≠ 0) (hneg : now.val < 0 → clock < 0) (hlive : live a.unsigned now = false) :
    a.val + 600 < clock := by
  have ha2 := a.upper
  have hn1 := now.lower
  have hexp : ¬ (a.unsigned ≠ 0 ∧ (now.unsigned < a.unsigned ∨ now.unsigned - a.unsigned ≤ 600)) := by
    simpa [live] using hlive
  unfold Time.unsigned at hexp
  omega

/-- The invariant of the store. -/
structure Sound (hash : Bytes → Bytes) (s : Store) : Prop where
  past : ∀ a ∈ s.accepted, a.1.now.val ≠ 0 ∧ a.1.now.val ≤ s.clock
  retained : Retained Accepted.deadline (Recorded hash s.content) s.clock s.accepted
  separated : Separated Accepted.digest Accepted.deadline s.accepted

theorem sound_start (clk : Int) (ct : Content) : Sound hash (.start clk ct) :=
  ⟨by simp [Store.start], retained_nil _ _ _, separated_nil _ _⟩

variable {s : Store}

section

variable (h : Sound hash s)
include h

theorem Sound.tick (seconds : Nat) : Sound hash { s with clock := s.clock + seconds } := by
  have hle : s.clock ≤ s.clock + seconds := by omega
  exact ⟨fun a ha => ⟨(h.past a ha).1, (h.past a ha).2.trans hle⟩, h.retained.later hle, h.separated⟩

/-- Nothing was accepted into an empty file, or all of it is past its deadline. -/
theorem Sound.empty (hnil : s.content = .empty) {ct : Content} :
    Retained Accepted.deadline (Recorded hash ct) s.clock s.accepted := by
  refine h.retained.drop ?_
  rintro a - ⟨slots, i, hcont, -⟩
  rw [hnil] at hcont
  cases hcont

/-- A record that is overwritten is past its deadline. -/
theorem Sound.overwrite {now : Time} (hclk : now.val ≤ s.clock) (hzero : now.val ≠ 0)
    (hneg : now.val < 0 → s.clock < 0) {sl : Fin 256 → Record}
    (hcont : s.content = .records sl ∨ s.content = .empty ∧ sl = zeros) {slt : Fin 256}
    (hlive : live (sl slt).stamp now = false) (r : Record) :
    Retained Accepted.deadline (Recorded hash (.records (update sl slt r))) s.clock s.accepted := by
  rcases hcont with hcont | ⟨hnil, -⟩
  · refine h.retained.drop ?_
    rintro a ha ⟨slots', i, hslots, hrec⟩
    rw [hcont] at hslots
    cases hslots
    by_cases hi : i = slt
    · right
      rw [← hi, hrec] at hlive
      exact deadline_lt (h.past a ha).1 (h.past a ha).2 hclk hzero hneg hlive
    · exact .inl ⟨_, i, rfl, by rw [update_of_ne hi, hrec]⟩
  · exact h.empty hnil

/-- **One call.** -/
theorem Sound.call {c : Call} (hclk : c.now.val ≤ s.clock) (hzero : c.now.val ≠ 0)
    (hneg : c.now.val < 0 → s.clock < 0) {content : Content} {ok : Bool}
    (hout : Outcome hash s.content c (content, ok)) : Sound hash { s with
      content
      accepted := if ok then s.accepted ++ [(⟨c.digest, c.now⟩, s.clock)] else s.accepted } := by
  generalize hres : (content, ok) = result at hout
  cases hout with
  | same =>
    cases hres
    exact h
  | spoiled hnil content' =>
    cases hres
    exact ⟨h.past, h.empty hnil, h.separated⟩
  | @searched slots hcont =>
    rcases search_cases hash slots c with hsm | ⟨slot, r, ok', hsear, hlive, hok⟩
    · rw [hsm] at hres
      cases hres
      refine ⟨h.past, ?_, h.separated⟩
      rcases hcont with hcont | ⟨hnil, -⟩
      · exact hcont ▸ h.retained
      · exact h.empty hnil
    rw [hsear] at hres
    cases hres
    have hret := h.overwrite hclk hzero hneg hcont hlive r
    cases ok' with
    | false => exact ⟨h.past, hret, h.separated⟩
    | true =>
      obtain ⟨rfl, hdgs⟩ := hok rfl
      refine ⟨?_, ?_, ?_⟩
      · exact forall_mem_append.mpr ⟨h.past, forall_mem_singleton.mpr ⟨hzero, hclk⟩⟩
      · exact hret.accept ⟨_, slot, rfl, update_self _ _ _⟩ _
      refine h.separated.accept h.retained ?_
      -- a record of the same digest is in the file, so it is not live
      rintro a ha hdig ⟨slots', i, hslots, hrec⟩
      rcases hcont with hcont | ⟨hnil, -⟩
      · rw [hcont] at hslots
        cases hslots
        have hexp : live (slots i).stamp c.now = false := by
          rw [← Bool.not_eq_true]
          intro hcon
          exact hdgs i hcon (by rw [hrec]; exact hdig)
        rw [hrec] at hexp
        exact deadline_lt (h.past a ha).1 (h.past a ha).2 hclk hzero hneg hexp
      · rw [hnil] at hslots
        cases hslots

theorem Sound.step_s6Replay {e : Event} (he : Nonzero s e) : Sound hash (step (s6Replay hash) s e) := by
  cases e with
  | tick seconds => exact h.tick seconds
  | call c =>
    rw [step]
    split_ifs with hah
    · exact h
    · exact h.call (not_lt.mp hah) he.1 he.2 (s6Replay_outcome s.content c)

theorem Sound.step_nimReplay (e : Event) : Sound hash (step (nimReplay hash) s e) := by
  cases e with
  | tick seconds => exact h.tick seconds
  | call c =>
    rw [step]
    split_ifs with hah
    · exact h
    rcases nimReplay_outcome hash s.content c with hsm | ⟨hpos, hout⟩
    · rw [hsm]
      exact h
    · exact h.call (not_lt.mp hah) (by omega) (by omega) hout

end

/-- What the file guards: the record of a request that can still pass stands in the file, and while it can pass no
    second call is accepted for its digest. -/
structure Guards (hash : Bytes → Bytes) (s : Store) : Prop where
  kept : ∀ a ∈ s.accepted, ∀ issuedAt, Fresh issuedAt a.1.now.val → Fresh issuedAt s.clock → Recorded hash s.content a.1
  once : s.accepted.Pairwise fun a b =>
    a.1.digest = b.1.digest → ∀ issuedAt, Fresh issuedAt a.1.now.val → ¬ Fresh issuedAt b.2

/-- A request that passed at the time of a call cannot pass after the deadline of its record. -/
theorem not_fresh {issuedAt clock : Int} {a : Accepted} (h : Fresh issuedAt a.now.val) (hlate : a.deadline < clock) :
    ¬ Fresh issuedAt clock := by
  unfold Fresh Accepted.deadline at *
  omega

theorem Sound.guards (h : Sound hash s) : Guards hash s where
  kept := by
    intro a ha ia hfsh hnow
    rcases h.retained a ha with hrcr | hlate
    · exact hrcr
    · exact absurd hnow (not_fresh hfsh hlate)
  once := h.separated.imp fun hsep hdig _ hfsh => not_fresh hfsh (hsep hdig)

/-- **The replay files.** For every sequence of calls by any number of processes, from any file, under a clock that
    does not go back: Core-Nim never overwrites the record of a request that can still pass the window and never
    accepts its digest again, and neither does Core-Ada if no call is made at time 0. -/
theorem replay_files_sound (hash : Bytes → Bytes) (clock : Int) (content : Content) (es : List Event) :
    (Along (step (s6Replay hash)) Nonzero (.start clock content) es →
      Guards hash (run (s6Replay hash) (.start clock content) es)) ∧
    Guards hash (run (nimReplay hash) (.start clock content) es) := by
  constructor
  · intro halong
    exact (halong.invariant (fun _ _ hs he => hs.step_s6Replay he) (sound_start clock content)).guards
  · exact (foldl_invariant (fun _ e hs => hs.step_nimReplay e) (sound_start clock content) es).guards

/-! ## Two runs -/

instance (s : Store) : ∀ e, Decidable (Nonzero s e)
  | .tick _ => inferInstanceAs (Decidable True)
  | .call c => inferInstanceAs (Decidable (c.now.val ≠ 0 ∧ (c.now.val < 0 → s.clock < 0)))

/-- A call with a digest of one repeated byte that meets no obstacle. -/
def sampleCall (byte : UInt8) (now : Time) : Event :=
  .call ⟨replicate 32 byte, now, true, (.misshapen, true), .written true⟩

/-- A checksum that a file can be run with. -/
def sampleHash (bs : Bytes) : Bytes := toBE 32 (ofBE bs % (2 ^ 251 - 1))

/-- One digest at 1, at 601, and at 602. -/
def sampleCalls : List Event :=
  [sampleCall 7 ⟨1, by decide, by decide⟩, .tick 600, sampleCall 7 ⟨601, by decide, by decide⟩, .tick 1,
    sampleCall 7 ⟨602, by decide, by decide⟩]

theorem replay_files_sound_late :
    (run (s6Replay sampleHash) (.start 1 .empty) sampleCalls).accepted.map Prod.snd = [1, 602] ∧
    Guards sampleHash (run (s6Replay sampleHash) (.start 1 .empty) sampleCalls) :=
  ⟨by decide +kernel, (replay_files_sound sampleHash 1 .empty sampleCalls).1 (by decide +kernel)⟩

/-- **At time 0 Core-Ada accepts a digest twice**: its record has no time and counts as an empty slot. -/
theorem accepted_at_zero : (run (s6Replay sampleHash) (.start 0 .empty)
      [sampleCall 7 ⟨0, by decide, by decide⟩, sampleCall 7 ⟨0, by decide, by decide⟩]).accepted.map
        (fun a => (a.1.digest, a.1.now.val, a.2)) =
      [(replicate 32 7, 0, 0), (replicate 32 7, 0, 0)] ∧ Fresh 0 0 := by
  refine ⟨by decide +kernel, ?_⟩
  unfold Fresh
  omega

end ReplayFile

end Shadow6.Crosed
