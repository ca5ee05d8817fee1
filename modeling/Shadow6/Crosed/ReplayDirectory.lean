import Shadow6.Library.Dict
import Shadow6.Crosed.Grant
import Shadow6.Crosed.ReplayFile

/-!
# `Crosed.ReplayDirectory` — processes of Core-Go that share a replay directory

`Crosed.Grant` has `crosedReplayRetain` as one function. Several processes can be in it at once: each lists the
directory, looks at the entries one after the other and removes the old ones, and creates its own entry, while the
others go on. Here these are separate steps, taken in any order; looking at an entry and removing it is one step. A
process has read the clock and checked the window of its request before its first step. A new entry has the time at
which it was created.

Whatever the interleaving, the entry of a request stands as long as the request can pass the window, and a second
request with its Mod and nonce is committed only after that (`nonce_single_use`). A call that no other process interrupts
is `crosedReplayRetain` (`call_eq_retain`).
-/

namespace Shadow6.Crosed.Go

open Library Json Portable List Dict

namespace Sharing

/-! ## Processes -/

/-- Where a process is in `crosedReplayRetain`. -/
inductive Stage where
  /-- before `os.ReadDir` -/
  | listing
  /-- in the loop of `crosedReplayPrune`: the names still to look at, and the number of live entries so far -/
  | pruning (names : List Bytes) (live : Nat)
  /-- before `os.OpenFile` with `O_EXCL` -/
  | creating
  | finished

structure Process where
  request : CrosedRequest
  /-- the clock as the process has read it -/
  now : Int
  stage : Stage

/-- The clock, the directory with the times of its entries, the processes, and the successful commits with the instant
    of each. -/
structure Directory where
  clock : Int
  entries : Dict Bytes Int
  processes : List Process
  commits : List (CrosedRequest × Int)

open Directory

inductive Event where
  | tick (seconds : Nat)
  /-- A process reads the clock and finds a request in its window. -/
  | start (request : CrosedRequest)
  /-- The next step of a process, and whether the file system does as it is told. -/
  | act (i : Nat) (ok : Bool)

variable (sha256 : Bytes → Bytes)

/-- The name of the entry of a request. -/
def entryName (request : CrosedRequest) : Bytes := crosedReplayKey sha256 request.modId request.nonce

namespace Directory

def start (clock : Int) (entries : Dict Bytes Int) : Directory := ⟨clock, entries, [], []⟩

/-- A process moves on. -/
def enter (g : Directory) (i : Nat) (p : Process) (stage : Stage) : Directory :=
  { g with processes := g.processes.set i { p with stage } }

/-- The next step of a process. -/
def advance (g : Directory) (i : Nat) (p : Process) (ok : Bool) : Directory :=
  match p.stage with
  | .listing =>
    if !ok then g.enter i p .finished
    else if g.entries.size < 4096 then g.enter i p .creating
    else g.enter i p (.pruning (g.entries.entries.map Prod.fst) 0)
  | .pruning [] live => if 4096 ≤ live then g.enter i p .finished else g.enter i p .creating
  | .pruning (name :: names) live =>
    match g.entries.find? name with
    -- another process has removed it
    | none => g.enter i p (.pruning names live)
    | some time =>
      if time < p.now - 600 ∧ ok then { g.enter i p (.pruning names live) with entries := g.entries.erase name }
      else g.enter i p (.pruning names (live + 1))
  | .creating =>
    if entryName sha256 p.request ∈ g.entries then g.enter i p .finished
    else if ok then
      { g.enter i p .finished with
        entries := g.entries.set (entryName sha256 p.request) g.clock
        commits := g.commits ++ [(p.request, g.clock)] }
    else g.enter i p .finished
  | .finished => g

def step (g : Directory) : Event → Directory
  | .tick seconds => { g with clock := g.clock + seconds }
  | .start request =>
    if 0 < g.clock ∧ (entryName sha256 request).length = 32 ∧ Fresh request.issuedAt g.clock then
      { g with processes := g.processes ++ [⟨request, g.clock, .listing⟩] }
    else g
  | .act i ok =>
    match g.processes[i]? with
    | none => g
    | some p => g.advance sha256 i p ok

def run (g : Directory) (es : List Event) : Directory := es.foldl (step sha256) g

end Directory

/-! ## One step -/

section

variable {sha256} {g : Directory} {i : Nat} {p : Process} (stage : Stage)

@[simp] theorem enter_clock : (g.enter i p stage).clock = g.clock := rfl

@[simp] theorem enter_entries : (g.enter i p stage).entries = g.entries := rfl

@[simp] theorem enter_commits : (g.enter i p stage).commits = g.commits := rfl

@[simp] theorem enter_processes : (g.enter i p stage).processes = g.processes.set i { p with stage } := rfl

/-- **What a process can do**: move on and leave the directory as it is, remove an entry older than 600 seconds, or
    commit a request whose entry is absent. -/
theorem advance_cases (sha256 : Bytes → Bytes) (g : Directory) (i : Nat) (p : Process) (ok : Bool) :
    ∃ stage, g.advance sha256 i p ok = g ∨ g.advance sha256 i p ok = g.enter i p stage ∨
      (∃ name time, g.entries.find? name = some time ∧ time < p.now - 600 ∧
        g.advance sha256 i p ok = { g.enter i p stage with entries := g.entries.erase name }) ∨
      (entryName sha256 p.request ∉ g.entries ∧
        g.advance sha256 i p ok = { g.enter i p stage with
          entries := g.entries.set (entryName sha256 p.request) g.clock
          commits := g.commits ++ [(p.request, g.clock)] }) := by
  unfold advance
  split
  · split_ifs
    · exact ⟨_, .inr (.inl rfl)⟩
    · exact ⟨_, .inr (.inl rfl)⟩
    · exact ⟨_, .inr (.inl rfl)⟩
  · split_ifs
    · exact ⟨_, .inr (.inl rfl)⟩
    · exact ⟨_, .inr (.inl rfl)⟩
  · rename_i name names live hstg
    split
    · exact ⟨_, .inr (.inl rfl)⟩
    rename_i time hfd
    split_ifs with hold
    · exact ⟨_, .inr (.inr (.inl ⟨name, time, hfd, hold.1, rfl⟩))⟩
    · exact ⟨_, .inr (.inl rfl)⟩
  · split_ifs with hmem
    · exact ⟨_, .inr (.inl rfl)⟩
    · exact ⟨_, .inr (.inr (.inr ⟨hmem, rfl⟩))⟩
    · exact ⟨_, .inr (.inl rfl)⟩
  · exact ⟨.finished, .inl rfl⟩

end

/-! ## Every run -/

/-- The entry of a committed request, with a time not before the window of the request. -/
def Recorded (entries : Dict Bytes Int) (request : CrosedRequest) : Prop :=
  ∃ time, entries.find? (entryName sha256 request) = some time ∧ request.issuedAt - 300 ≤ time

/-- The last instant at which a request passes. -/
def deadline (request : CrosedRequest) : Int := request.issuedAt + 300

/-- The invariant of the directory. -/
structure Sound (g : Directory) : Prop where
  fresh : ∀ p ∈ g.processes, Fresh p.request.issuedAt p.now ∧ p.now ≤ g.clock
  retained : Retained deadline (Recorded sha256 g.entries) g.clock g.commits
  separated : Separated (entryName sha256) deadline g.commits

theorem sound_start (clk : Int) (es : Dict Bytes Int) : Sound sha256 (.start clk es) :=
  ⟨by simp [start], retained_nil _ _ _, separated_nil _ _⟩

section

variable {sha256} {g : Directory} {i : Nat} {p : Process}

theorem Sound.fresh_set (h : Sound sha256 g) (hp : p ∈ g.processes) (stage : Stage) :
    ∀ q ∈ g.processes.set i { p with stage }, Fresh q.request.issuedAt q.now ∧ q.now ≤ g.clock := by
  intro q hq
  rcases mem_or_eq_of_mem_set hq with hq | rfl
  · exact h.fresh q hq
  · exact h.fresh p hp

variable {request : CrosedRequest}

/-- An entry that is older than 600 seconds belongs to no request that can still pass. -/
theorem Recorded.removed {entries : Dict Bytes Int} (h : Recorded sha256 entries request) {name : Bytes}
    {time now clock : Int} (hfd : entries.find? name = some time) (hold : time < now - 600) (hclk : now ≤ clock) :
    Recorded sha256 (entries.erase name) request ∨ deadline request < clock := by
  obtain ⟨created, hcre, hwin⟩ := h
  by_cases hname : entryName sha256 request = name
  · right
    rw [hname, hfd] at hcre
    cases hcre
    unfold deadline
    omega
  · exact .inl ⟨created, by rw [find?_erase, if_neg hname, hcre], hwin⟩

/-- **One step of a process.** -/
theorem Sound.advance (h : Sound sha256 g) (hp : p ∈ g.processes) (ok : Bool) :
    Sound sha256 (g.advance sha256 i p ok) := by
  obtain ⟨hfsh, hnow⟩ := h.fresh p hp
  obtain ⟨stage, hsm | hmv | ⟨name, time, hfd, hold, hrem⟩ | ⟨habs, hcomm⟩⟩ :=
    advance_cases sha256 g i p ok
  · rw [hsm]
    exact h
  · rw [hmv]
    exact ⟨h.fresh_set hp stage, h.retained, h.separated⟩
  · rw [hrem]
    refine ⟨h.fresh_set hp stage, ?_, h.separated⟩
    exact h.retained.drop fun c _ hrec => hrec.removed hfd hold hnow
  rw [hcomm]
  refine ⟨h.fresh_set hp stage, ?_, ?_⟩
  · refine Retained.accept (h.retained.drop ?_) ?_ _
    -- the entries of the others stand under other names
    · rintro c - ⟨time, htime, hwin⟩
      left
      refine ⟨time, ?_, hwin⟩
      rw [find?_set_of_ne _ _ ?_, htime]
      intro hname
      exact habs (hname ▸ mem_of_find? htime)
    · refine ⟨g.clock, find?_set_self _ _ _, ?_⟩
      unfold Fresh at hfsh
      omega
  · refine h.separated.accept h.retained ?_
    rintro c - hname ⟨time, htime, -⟩
    exact absurd (hname ▸ mem_of_find? htime) habs

/-- **One event.** -/
theorem Sound.step (h : Sound sha256 g) (e : Event) : Sound sha256 (g.step sha256 e) := by
  cases e with
  | tick seconds =>
    have hle : g.clock ≤ g.clock + seconds := by omega
    exact ⟨fun p hp => ⟨(h.fresh p hp).1, (h.fresh p hp).2.trans hle⟩, h.retained.later hle, h.separated⟩
  | start request =>
    rw [Directory.step]
    split_ifs with hst
    · refine ⟨forall_mem_append.mpr ⟨h.fresh, forall_mem_singleton.mpr ?_⟩, h.retained, h.separated⟩
      exact ⟨hst.2.2, le_refl _⟩
    · exact h
  | act i ok =>
    rw [Directory.step]
    split
    · exact h
    · rename_i p hp
      exact h.advance (mem_of_getElem? hp) ok

theorem sound_run (sha256 : Bytes → Bytes) (clk : Int) (en : Dict Bytes Int) (es : List Event) :
    Sound sha256 ((start clk en).run sha256 es) :=
  foldl_invariant (fun _ e hg => hg.step e) (sound_start sha256 clk en) es

/-! ## A full directory -/

/-- The steps of one process, and how the file system answers each of them. -/
def steps (i : Nat) (oks : List Bool) : List Event := oks.map (.act i)

/-- In a full directory each entry is still to be looked at or counted as live, and no entry is created. -/
def Counting (entries : Dict Bytes Int) : Stage → Prop
  | .listing | .finished => True
  | .pruning names live => (∀ name ∈ names, name ∈ entries) ∧ live + names.length = entries.size
  | .creating => False

/-- A process that has found a full directory has changed neither the directory nor the commits. -/
structure Saturated (g : Directory) (i : Nat) (now : Int) (g' : Directory) : Prop where
  entries : g'.entries = g.entries
  commits : g'.commits = g.commits
  process : ∃ p, g'.processes[i]? = some p ∧ p.now = now ∧ Counting g.entries p.stage

theorem getElem?_enter {q : Process} (hp : g.processes[i]? = some q) (stage : Stage) :
    (g.enter i p stage).processes[i]? = some { p with stage } := by
  obtain ⟨hi, -⟩ := List.getElem?_eq_some_iff.mp hp
  simp [hi]

variable {now : Int}

/-- Each step of the process leaves a full directory of live entries as it is. -/
theorem Saturated.act {g' : Directory} (h : Saturated g i now g') (hfull : 4096 ≤ g.entries.size)
    (hlive : ∀ e ∈ g.entries.entries, now - 600 ≤ e.2) (ok : Bool) :
    Saturated g i now (g'.step sha256 (.act i ok)) := by
  obtain ⟨⟨request, read, stage⟩, hp, hnow, hstg⟩ := h.process
  have hmove : ∀ next, Counting g.entries next → Saturated g i now (g'.enter i ⟨request, read, stage⟩ next) :=
    fun next hnx => ⟨h.entries, h.commits, _, getElem?_enter hp next, hnow, hnx⟩
  dsimp only at hnow hstg
  rw [step, hp]
  cases stage with
  | listing =>
    dsimp only [advance]
    rw [h.entries, if_neg (not_lt.mpr hfull)]
    split_ifs
    · exact hmove .finished trivial
    · exact hmove (.pruning _ 0) ⟨fun name hname => hname, by rw [length_map, zero_add]; rfl⟩
  | pruning names live =>
    obtain ⟨hns, hcnt⟩ := hstg
    cases names with
    | nil =>
      dsimp only [advance]
      rw [length_nil] at hcnt
      rw [if_pos (by omega)]
      exact hmove .finished trivial
    | cons name names =>
      obtain ⟨time, htime⟩ := mem_iff_find?.mp (hns name mem_cons_self)
      have hyoung := hlive _ (find?_eq_some_iff.mp htime)
      dsimp only [advance]
      rw [h.entries, htime]
      dsimp only
      rw [if_neg (by omega)]
      refine hmove (.pruning names (live + 1)) ⟨fun n hn => hns n (mem_cons_of_mem _ hn), ?_⟩
      rw [length_cons] at hcnt
      omega
  | creating => exact hstg.elim
  | finished => exact h

/-- All its steps do. -/
theorem Saturated.run {g' : Directory} (h : Saturated g i now g') (hfull : 4096 ≤ g.entries.size)
    (hlive : ∀ e ∈ g.entries.entries, now - 600 ≤ e.2) (oks : List Bool) :
    Saturated g i now (g'.run sha256 (steps i oks)) := by
  induction oks generalizing g' with
  | nil => exact h
  | cons ok oks ih => exact ih (h.act hfull hlive ok)

/-- A process that does nothing any more. -/
theorem run_idle (h : ∀ ok, g.step sha256 (.act i ok) = g) (oks : List Bool) : g.run sha256 (steps i oks) = g := by
  induction oks with
  | nil => rfl
  | cons ok oks ih =>
    show (g.step sha256 (.act i ok)).run sha256 (steps i oks) = g
    rw [h, ih]

/-- **A full directory refuses.** A call that finds 4096 entries, none of them older than 600 seconds, removes nothing
    and commits nothing. -/
theorem full_refuses (hfull : 4096 ≤ g.entries.size) (hlive : ∀ e ∈ g.entries.entries, g.clock - 600 ≤ e.2)
    (request : CrosedRequest) (oks : List Bool) :
    (g.run sha256 (.start request :: steps g.processes.length oks)).entries = g.entries ∧
      (g.run sha256 (.start request :: steps g.processes.length oks)).commits = g.commits := by
  rw [show g.run sha256 (.start request :: steps g.processes.length oks) =
    (g.step sha256 (.start request)).run sha256 (steps g.processes.length oks) from rfl, step]
  split_ifs with hst
  · have hsat : Saturated g g.processes.length g.clock
        { g with processes := g.processes ++ [⟨request, g.clock, .listing⟩] } :=
      ⟨rfl, rfl, ⟨request, g.clock, .listing⟩, getElem?_concat_length, rfl, trivial⟩
    exact ⟨(hsat.run hfull hlive oks).entries, (hsat.run hfull hlive oks).commits⟩
  · rw [run_idle fun ok => by rw [step, getElem?_eq_none (le_refl _)]]
    exact ⟨rfl, rfl⟩

/-! ## A call that no other process interrupts -/

/-- The entries that `crosedReplayPrune` leaves. -/
def young (now : Int) (e : Bytes × Int) : Bool := !decide (e.2 < now - 600)

/-- The first step of a process, and the rest of its steps. -/
theorem run_succ {p : Process} (hp : g.processes[i]? = some p) (n : Nat) :
    g.run sha256 (steps i (replicate (n + 1) true)) =
      (g.advance sha256 i p true).run sha256 (steps i (replicate n true)) := by
  show (steps i (replicate n true)).foldl _ (g.step sha256 (.act i true)) = _
  rw [step, hp]
  rfl

variable {kept rest : List (Bytes × Int)}

/-- The loop looks at the name of one entry. -/
theorem prune_step (sha256 : Bytes → Bytes) {e : Bytes × Int} (hentries : g.entries.entries = kept ++ e :: rest)
    (hp : g.processes[i]? = some ⟨request, now, .pruning (e.1 :: rest.map Prod.fst) kept.length⟩) :
    ∃ g', g.advance sha256 i ⟨request, now, .pruning (e.1 :: rest.map Prod.fst) kept.length⟩ true = g' ∧
      g'.clock = g.clock ∧ g'.commits = g.commits ∧ g'.entries.entries = (kept ++ [e].filter (young now)) ++ rest ∧
      g'.processes[i]? =
        some ⟨request, now, .pruning (rest.map Prod.fst) (kept ++ [e].filter (young now)).length⟩ := by
  obtain ⟨name, time⟩ := e
  have hnd := g.entries.nodup
  rw [hentries, map_append, map_cons, nodup_append] at hnd
  have hkept : name ∉ kept.map Prod.fst := fun hmem => hnd.2.2 name hmem name mem_cons_self rfl
  have hrest : name ∉ rest.map Prod.fst := (nodup_cons.mp hnd.2.1).1
  have hfound : g.entries.find? name = some time := by
    rw [find?_eq_some_iff, hentries]
    simp
  dsimp only [advance]
  rw [hfound]
  dsimp only
  by_cases hold : time < now - 600
  · rw [if_pos ⟨hold, rfl⟩, filter_cons_of_neg (by simp [young, hold]), filter_nil, append_nil]
    refine ⟨_, rfl, rfl, rfl, ?_, getElem?_enter hp _⟩
    show (g.entries.entries.filter fun e => decide (e.1 ≠ name)) = kept ++ rest
    rw [hentries, filter_append, filter_ne_of_not_mem hkept, filter_cons_of_neg (by simp), filter_ne_of_not_mem hrest]
  · rw [if_neg (by simp [hold]), filter_cons_of_pos (by simp [young, hold]), filter_nil]
    refine ⟨_, rfl, rfl, rfl, ?_, ?_⟩
    · rw [enter_entries, hentries, append_assoc, singleton_append]
    · rw [getElem?_enter hp, length_append, length_singleton]

/-- The names of a listing are looked at one by one; `kept` is what the loop has left of those before. -/
theorem prune_loop (sha256 : Bytes → Bytes) (hentries : g.entries.entries = kept ++ rest)
    (hp : g.processes[i]? = some ⟨request, now, .pruning (rest.map Prod.fst) kept.length⟩) :
    ∃ g' : Directory,
      (∀ n, g.run sha256 (steps i (replicate (rest.length + n) true)) = g'.run sha256 (steps i (replicate n true))) ∧
      g'.clock = g.clock ∧ g'.commits = g.commits ∧ g'.entries.entries = kept ++ rest.filter (young now) ∧
      g'.processes[i]? = some ⟨request, now, .pruning [] g'.entries.size⟩ := by
  induction rest generalizing g kept with
  | nil =>
    refine ⟨g, fun n => by rw [length_nil, zero_add], rfl, rfl, hentries, ?_⟩
    rw [append_nil] at hentries
    rw [hp, Dict.size, hentries]
    rfl
  | cons e rest ih =>
    obtain ⟨g₁, hstep, hclock₁, hcommits₁, hentries₁, hp₁⟩ := prune_step sha256 hentries hp
    obtain ⟨g', hrun, hclock, hcommits, hleft, hstage⟩ := ih hentries₁ hp₁
    refine ⟨g', fun n => ?_, hclock.trans hclock₁, hcommits.trans hcommits₁, ?_, hstage⟩
    · rw [length_cons, Nat.add_right_comm, run_succ hp, ← hrun, ← hstep]
      rfl
    · rw [hleft, append_assoc, ← filter_append, singleton_append]

theorem run_finished (hp : g.processes[i]? = some ⟨request, now, .finished⟩) (n : Nat) :
    g.run sha256 (steps i (replicate n true)) = g :=
  run_idle (fun ok => by rw [step, hp]; rfl) _

/-- What `os.OpenFile` with `O_EXCL` makes of the directory. -/
theorem run_creating (sha256 : Bytes → Bytes) (hp : g.processes[i]? = some ⟨request, now, .creating⟩) (n : Nat) :
    ∃ g', g.run sha256 (steps i (replicate (n + 1) true)) = g' ∧
      ((entryName sha256 request ∈ g.entries ∧ g'.entries = g.entries ∧ g'.commits = g.commits) ∨
      (entryName sha256 request ∉ g.entries ∧ g'.commits = g.commits ++ [(request, g.clock)] ∧
        g'.entries.entries = g.entries.entries ++ [(entryName sha256 request, g.clock)])) := by
  rw [run_succ hp]
  dsimp only [advance]
  by_cases hmem : entryName sha256 request ∈ g.entries
  · rw [if_pos hmem, run_finished (getElem?_enter hp _)]
    exact ⟨_, rfl, .inl ⟨hmem, rfl, rfl⟩⟩
  have hfin : ∀ g' : Directory, g'.processes[i]? = some ⟨request, now, .finished⟩ →
      g'.run sha256 (steps i (replicate n true)) = g' := fun g' hg' => run_finished hg' n
  rw [if_neg hmem, if_pos rfl, hfin _ (getElem?_enter hp .finished)]
  exact ⟨_, rfl, .inr ⟨hmem, rfl, entries_set_absent _ hmem⟩⟩

/-- A directory as `Crosed.Grant` has it. -/
def storeOf (entries : List (Bytes × Int)) (clock : Int) : ReplayStore := { entries, clock }

theorem prune_storeOf (es : List (Bytes × Int)) (clock now : Int) : crosedReplayPrune (storeOf es clock) now =
      if es.length < 4096 then (storeOf es clock, true)
      else (storeOf (es.filter (young now)) clock, decide ((es.filter (young now)).length < 4096)) := by
  have hyoung : (fun e : Bytes × Int => !(decide (e.2 < now - 600) && true)) = young now := by
    funext e
    simp [young]
  rw [crosedReplayPrune]
  dsimp only [storeOf]
  rw [hyoung]
  rfl

theorem retain_pruned {entries left : List (Bytes × Int)} {clock now : Int} {digest : Bytes} {free : Bool} (hnow : 0 < now)
    (hdigest : digest.length = 32) (h : crosedReplayPrune (storeOf entries clock) now = (storeOf left clock, free)) :
    crosedReplayRetain (storeOf entries clock) digest now =
      if !free then (storeOf left clock, .error "Crosed replay store is saturated")
      else if (left.map Prod.fst).contains digest then (storeOf left clock, .ok false)
      else (storeOf (left ++ [(digest, clock)]) clock, .ok true) := by
  rw [crosedReplayRetain, if_neg (by simp [hdigest, hnow, storeOf]), h]
  cases free with
  | false | true => rfl

/-- A process has left the directory and the commits as `crosedReplayRetain` says. -/
def Retains (g : Directory) (request : CrosedRequest) (result : ReplayStore × Except String Bool) (g' : Directory) : Prop :=
  g'.entries.entries = result.1.entries ∧
    (result.2 = .ok true ∧ g'.commits = g.commits ++ [(request, g.clock)] ∨
      result.2 ≠ .ok true ∧ g'.commits = g.commits)

/-- The last steps of a call that goes on after `crosedReplayPrune`. -/
theorem retains_creating {g' : Directory} (hnow : 0 < now) (hname : (entryName sha256 request).length = 32)
    (hclock : g'.clock = g.clock) (hcommits : g'.commits = g.commits)
    (hp : g'.processes[i]? = some ⟨request, now, .creating⟩)
    (hprune : crosedReplayPrune (storeOf g.entries.entries g.clock) now = (storeOf g'.entries.entries g.clock, true))
    (n : Nat) :
    Retains g request (crosedReplayRetain (storeOf g.entries.entries g.clock) (entryName sha256 request) now)
      (g'.run sha256 (steps i (replicate (n + 1) true))) := by
  rw [retain_pruned hnow hname hprune, if_neg (by simp)]
  obtain ⟨g'', hrun, ⟨hmem, hentries, hdone⟩ | ⟨hmem, hdone, hentries⟩⟩ := run_creating sha256 hp n
  · have hmem' : entryName sha256 request ∈ g'.entries.entries.map Prod.fst := hmem
    rw [hrun, if_pos (contains_iff_mem.mpr hmem')]
    exact ⟨by rw [hentries]; rfl, .inr ⟨by simp, by rw [hdone, hcommits]⟩⟩
  rw [hrun, if_neg (by rwa [contains_iff_mem])]
  exact ⟨by rw [hentries, hclock]; rfl, .inl ⟨rfl, by rw [hdone, hcommits, hclock]⟩⟩

/-- **A call that no other process interrupts is `crosedReplayRetain`.** -/
theorem call_eq_retain (hp : g.processes[i]? = some ⟨request, now, .listing⟩) (hnow : 0 < now)
    (hname : (entryName sha256 request).length = 32) (n : Nat) :
    Retains g request (crosedReplayRetain (storeOf g.entries.entries g.clock) (entryName sha256 request) now)
      (g.run sha256 (steps i (replicate (g.entries.size + 3 + n) true))) := by
  have hprune := prune_storeOf g.entries.entries g.clock now
  rw [show g.entries.entries.length = g.entries.size from rfl] at hprune
  by_cases hsmall : g.entries.size < 4096
  · rw [if_pos hsmall] at hprune
    rw [show g.entries.size + 3 + n = (g.entries.size + 1 + n + 1) + 1 by omega, run_succ hp]
    dsimp only [advance]
    rw [if_neg (by simp), if_pos hsmall]
    have hstage : (g.enter i ⟨request, now, .listing⟩ .creating).processes[i]? = some ⟨request, now, .creating⟩ :=
      getElem?_enter hp _
    exact retains_creating hnow hname (enter_clock _) (enter_commits _) hstage hprune _
  rw [if_neg hsmall] at hprune
  rw [show g.entries.size + 3 + n = (g.entries.entries.length + (n + 2)) + 1 by rw [Dict.size]; omega, run_succ hp]
  dsimp only [advance]
  rw [if_neg (by simp), if_neg hsmall]
  obtain ⟨g', hrun, hclock, hcommits, hleft, hstage⟩ :=
    prune_loop (g := g.enter i ⟨request, now, .listing⟩ (.pruning (g.entries.entries.map Prod.fst) 0)) sha256
      (nil_append g.entries.entries).symm (getElem?_enter hp _)
  rw [nil_append] at hleft
  rw [← hleft, show g'.entries.entries.length = g'.entries.size from rfl] at hprune
  rw [hrun, show n + 2 = (n + 1) + 1 from rfl, run_succ hstage]
  dsimp only [advance]
  split_ifs with hlive
  · rw [decide_eq_false (not_lt.mpr hlive)] at hprune
    rw [run_finished (getElem?_enter hstage .finished), retain_pruned hnow hname hprune]
    exact ⟨rfl, .inr ⟨by simp, hcommits⟩⟩
  rw [decide_eq_true (not_le.mp hlive)] at hprune
  have hcreating : (g'.enter i ⟨request, now, .pruning [] g'.entries.size⟩ .creating).processes[i]? =
      some ⟨request, now, .creating⟩ := getElem?_enter hstage _
  exact retains_creating hnow hname ((enter_clock _).trans hclock) ((enter_commits _).trans hcommits) hcreating hprune n

/-- A full directory: five entries a second. -/
def fullEntries : Dict Bytes Int where
  entries := (range 4096).map fun k => (toBE 32 k, (k / 5 : Int))
  nodup := by
    rw [map_map]
    refine nodup_range.map_on ?_
    intro a ha b hb hab
    have hba := congrArg ofBE hab
    simp only [mem_range] at ha hb
    simpa only [Function.comp_apply, ofBE_toBE_of_lt (show a < 256 ^ 32 by omega),
      ofBE_toBE_of_lt (show b < 256 ^ 32 by omega)] using hba

def fullDirectory : Directory := ⟨1000, fullEntries, [⟨unsignedRequest [], 1000, .listing⟩], []⟩

theorem call_eq_retain_prunes :
    (crosedReplayRetain (storeOf fullEntries.entries 1000) (entryName sampleSha (unsignedRequest [])) 1000).2 = .ok true ∧
    (crosedReplayPrune (storeOf fullEntries.entries 1000) 1000).1.entries.length = 2096 ∧
    Retains fullDirectory (unsignedRequest [])
      (crosedReplayRetain (storeOf fullEntries.entries 1000) (entryName sampleSha (unsignedRequest [])) 1000)
      (fullDirectory.run sampleSha (steps 0 (replicate (fullEntries.size + 3 + 0) true))) :=
  ⟨by decide +kernel, by decide +kernel, call_eq_retain rfl (by decide) (by decide +kernel) 0⟩

/-! ## Single use -/

/-- What the directory guards, at any moment of a run. -/
structure SingleUse (sha256 : Bytes → Bytes) (g : Directory) : Prop where
  /-- A second commit for one Mod and nonce comes when the first request does not pass any more. -/
  once : g.commits.Pairwise fun a b => entryName sha256 a.1 = entryName sha256 b.1 → ¬ Fresh a.1.issuedAt b.2
  /-- The entry of a request that can still pass stands. -/
  kept : ∀ c ∈ g.commits, Fresh c.1.issuedAt g.clock → entryName sha256 c.1 ∈ g.entries
  /-- A call that finds the directory full of live entries neither removes nor commits. -/
  full : 4096 ≤ g.entries.size → (∀ e ∈ g.entries.entries, g.clock - 600 ≤ e.2) → ∀ request oks,
    (g.run sha256 (.start request :: steps g.processes.length oks)).entries = g.entries ∧
      (g.run sha256 (.start request :: steps g.processes.length oks)).commits = g.commits

/-- **Nonces are used once.** For every interleaving of any number of processes on one directory, under a clock that does
    not go back. -/
theorem nonce_single_use (sha256 : Bytes → Bytes) (clock : Int) (entries : Dict Bytes Int) (es : List Event) :
    SingleUse sha256 ((start clock entries).run sha256 es) := by
  have hsound := sound_run sha256 clock entries es
  refine ⟨?_, ?_, fun hfull hlive request oks => full_refuses hfull hlive request oks⟩
  · refine hsound.separated.imp ?_
    intro a b hsep hname hfresh
    have hlate := hsep hname
    unfold deadline at hlate
    unfold Fresh at hfresh
    omega
  · intro c hc hfresh
    rcases hsound.retained c hc with ⟨time, htime, -⟩ | hlate
    · exact mem_of_find? htime
    unfold deadline at hlate
    unfold Fresh at hfresh
    omega

end

end Sharing

end Shadow6.Crosed.Go
