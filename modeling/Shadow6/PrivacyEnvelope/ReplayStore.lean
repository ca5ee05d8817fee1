import Shadow6.Library.Hex
import Shadow6.PrivacyEnvelope.MessageSecurity

/-!
# `PrivacyEnvelope.ReplayStore` — the replay state on disk

Model of `replay_store.ml`: a text file with the key epoch in its first line and, for every nonce hash of the cache, a
line with the second in which it expires, rounded up. `commit` writes a new file and renames it over the old one;
`initialize` reads it back into a cache, for the same epoch without the hashes that have expired, for a higher one
without any.

`gettimeofday` is a number of seconds with six decimals, so an instant is counted in microseconds here and additions
are exact. Every file that `commit` writes is accepted later (`initializeStore_render`).
-/

namespace Shadow6.PrivacyEnvelope

open Library Library.Json List Dict

/-- What a datagram can raise: `Exit`, an error of the operating system, or an exception of the module. -/
inductive Fault where
  | exit
  | io
  | exn (e : Exn)
deriving DecidableEq

def invalid (text : String) : Fault := .exn (.invalidArg text)

/-- Microseconds since 1970; a clock stays below `2 ^ 60` of them. -/
abbrev Instant := Fin (2 ^ 60)

/-- `key_epoch` as `config.ml` admits it. -/
abbrev Epoch := { n : Nat // 1 ≤ n ∧ n ≤ 2147483647 }

/-- The microseconds of a second. -/
def second : Int := 1000000

/-- `int_of_float (ceil until)`. -/
def ceilSeconds (expiry : Int) : Int := (expiry + 999999) / second

/-- `Printf.sprintf "%016x"` on a 63-bit integer. -/
def sprintf016x (n : Int) : Bytes := toHex 16 (n % 2 ^ 63).toNat

/-- `int_of_string ("0x" ^ s)`: digits of either case, with underscores after the first one. -/
def intOfHex (s : Bytes) : Option Int :=
  if (s.head?.bind hexValue).isNone then none
  else (ofHex 0 (s.filter (· ≠ 95))).bind fun n => if n < 2 ^ 63 then some (signed 63 n) else none

namespace ReplayStore

/-- `hex value length`. -/
def hex (value : Bytes) (length : Nat) : Bool := decide (value.length = length) && value.all isHexDigit

/-- The table from nonce hashes to the instants in which they expire. -/
abbrev Cache := Dict Bytes Int

/-! ## `initialize` -/

def magic : Bytes := utf8 "S6EPE-REPLAY-1".toList

def storedEpoch (header : Bytes) : Except Fault Int :=
  match header.splitOn 32 with
  | [version, e] =>
    if version = magic ∧ hex e 16 then
      match intOfHex e with
      | none => .error (.exn (.failure "int_of_string"))
      | some n => .ok n
    else .error (invalid "replay state version")
  | _ => .error (invalid "replay state version")

/-- One line of the file. -/
def loadLine (stored epoch now : Int) (cache : Cache) (line : Bytes) : Except Fault Cache :=
  if line = [] then .ok cache
  else
    match line.splitOn 32 with
    | [nonce, expires] =>
      if hex nonce 64 ∧ hex expires 16 then
        match intOfHex expires with
        | none => .error (.exn (.failure "int_of_string"))
        | some n =>
          if n * second > now + 62 * second then .error (invalid "replay state validity window")
          else if stored = epoch ∧ n * second ≥ now then
            if nonce ∈ cache then .error (invalid "duplicate replay state") else .ok (cache.set nonce (n * second))
          else .ok cache
      else .error (invalid "malformed replay state")
    | _ => .error (invalid "malformed replay state")

/-- One line after the other. -/
def loadLines (stored epoch now : Int) : Cache → List Bytes → Except Fault Cache
  | cache, [] => .ok cache
  | cache, line :: lines =>
    match loadLine stored epoch now cache line with
    | .error e => .error e
    | .ok cache => loadLines stored epoch now cache lines

/-- `initialize` on the text at the path. -/
def initializeStore (contents : Option Bytes) (epoch : Epoch) (now : Instant) : Except Fault Cache :=
  match contents with
  | none => .ok .empty
  | some contents =>
    if contents.length > 400000 then .error (invalid "private configuration required")
    else
      match contents.splitOn 10 with
      | [] => .error (invalid "replay state header")
      | header :: records =>
        match storedEpoch header with
        | .error e => .error e
        | .ok stored =>
          if stored > epoch.val then .error (invalid "replay epoch rollback")
          else if records.length > 4097 then .error (invalid "replay state capacity")
          else loadLines stored epoch.val now.val .empty records

/-! ## `commit` -/

def headerLine (epoch : Epoch) : Bytes := magic ++ 32 :: sprintf016x epoch.val

def entryLine (entry : Bytes × Int) : Bytes := entry.1 ++ 32 :: sprintf016x (ceilSeconds entry.2)

/-- The file for the entries of a cache. -/
def render (epoch : Epoch) (entries : List (Bytes × Int)) : Bytes :=
  (headerLine epoch :: entries.map entryLine).flatMap (· ++ [10])

/-- A file, with the epoch of the store that wrote it for reference. -/
structure File where
  writer : Epoch
  text : Bytes

/-- How the system calls of a `commit` end: all of them succeed, or one fails before or after the rename. -/
inductive Outcome where
  | completed
  | failedBefore
  | failedAfter
deriving DecidableEq

/-- `commit`, for the entries in the order in which the table gives them; the result is its answer and the file at the
    path then. -/
def commit (epoch : Epoch) (entries : List (Bytes × Int)) (file : Option File) (outcome : Outcome) :
    Except Fault Unit × Option File :=
  if entries.length > 4096 then (.error (invalid "replay state capacity"), file)
  else if (file.map fun f => f.text.length).getD 0 > 400000 then
    (.error (invalid "private configuration required"), file)
  else
    match outcome with
    | .completed => (.ok (), some ⟨epoch, render epoch entries⟩)
    | .failedBefore => (.error .io, file)
    | .failedAfter => (.error .io, some ⟨epoch, render epoch entries⟩)

/-! ## What is written is read back -/

/-- Entries that a cache can hold when the clock shows `now`. -/
structure Writable (now : Int) (entries : List (Bytes × Int)) : Prop where
  nodup : (entries.map Prod.fst).Nodup
  size : entries.length ≤ 4096
  named : ∀ k u, (k, u) ∈ entries → hex k 64 = true
  positive : ∀ k u, (k, u) ∈ entries → 0 ≤ u
  near : ∀ k u, (k, u) ∈ entries → ceilSeconds u * second ≤ now + 62 * second

theorem le_ceilSeconds (u : Int) : u ≤ ceilSeconds u * second := by
  unfold ceilSeconds second
  omega

theorem ceilSeconds_lt (u : Int) : ceilSeconds u * second < u + second := by
  unfold ceilSeconds second
  omega

theorem ceilSeconds_whole (n : Int) : ceilSeconds (n * second) = n := by
  unfold ceilSeconds second
  omega

variable {k : Bytes} {u : Int}

section

variable {now now' : Int} {entries entries' : List (Bytes × Int)} {ca : Cache}

theorem Writable.later (h : Writable now entries) (hnow : now ≤ now') : Writable now' entries :=
  { h with near := fun k u hu => (h.near k u hu).trans (by omega) }

theorem Writable.perm (h : Writable now entries) (hperm : entries'.Perm entries) : Writable now entries' where
  nodup := (hperm.map Prod.fst).nodup_iff.mpr h.nodup
  size := hperm.length_eq.trans_le h.size
  named := fun k u hu => h.named k u (hperm.mem_iff.mp hu)
  positive := fun k u hu => h.positive k u (hperm.mem_iff.mp hu)
  near := fun k u hu => h.near k u (hperm.mem_iff.mp hu)

theorem Writable.sublist (h : Writable now entries) (hsub : entries'.Sublist entries) : Writable now entries' where
  nodup := h.nodup.sublist (hsub.map Prod.fst)
  size := hsub.length_le.trans h.size
  named := fun k u hu => h.named k u (hsub.mem hu)
  positive := fun k u hu => h.positive k u (hsub.mem hu)
  near := fun k u hu => h.near k u (hsub.mem hu)

/-- A new hash. -/
theorem Writable.set (h : Writable now ca.entries) (hnew : k ∉ ca) (hsz : ca.size < 4096)
    (hk : hex k 64 = true) (hu : 0 ≤ u) (hnear : ceilSeconds u * second ≤ now + 62 * second) :
    Writable now (ca.set k u).entries := by
  have hmem : ∀ k' u', (k', u') ∈ (ca.set k u).entries → (k', u') ∈ ca.entries ∨ (k' = k ∧ u' = u) := by
    intro k' u' h'
    rcases find?_set_cases (find?_eq_some_iff.mpr h') with ⟨hk', hu'⟩ | ⟨-, h'⟩
    · exact .inr ⟨hk', hu'.symm⟩
    · exact .inl (find?_eq_some_iff.mp h')
  refine ⟨(ca.set k u).nodup, ?_, ?_, ?_, ?_⟩
  · have hone := size_set_absent (v := u) (not_mem_iff_find?.mp hnew)
    unfold Dict.size at hone hsz
    omega
  · intro k' u' h'
    rcases hmem k' u' h' with hold | ⟨rfl, rfl⟩
    · exact h.named k' u' hold
    · exact hk
  · intro k' u' h'
    rcases hmem k' u' h' with hold | ⟨rfl, rfl⟩
    · exact h.positive k' u' hold
    · exact hu
  · intro k' u' h'
    rcases hmem k' u' h' with hold | ⟨rfl, rfl⟩
    · exact h.near k' u' hold
    · exact hnear

end

section

variable {n : Int}

theorem hex_sprintf016x (n : Int) : hex (sprintf016x n) 16 = true := by
  unfold hex sprintf016x
  rw [Bool.and_eq_true, decide_eq_true_eq, all_eq_true]
  exact ⟨length_toHex _ _, isHexDigit_toHex _ _⟩

theorem hex_clean {value : Bytes} {length : Nat} (h : hex value length = true) {sep : UInt8}
    (hsep : isHexDigit sep = false) : sep ∉ value := by
  unfold hex at h
  rw [Bool.and_eq_true, all_eq_true] at h
  intro hmem
  rw [h.2 sep hmem] at hsep
  cases hsep

theorem sprintf016x_eq (hn : 0 ≤ n) (hlt : n < 2 ^ 62) : sprintf016x n = toHex 16 n.toNat := by
  unfold sprintf016x
  rw [Int.emod_eq_of_lt hn (hlt.trans (by norm_num))]

/-- **A number that was written is read back.** -/
theorem intOfHex_sprintf016x (hn : 0 ≤ n) (hlt : n < 2 ^ 62) : intOfHex (sprintf016x n) = some n := by
  have hsml : n.toNat < 2 ^ 62 := by omega
  have hdig := isHexDigit_toHex 16 n.toNat
  have hclean : (toHex 16 n.toNat).filter (· ≠ 95) = toHex 16 n.toNat := by
    rw [filter_eq_self]
    intro b hb
    exact decide_eq_true (isHexDigit_ne (hdig b hb)).2.2
  have hfst : ((toHex 16 n.toNat).head?.bind hexValue).isNone = false := by
    show (hexValue (hexChar (n.toNat / 16 ^ 15 % 16))).isNone = false
    rw [hexValue_hexChar (Nat.mod_lt _ (by decide))]
    rfl
  unfold intOfHex
  rw [sprintf016x_eq hn hlt, hfst, hclean, ofHex_toHex_of_lt (hsml.trans (by norm_num))]
  show (if n.toNat < 2 ^ 63 then some (signed 63 n.toNat) else none) = some n
  rw [if_pos (hsml.trans (by norm_num))]
  unfold signed
  rw [if_pos hsml, Int.toNat_of_nonneg hn]

end

/-- The cache that a line leads to. -/
def loaded (same : Prop) [Decidable same] (now : Int) (cache : Cache) (entry : Bytes × Int) : Cache :=
  if same ∧ now ≤ ceilSeconds entry.2 * second then cache.set entry.1 (ceilSeconds entry.2 * second) else cache

theorem loadLine_entry {stored epoch now : Int} {cache : Cache} (hk : hex k 64 = true) (hu : 0 ≤ u)
    (hlt : ceilSeconds u < 2 ^ 62) (hnear : ceilSeconds u * second ≤ now + 62 * second) (hnew : k ∉ cache) :
    loadLine stored epoch now cache (entryLine (k, u)) = .ok (loaded (stored = epoch) now cache (k, u)) := by
  have hceil : 0 ≤ ceilSeconds u := by
    unfold ceilSeconds second
    omega
  have hfs : (entryLine (k, u)).splitOn 32 = [k, sprintf016x (ceilSeconds u)] :=
    splitOn_fields (hex_clean hk (by decide)) (hex_clean (hex_sprintf016x _) (by decide))
  have hline : entryLine (k, u) ≠ [] := by
    exact append_ne_nil_of_right_ne_nil _ (cons_ne_nil _ _)
  unfold loadLine loaded
  rw [if_neg hline, hfs]
  dsimp only
  rw [if_pos ⟨hk, hex_sprintf016x _⟩, intOfHex_sprintf016x hceil hlt]
  dsimp only
  rw [if_neg (by omega)]
  split
  · rfl
  · rfl

theorem find?_loaded {sm : Prop} [Decidable sm] {now : Int} {cc : Cache} (hnew : k ∉ cc) (k' : Bytes)
    (v : Int) : (loaded sm now cc (k, u)).find? k' = some v ↔
      cc.find? k' = some v ∨ (k' = k ∧ sm ∧ now ≤ ceilSeconds u * second ∧ v = ceilSeconds u * second) := by
  have hnone := not_mem_iff_find?.mp hnew
  unfold loaded
  split
  · rename_i hkept
    rw [find?_set]
    by_cases hk : k' = k
    · subst hk
      rw [if_pos rfl, hnone]
      simp [hkept.1, hkept.2, eq_comm]
    · simp [hk]
  rename_i hdrop
  constructor
  · exact .inl
  · rintro (hold | ⟨-, hsm, hlate, -⟩)
    · exact hold
    · exact absurd ⟨hsm, hlate⟩ hdrop

theorem size_loaded {sm : Prop} [Decidable sm] {now : Int} {cc : Cache} (hnew : k ∉ cc) :
    (loaded sm now cc (k, u)).size ≤ cc.size + 1 := by
  unfold loaded
  split
  · exact (size_set_absent (not_mem_iff_find?.mp hnew)).le
  · exact Nat.le_succ _

/-- **The lines of the entries are read**: a cache with those that have not expired. -/
theorem loadLines_entries {sd epoch now : Int} (hnow : now < 2 ^ 60) (entries : List (Bytes × Int)) (cache : Cache)
    (hnd : (entries.map Prod.fst).Nodup) (hnamed : ∀ k u, (k, u) ∈ entries → hex k 64 = true)
    (hpos : ∀ k u, (k, u) ∈ entries → 0 ≤ u)
    (hnear : ∀ k u, (k, u) ∈ entries → ceilSeconds u * second ≤ now + 62 * second)
    (hnew : ∀ k u, (k, u) ∈ entries → k ∉ cache) :
    ∃ c, loadLines sd epoch now cache (entries.map entryLine ++ [[]]) = .ok c ∧
      c.size ≤ cache.size + entries.length ∧
      ∀ k v, c.find? k = some v ↔ cache.find? k = some v ∨ ∃ u, (k, u) ∈ entries ∧ sd = epoch ∧
        now ≤ ceilSeconds u * second ∧ v = ceilSeconds u * second := by
  induction entries generalizing cache with
  | nil => exact ⟨cache, rfl, le_rfl, fun k v => by simp⟩
  | cons en rest ih =>
    obtain ⟨k, u⟩ := en
    rw [map_cons, nodup_cons] at hnd
    have hmem : (k, u) ∈ (k, u) :: rest := mem_cons_self
    have hfsh := hnew k u hmem
    have hlt : ceilSeconds u < 2 ^ 62 := by
      have hbnd := hnear k u hmem
      unfold second at hbnd
      omega
    have hline : loadLine sd epoch now cache (entryLine (k, u)) = .ok (loaded (sd = epoch) now cache (k, u)) :=
      loadLine_entry (hnamed k u hmem) (hpos k u hmem) hlt (hnear k u hmem) hfsh
    have hrs : ∀ k' u', (k', u') ∈ rest → k' ∉ loaded (sd = epoch) now cache (k, u) := by
      intro k' u' h'
      have hne : k' ≠ k := by
        rintro rfl
        exact hnd.1 (mem_map.mpr ⟨_, h', rfl⟩)
      rw [mem_iff_find?]
      rintro ⟨v, hv⟩
      rcases (find?_loaded hfsh k' v).mp hv with hold | ⟨heq, -⟩
      · exact hnew k' u' (mem_cons_of_mem _ h') (mem_of_find? hold)
      · exact hne heq
    obtain ⟨c, hload, hsz, hfd⟩ := ih _ hnd.2 (fun k' u' h' => hnamed k' u' (mem_cons_of_mem _ h'))
      (fun k' u' h' => hpos k' u' (mem_cons_of_mem _ h'))
      (fun k' u' h' => hnear k' u' (mem_cons_of_mem _ h')) hrs
    refine ⟨c, ?_, ?_, ?_⟩
    · rw [map_cons, cons_append, loadLines, hline]
      exact hload
    · have hone : (loaded (sd = epoch) now cache (k, u)).size ≤ cache.size + 1 := size_loaded hfsh
      rw [length_cons]
      omega
    intro k' v
    rw [hfd, find?_loaded hfsh]
    constructor
    · rintro ((hold | ⟨rfl, hkept⟩) | ⟨u', h', hkept⟩)
      · exact .inl hold
      · exact .inr ⟨u, hmem, hkept⟩
      · exact .inr ⟨u', mem_cons_of_mem _ h', hkept⟩
    · rintro (hold | ⟨u', h', hkept⟩)
      · exact .inl (.inl hold)
      · rcases mem_cons.mp h' with heq | h'
        · cases heq
          exact .inl (.inr ⟨rfl, hkept⟩)
        · exact .inr ⟨u', h', hkept⟩

theorem length_entryLine (hk : hex k 64 = true) : (entryLine (k, u)).length = 81 := by
  unfold hex at hk
  rw [Bool.and_eq_true, decide_eq_true_eq] at hk
  unfold entryLine sprintf016x
  rw [length_append, length_cons, length_toHex, hk.1]

variable (ep : Epoch)

theorem length_headerLine : (headerLine ep).length = 31 := by
  unfold headerLine sprintf016x
  rfl

variable (es : List (Bytes × Int))

theorem length_render (h : ∀ k u, (k, u) ∈ es → hex k 64 = true) : (render ep es).length = 32 + 82 * es.length := by
  have hlines : ((es.map entryLine).flatMap (· ++ [10])).length = 82 * es.length := by
    induction es with
    | nil => rfl
    | cons en r ih =>
      obtain ⟨k, u⟩ := en
      have hrs := ih fun k' u' h' => h k' u' (mem_cons_of_mem _ h')
      rw [map_cons, flatMap_cons, length_append, hrs, length_append,
        length_entryLine (h k u mem_cons_self), length_cons]
      show 81 + 1 + 82 * r.length = 82 * (r.length + 1)
      omega
  unfold render
  rw [flatMap_cons, length_append, hlines, length_append, length_headerLine]
  rfl

theorem storedEpoch_headerLine : storedEpoch (headerLine ep) = .ok ep.val := by
  have hfs : (headerLine ep).splitOn 32 = [magic, sprintf016x ep.val] :=
    splitOn_fields (by decide) (hex_clean (hex_sprintf016x _) (by decide))
  have hlt : (ep.val : Int) < 2 ^ 62 := by
    omega
  unfold storedEpoch
  rw [hfs]
  dsimp only
  rw [if_pos ⟨rfl, hex_sprintf016x _⟩, intOfHex_sprintf016x (Int.natCast_nonneg _) hlt]

theorem splitOn_render (h : ∀ k u, (k, u) ∈ es → hex k 64 = true) :
    (render ep es).splitOn 10 = headerLine ep :: (es.map entryLine ++ [[]]) := by
  refine splitOn_lines (headerLine ep :: es.map entryLine) ?_
  have hnum : ∀ n : Int, (10 : UInt8) ∉ sprintf016x n := fun n => hex_clean (hex_sprintf016x n) (by decide)
  intro line hline
  rcases mem_cons.mp hline with rfl | hline
  · unfold headerLine
    rw [mem_append, mem_cons, not_or, not_or]
    exact ⟨by decide, by decide, hnum _⟩
  obtain ⟨⟨k, u⟩, hentry, rfl⟩ := mem_map.mp hline
  unfold entryLine
  rw [mem_append, mem_cons, not_or, not_or]
  exact ⟨hex_clean (h k u hentry) (by decide), by decide, hnum _⟩

/-- **A file that was written is accepted**, by the same and by higher epochs, as long as the clock does not go back. -/
theorem initializeStore_render {epoch epoch' : Epoch} {now : Instant} {entries : List (Bytes × Int)}
    (h : Writable now.val entries) (hep : epoch ≤ epoch') :
    ∃ c, initializeStore (some (render epoch entries)) epoch' now = .ok c ∧ c.size ≤ entries.length ∧
      ∀ k v, c.find? k = some v ↔ ∃ u, (k, u) ∈ entries ∧ epoch = epoch' ∧
        now.val ≤ ceilSeconds u * second ∧ v = ceilSeconds u * second := by
  have hnow : (now.val : Int) < 2 ^ 60 := by
    omega
  have hle : epoch.val ≤ epoch'.val := hep
  obtain ⟨c, hload, hsz, hfd⟩ := loadLines_entries hnow entries .empty
    h.nodup h.named h.positive h.near fun k u _ => not_mem_empty k
  refine ⟨c, ?_, ?_, ?_⟩
  · have hlen := length_render epoch entries h.named
    have hes := h.size
    unfold initializeStore
    dsimp only
    rw [if_neg (by omega), splitOn_render epoch entries h.named]
    dsimp only
    rw [storedEpoch_headerLine]
    dsimp only
    rw [if_neg (by omega), if_neg (by simp; omega)]
    exact hload
  · rw [size_empty, zero_add] at hsz
    exact hsz
  · intro k v
    rw [hfd, find?_empty]
    have hsm : (epoch.val : Int) = epoch'.val ↔ epoch = epoch' := by
      rw [Int.natCast_inj, Subtype.ext_iff]
    simp only [hsm, reduceCtorEq, false_or]

/-- A file of a higher epoch is refused. -/
theorem initializeStore_rollback {epc epc' : Epoch} {now : Instant} {entries : List (Bytes × Int)}
    (h : Writable now.val entries) (hep : ¬ epc ≤ epc') :
    initializeStore (some (render epc entries)) epc' now = .error (invalid "replay epoch rollback") := by
  have hlen := length_render epc entries h.named
  have hes := h.size
  have hlt : ¬ epc.val ≤ epc'.val := hep
  unfold initializeStore
  dsimp only
  rw [if_neg (by omega), splitOn_render epc entries h.named]
  dsimp only
  rw [storedEpoch_headerLine]
  dsimp only
  rw [if_pos (by omega)]

end ReplayStore

end Shadow6.PrivacyEnvelope
