import Shadow6.Library.JsonProper
import Shadow6.Library.LexOrder
import Shadow6.Portable.Admission

/-!
# `Crosed.Canonical` — the canonical JSON that Crosed signs, in the tool and in Core-Go

A Crosed request carries a JSON payload, and what is signed is the hash of its canonical form. The module has
`validate_payload` and the serialization inside `signed_payload` of `Crosed/crosedctl.py`, and
`writePortableJSON` of `Core-Go/crosed.go`. Both give the same bytes for every document within the limits
(`Admissible`): Python sorts keys by code points and Go by bytes, which is the same order (`utf8_lt_iff`), and
they escape the same characters in the same way.
-/

namespace Shadow6.Crosed

open Library Json Portable

/-! ## The portable documents -/

/-- A portable string: at most 16 KiB of UTF-8, no NUL, in normal form. -/
structure PortableString (nfc : Text → Text) (s : Text) : Prop where
  size : (utf8 s).length ≤ 16384
  noNul : Char.ofNat 0 ∉ s
  normal : nfc s = s

/-- **The portable documents**, at a nesting depth of at most `limit`: safe integers, portable strings, and
    objects with distinct keys. A key counts as one level deeper than its object. -/
inductive Admissible (nfc : Text → Text) (limit : Nat) : Nat → Json → Prop where
  | null {d : Nat} (hdepth : d ≤ limit) : Admissible nfc limit d .null
  | bool {d : Nat} {b : Bool} (hdepth : d ≤ limit) : Admissible nfc limit d (.bool b)
  | int {d : Nat} {n : Int} (hdepth : d ≤ limit) (hn : n.natAbs ≤ 9007199254740991) :
      Admissible nfc limit d (.int n)
  | str {d : Nat} {s : Text} (hdepth : d ≤ limit) (hs : PortableString nfc s) : Admissible nfc limit d (.str s)
  | arr {d : Nat} {xs : List Json} (hdepth : d ≤ limit) (hxs : ∀ x ∈ xs, Admissible nfc limit (d + 1) x) :
      Admissible nfc limit d (.arr xs)
  | obj {d : Nat} {ms : Members} (hdepth : d ≤ limit) (hnodup : (ms.map Prod.fst).Nodup)
      (hkeys : ∀ m ∈ ms, PortableString nfc m.1) (hvalues : ∀ m ∈ ms, Admissible nfc limit (d + 1) m.2) :
      Admissible nfc limit d (.obj ms)

variable {v : Json} {ms : Members}

section

variable {nfc : Text → Text} {limit d : Nat}

section

variable (h : Admissible nfc limit d v)
include h

theorem Admissible.depth : d ≤ limit := by
  cases h <;> assumption

theorem Admissible.arrange {A : Arrangement} : Admissible nfc limit d (arrange A v) := by
  induction h with
  | null hdep => exact .null hdep
  | bool hdep => exact .bool hdep
  | int hdep hn => exact .int hdep hn
  | str hdep hs => exact .str hdep hs
  | arr hdep _ ih =>
    rw [Json.arrange, arrangeAll_eq_map]
    exact .arr hdep (List.forall_mem_map.mpr ih)
  | obj hdep hnd hkeys _ ih =>
    refine .obj hdep ?_ (forall_mem_order hkeys) (forall_mem_order ih)
    rwa [(A.keys_perm _).nodup_iff, arrangeMembers_keys]

theorem Admissible.proper : Proper v := by
  induction h with
  | null => exact .null
  | bool => exact .bool _
  | int => exact .int _
  | str => exact .str _
  | arr _ _ ih => exact .arr ih
  | obj _ hnd _ _ ih => exact .obj hnd ih

end

end

/-! ## `crosedctl.py` -/

/-- `CrosedError(text)`. -/
structure CrosedError where
  text : String
deriving DecidableEq, Repr

namespace Ctl

/-- `validate_payload(value, depth)` on a string, a value or a key. -/
def validateString (depth : Nat) (s : Text) : Except CrosedError Unit :=
  if 16 < depth then .error ⟨"Crosed payload nesting is too deep"⟩
  else if Char.ofNat 0 ∈ s ∨ 16384 < (utf8 s).length then
    .error ⟨"Crosed UTF-8 string is unsafe or oversized"⟩
  else .ok ()

mutual

/-- `validate_payload(value, depth)`. -/
def validatePayload (depth : Nat) (value : Json) : Except CrosedError Unit :=
  if 16 < depth then .error ⟨"Crosed payload nesting is too deep"⟩
  else match value with
  | .null | .bool _ => .ok ()
  | .int n =>
    if 9007199254740991 < n.natAbs then
      .error ⟨"Crosed integers must be exactly portable across Core languages"⟩
    else .ok ()
  | .str s => validateString depth s
  | .arr xs => validateItems (depth + 1) xs
  | .obj ms => validateMembers (depth + 1) ms
  | .foreign => .error ⟨"Crosed payload supports only portable JSON types (floats are forbidden)"⟩

def validateItems (depth : Nat) : List Json → Except CrosedError Unit
  | [] => .ok ()
  | x :: xs =>
    match validatePayload depth x with
    | .error e => .error e
    | .ok () => validateItems depth xs

def validateMembers (depth : Nat) : Members → Except CrosedError Unit
  | [] => .ok ()
  | (k, v) :: ms =>
    match validateString depth k with
    | .error e => .error e
    | .ok () =>
      match validatePayload depth v with
      | .error e => .error e
      | .ok () => validateMembers depth ms

end

/-- One character under `ensure_ascii=False`. -/
def escapeUnicode (c : Char) : Text :=
  match shortEscape c with
  | some e => ['\\', e]
  | none => if c.toNat < 0x20 then unicodeEscape c.toNat else [c]

/-- `json.dumps(value, sort_keys=True, separators=(",", ":"), ensure_ascii=False)`. -/
def dumpsUnicode (value : Json) : Text := render escapeUnicode (arrange Python.sortKeys value)

/-- The bytes of the payload that `signed_payload` hashes. -/
def signedJson (payload : Json) : Except CrosedError Bytes :=
  match validatePayload 0 payload with
  | .error e => .error e
  | .ok () => .ok (utf8 (dumpsUnicode payload))

theorem validateItems_iff {d : Nat} {xs : List Json} :
    validateItems d xs = .ok () ↔ ∀ x ∈ xs, validatePayload d x = .ok () := by
  induction xs with
  | nil => simp [validateItems]
  | cons x xs ih =>
    unfold validateItems
    split <;> simp_all

theorem validateMembers_iff {d : Nat} : validateMembers d ms = .ok () ↔
      ∀ m ∈ ms, validateString d m.1 = .ok () ∧ validatePayload d m.2 = .ok () := by
  induction ms with
  | nil => simp [validateMembers]
  | cons m ms ih =>
    unfold validateMembers
    split
    · simp_all
    · split <;> simp_all

theorem validateString_ok {nfc : Text → Text} {d : Nat} {s : Text} (hdep : d ≤ 16) (h : PortableString nfc s) :
    validateString d s = .ok () := by
  have hsafe : ¬ (Char.ofNat 0 ∈ s ∨ 16384 < (utf8 s).length) := by
    rintro (hnul | hlong)
    · exact h.noNul hnul
    · exact absurd h.size (not_le.mpr hlong)
  rw [validateString, if_neg (not_lt.mpr hdep), if_neg hsafe]

theorem validatePayload_ok {nfc : Text → Text} {d : Nat} (h : Admissible nfc 16 d v) :
    validatePayload d v = .ok () := by
  induction h with
  | null hdep | bool hdep => rw [validatePayload, if_neg (not_lt.mpr hdep)]
  | int hdep hn => simp only [validatePayload, if_neg (not_lt.mpr hdep), if_neg (not_lt.mpr hn)]
  | str hdep hs => simp only [validatePayload, if_neg (not_lt.mpr hdep), validateString_ok hdep hs]
  | arr hdep _ ih =>
    simp only [validatePayload, if_neg (not_lt.mpr hdep)]
    exact validateItems_iff.mpr ih
  | obj hdep hnd hkeys hval ih =>
    simp only [validatePayload, if_neg (not_lt.mpr hdep)]
    exact validateMembers_iff.mpr fun m hm => ⟨validateString_ok (hval m hm).depth (hkeys m hm), ih m hm⟩

end Ctl

/-! ## Core-Go -/

namespace Go

/-- The bytes of a string as numbers, by which Go orders strings. -/
def byteCodes (s : Text) : List Nat := (utf8 s).map UInt8.toNat

theorem byteCodes_injective : Function.Injective byteCodes := fun _ _ h =>
  utf8_injective (List.map_injective_iff.mpr (fun _ _ => UInt8.toNat_inj.mp) h)

theorem byteCodes_le_iff {s t : Text} : byteCodes s ≤ byteCodes t ↔ Python.codePoints s ≤ Python.codePoints t := by
  rw [← not_lt, ← not_lt]
  exact not_congr utf8_lt_iff

/-- `sort.Strings(keys)`. -/
def sortStrings : Arrangement where
  order := sortBy byteCodes
  perm := sortBy_perm byteCodes
  canonical := sortBy_canonical byteCodes_injective

/-- One character of a string in `writePortableJSON`. -/
def writeRune (c : Char) : Text :=
  if c = '"' ∨ c = '\\' then ['\\', c]
  else if c.toNat = 0x08 then ['\\', 'b']
  else if c.toNat = 0x0c then ['\\', 'f']
  else if c = '\n' then ['\\', 'n']
  else if c = '\r' then ['\\', 'r']
  else if c = '\t' then ['\\', 't']
  else if c.toNat < 0x20 then unicodeEscape c.toNat
  else [c]

section

variable (nfc : Text → Text)

/-- `writePortableJSON(out, value, depth)` on a string, a value or a key. -/
def writeString (out : Bytes) (depth : Nat) (s : Text) : Except String Bytes :=
  if 16 < depth then .error "Crosed payload nesting exceeds 16 levels"
  else if 16384 < (utf8 s).length ∨ Char.ofNat 0 ∈ s ∨ nfc s ≠ s then .error "invalid Crosed string"
  else .ok (out ++ utf8 ['"'] ++ utf8 (s.flatMap writeRune) ++ utf8 ['"'])

mutual

/-- The walk of `writePortableJSON` over a value whose members are in order: `out` is what the builder holds
    before. -/
def write (out : Bytes) (depth : Nat) (value : Json) : Except String Bytes :=
  if 16 < depth then .error "Crosed payload nesting exceeds 16 levels"
  else match value with
  | .null => .ok (out ++ utf8 ['n', 'u', 'l', 'l'])
  | .bool true => .ok (out ++ utf8 ['t', 'r', 'u', 'e'])
  | .bool false => .ok (out ++ utf8 ['f', 'a', 'l', 's', 'e'])
  | .int n =>
    if n < -9007199254740991 ∨ 9007199254740991 < n then .error "nonportable Crosed integer"
    else .ok (out ++ utf8 (decimal n))
  | .str s => writeString nfc out depth s
  | .arr xs =>
    match writeItems true (out ++ utf8 ['[']) (depth + 1) xs with
    | .error e => .error e
    | .ok out => .ok (out ++ utf8 [']'])
  | .obj ms =>
    match writeMembers true (out ++ utf8 ['\x7b']) (depth + 1) ms with
    | .error e => .error e
    | .ok out => .ok (out ++ utf8 ['\x7d'])
  | .foreign => .error "nonportable Crosed JSON"

/-- The elements of an array; a comma stands before each but the first. -/
def writeItems (first : Bool) (out : Bytes) (depth : Nat) : List Json → Except String Bytes
  | [] => .ok out
  | x :: xs =>
    match write (if first then out else out ++ utf8 [',']) depth x with
    | .error e => .error e
    | .ok out => writeItems false out depth xs

/-- The members of an object: key, colon, value. -/
def writeMembers (first : Bool) (out : Bytes) (depth : Nat) : Members → Except String Bytes
  | [] => .ok out
  | (k, v) :: ms =>
    match writeString nfc (if first then out else out ++ utf8 [',']) depth k with
    | .error e => .error e
    | .ok out =>
      match write (out ++ utf8 [':']) depth v with
      | .error e => .error e
      | .ok out => writeMembers false out depth ms

end

/-- `writePortableJSON(out, value, depth)`. The source sorts the keys of an object when it comes to it; sorting
    all objects beforehand gives the same walk. -/
def writePortableJSON (out : Bytes) (value : Json) (depth : Nat) : Except String Bytes :=
  write nfc out depth (arrange sortStrings value)

end

/-! ### What the walk appends -/

/-- Pieces with a comma before each, or between them. -/
def separated (first : Bool) (pieces : List Text) : Text :=
  if first then commaSep pieces else pieces.flatMap (',' :: ·)

theorem separated_cons (fi : Bool) (p : Text) (ps : List Text) :
    separated fi (p :: ps) = (if fi then [] else [',']) ++ (p ++ separated false ps) := by
  cases fi with
  | false => simp [separated]
  | true =>
    suffices commaSep (p :: ps) = p ++ ps.flatMap (',' :: ·) by simpa [separated] using this
    induction ps generalizing p with
    | nil => simp [commaSep_singleton]
    | cons q qs ih => rw [commaSep_cons_cons, ih, List.flatMap_cons, List.cons_append]

theorem utf8_append (s t : Text) : utf8 (s ++ t) = utf8 s ++ utf8 t := by
  simp [utf8]

section

variable {nfc : Text → Text} {d : Nat}

theorem writeString_ok {s : Text} (hdep : d ≤ 16) (h : PortableString nfc s) (out : Bytes) :
    writeString nfc out d s = .ok (out ++ utf8 (quote writeRune s)) := by
  have hsafe : ¬ (16384 < (utf8 s).length ∨ Char.ofNat 0 ∈ s ∨ nfc s ≠ s) := by
    rintro (hlong | hnul | hnfc)
    · exact absurd h.size (not_le.mpr hlong)
    · exact h.noNul hnul
    · exact hnfc h.normal
  rw [writeString, if_neg (not_lt.mpr hdep), if_neg hsafe]
  congr 1
  simp only [List.append_assoc, ← utf8_append]
  simp [quote]

theorem utf8_sep (fi : Bool) (out : Bytes) :
    (if fi then out else out ++ utf8 [',']) = out ++ utf8 (if fi then [] else [',']) := by
  cases fi <;> simp [utf8]

theorem writeItems_ok {xs : List Json}
    (h : ∀ x ∈ xs, ∀ out, write nfc out d x = .ok (out ++ utf8 (render writeRune x))) (fi : Bool) (out : Bytes) :
    writeItems nfc fi out d xs = .ok (out ++ utf8 (separated fi (renderAll writeRune xs))) := by
  induction xs generalizing fi out with
  | nil => cases fi <;> simp [writeItems, renderAll, separated, commaSep, List.intercalate, utf8]
  | cons x xs ih =>
    rw [writeItems, utf8_sep, h x List.mem_cons_self]
    dsimp only
    rw [ih (fun y hy => h y (List.mem_cons_of_mem _ hy)), renderAll, separated_cons]
    simp only [utf8_append, List.append_assoc]

theorem writeMembers_ok (h : ∀ m ∈ ms, (∀ out, writeString nfc out d m.1 = .ok (out ++ utf8 (quote writeRune m.1))) ∧
      ∀ out, write nfc out d m.2 = .ok (out ++ utf8 (render writeRune m.2))) (fi : Bool) (out : Bytes) :
    writeMembers nfc fi out d ms = .ok (out ++ utf8 (separated fi (renderMembers writeRune ms))) := by
  induction ms generalizing fi out with
  | nil => cases fi <;> simp [writeMembers, renderMembers, separated, commaSep, List.intercalate, utf8]
  | cons m ms ih =>
    obtain ⟨k, v⟩ := m
    obtain ⟨hkey, hvl⟩ := h _ List.mem_cons_self
    rw [writeMembers, utf8_sep, hkey]
    dsimp only
    rw [hvl]
    dsimp only
    have hcolon : utf8 (':' :: render writeRune v) = utf8 [':'] ++ utf8 (render writeRune v) :=
      utf8_append [':'] _
    rw [ih (fun m' hm' => h m' (List.mem_cons_of_mem _ hm')), renderMembers, separated_cons]
    simp only [utf8_append, hcolon, List.append_assoc]

theorem write_ok (h : Admissible nfc 16 d v) (out : Bytes) :
    write nfc out d v = .ok (out ++ utf8 (render writeRune v)) := by
  induction h generalizing out with
  | null hdep =>
    simp only [write, if_neg (not_lt.mpr hdep)]
    rfl
  | @bool _ b hdep =>
    cases b <;>
    · simp only [write, if_neg (not_lt.mpr hdep)]
      rfl
  | @int _ n hdep hn =>
    have hsafe : ¬ (n < -9007199254740991 ∨ 9007199254740991 < n) := by omega
    simp only [write, if_neg (not_lt.mpr hdep), if_neg hsafe]
    rfl
  | str hdep hs => simp only [write, if_neg (not_lt.mpr hdep), writeString_ok hdep hs, render]
  | arr hdep _ ih =>
    simp only [write, if_neg (not_lt.mpr hdep), writeItems_ok (fun x hx => ih x hx)]
    simp only [separated, render, if_true, List.append_assoc, ← utf8_append]
    rfl
  | obj hdep _ hkeys hval ih =>
    have hms := fun m hm => And.intro (writeString_ok (hval m hm).depth (hkeys m hm)) (ih m hm)
    simp only [write, if_neg (not_lt.mpr hdep), writeMembers_ok hms]
    simp only [separated, render, if_true, List.append_assoc, ← utf8_append]
    rfl

end

/-! ### What the walk has checked -/

section

variable {nfc : Text → Text} {d : Nat}

theorem writeString_checked {s : Text} {out out' : Bytes} (h : writeString nfc out d s = .ok out') :
    Char.ofNat 0 ∉ s ∧ nfc s = s := by
  unfold writeString at h
  split_ifs at h with hdep hbad
  simp only [not_or, not_not] at hbad
  exact hbad.2

theorem writeItems_checked {xs : List Json} {fi : Bool} {out out' : Bytes}
    (h : writeItems nfc fi out d xs = .ok out') : ∀ x ∈ xs, ∃ o o', write nfc o d x = .ok o' := by
  induction xs generalizing fi out with
  | nil => simp
  | cons x xs ih =>
    rw [writeItems] at h
    split at h
    · cases h
    rename_i hx
    exact List.forall_mem_cons.mpr ⟨⟨_, _, hx⟩, ih h⟩

theorem writeMembers_checked {fi : Bool} {out out' : Bytes} (h : writeMembers nfc fi out d ms = .ok out') :
    ∀ m ∈ ms, (Char.ofNat 0 ∉ m.1 ∧ nfc m.1 = m.1) ∧ ∃ o o', write nfc o d m.2 = .ok o' := by
  induction ms generalizing fi out with
  | nil => simp
  | cons m ms ih =>
    rw [writeMembers] at h
    split at h
    · cases h
    rename_i hkey
    split at h
    · cases h
    rename_i hvalue
    exact List.forall_mem_cons.mpr ⟨⟨writeString_checked hkey, _, _, hvalue⟩, ih h⟩

/-- What is written is free of NUL and in normal form. -/
theorem normalized_of_write {out out' : Bytes} (h : write nfc out d v = .ok out') : Normalized nfc v := by
  induction v using inductionOn generalizing d out out' with
  | null | bool | int | foreign => simp [Normalized, strings]
  | str s =>
    rw [write] at h
    split_ifs at h
    simpa [Normalized, strings] using writeString_checked h
  | arr xs ih =>
    rw [write] at h
    split_ifs at h
    split at h
    · cases h
    rename_i hitems
    intro s hs
    obtain ⟨x, hx, hs⟩ := mem_stringsAll.mp hs
    obtain ⟨o, o', hwrite⟩ := writeItems_checked hitems x hx
    exact ih x hx hwrite s hs
  | obj ms ih =>
    rw [write] at h
    split_ifs at h
    split at h
    · cases h
    rename_i hmembers
    intro s hs
    obtain ⟨m, hm, hs⟩ := mem_stringsMembers.mp hs
    obtain ⟨hkey, o, o', hwrite⟩ := writeMembers_checked hmembers m hm
    rcases hs with rfl | hs
    · exact hkey
    · exact ih m hm hwrite s hs

theorem normalized_of_writePortableJSON {out out' : Bytes} (h : writePortableJSON nfc out v d = .ok out') :
    Normalized nfc v := fun s hs => normalized_of_write h s (mem_strings_arrange.mpr hs)

end

/-- Go escapes what Python escapes. -/
theorem writeRune_eq (c : Char) : writeRune c = Ctl.escapeUnicode c := by
  have hchar : Char.ofNat c.toNat = c := Char.ofNat_toNat c
  unfold Ctl.escapeUnicode
  split
  · rename_i e hsh
    unfold shortEscape at hsh
    split at hsh <;> cases hsh
    all_goals
      rename_i hn
      rw [← hchar, hn]
      rfl
  rename_i hsh
  obtain ⟨hquo, hsl⟩ := shortEscape_none hsh
  have hshor : ∀ d : Char, shortEscape d ≠ none → c ≠ d := fun d hd hcd => hd (hcd ▸ hsh)
  have hcodes : ∀ n, shortEscape (Char.ofNat n) ≠ none → c.toNat ≠ n := by
    rintro n hn rfl
    exact hn (hchar.symm ▸ hsh)
  unfold writeRune
  rw [if_neg (not_or.mpr ⟨hquo, hsl⟩), if_neg (hcodes _ (by decide)), if_neg (hcodes _ (by decide)),
    if_neg (hshor _ (by decide)), if_neg (hshor _ (by decide)), if_neg (hshor _ (by decide))]

theorem arrange_sortStrings (v : Json) : arrange sortStrings v = arrange Python.sortKeys v := by
  exact arrange_congr (fun ms => sortBy_congr fun _ _ _ _ => byteCodes_le_iff) v

/-- Core-Go writes what the tool signs. -/
theorem writePortableJSON_eq {nfc : Text → Text} (h : Admissible nfc 16 0 v) :
    writePortableJSON nfc [] v 0 = .ok (utf8 (Ctl.dumpsUnicode v)) := by
  have hesc : render writeRune (arrange Python.sortKeys v) = Ctl.dumpsUnicode v :=
    render_congr fun _ _ c _ => writeRune_eq c
  rw [writePortableJSON, arrange_sortStrings, write_ok h.arrange, List.nil_append, hesc]

end Go

end Shadow6.Crosed
