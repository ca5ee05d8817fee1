import Mathlib.Data.List.TakeWhile
import Shadow6.Crosed.Canonical
import Shadow6.Portable.Documents

/-!
# `Crosed.Idris` — strict and canonical JSON in Core-Idris

`parseStrictJSON` and `canonicalJSON` of `Core-Idris/src/Shadow6/StrictJSON.idr`. The canonical form of an object is
made by writing its members out and sorting the written members as strings. A written key is never the start of
another one, so the values do not matter, but the quote that ends a key takes part in the comparison, and so do
escapes. The result is Core-Go's exactly if any two keys of an object are in the same order before and after they
are written (`canonicalJSON_eq_go`); a key that goes on with `!` comes before the key it starts with
(`exclaimed_keys_differ`).
-/

namespace Shadow6.Crosed

open Library Json Portable List Python

namespace Idris

/-! ## `parseStrictJSON` -/

/-- `escaped`: what follows a backslash. -/
def escaped : Text → Option (Char × Text)
  | 'u' :: rest => readUnicode rest
  | c :: rest => (unescapeShort c).map fun d => (d, rest)
  | [] => none

/-- `stringBody`: the opening quote is read. Every character of a `Text` is a scalar. -/
def stringBody : Nat → Text → Text → Except String (Text × Text)
  | 0, _, _ => .error "JSON string exceeds 4096 characters"
  | _ + 1, _, [] => .error "Unterminated JSON string"
  | fuel + 1, acc, c :: rest =>
    if c = '"' then .ok (acc.reverse, rest)
    else if c = '\\' then
      match escaped rest with
      | some (d, tail) => stringBody fuel (d :: acc) tail
      | none => .error "Invalid JSON escape"
    else if c.toNat < 32 then .error "Invalid JSON character"
    else stringBody fuel (c :: acc) rest

/-- The value of decimal digits. -/
def digitsValue (digits : Text) : Int := digits.foldl (fun n c => n * 10 + (c.toNat - 48 : Int)) 0

/-- `number`, after the sign. -/
def unsigned (negative : Bool) (input : Text) : Except String (Json × Text) :=
  let digits := input.takeWhile Char.isDigit
  if digits = [] ∨ 16 < digits.length ∨ (1 < digits.length ∧ digits.head? = some '0') then
    .error "Invalid JSON integer"
  else if 9007199254740991 < digitsValue digits then .error "JSON integer exceeds portable range"
  else .ok (.int (if negative then -digitsValue digits else digitsValue digits), input.dropWhile Char.isDigit)

/-- `number`. -/
def number : Text → Except String (Json × Text)
  | '-' :: rest => unsigned true rest
  | input => unsigned false input

mutual

/-- `value fuel depth input`; `depth` counts the levels that may still be opened. -/
def value : Nat → Nat → Text → Except String (Json × Text)
  | 0, _, _ => .error "JSON parsing budget exceeded"
  | _ + 1, 0, _ => .error "JSON nesting exceeds 16"
  | fuel + 1, depth + 1, input =>
    match skipSpace input with
    | 'n' :: 'u' :: 'l' :: 'l' :: rest => .ok (.null, rest)
    | 't' :: 'r' :: 'u' :: 'e' :: rest => .ok (.bool true, rest)
    | 'f' :: 'a' :: 'l' :: 's' :: 'e' :: rest => .ok (.bool false, rest)
    | '"' :: rest => (stringBody 4097 [] rest).map fun p => (.str p.1, p.2)
    | '[' :: rest =>
      match skipSpace rest with
      | ']' :: tail => .ok (.arr [], tail)
      | other => array fuel depth [] other
    | '\x7b' :: rest =>
      match skipSpace rest with
      | '\x7d' :: tail => .ok (.obj [], tail)
      | other => object fuel depth [] other
    | other => number other

/-- `array fuel depth acc input`; `acc` holds the elements read, the last one first. -/
def array : Nat → Nat → List Json → Text → Except String (Json × Text)
  | 0, _, _, _ => .error "JSON parsing budget exceeded"
  | fuel + 1, depth, acc, input =>
    if 1024 ≤ acc.length then .error "JSON array exceeds 1024 elements"
    else match value fuel depth input with
    | .error e => .error e
    | .ok (item, rest) =>
      match skipSpace rest with
      | ']' :: tail => .ok (.arr (item :: acc).reverse, tail)
      | ',' :: tail => array fuel depth (item :: acc) tail
      | _ => .error "Expected array separator"

/-- `object fuel depth acc input`. -/
def object : Nat → Nat → Members → Text → Except String (Json × Text)
  | 0, _, _, _ => .error "JSON parsing budget exceeded"
  | fuel + 1, depth, acc, input =>
    if 64 ≤ acc.length then .error "JSON object exceeds 64 fields"
    else match skipSpace input with
    | '"' :: tail =>
      match stringBody 4097 [] tail with
      | .error e => .error e
      | .ok (key, afterKey) =>
        if key ∈ acc.map Prod.fst then .error "Duplicate JSON field"
        else match skipSpace afterKey with
        | ':' :: afterColon =>
          match value fuel depth afterColon with
          | .error e => .error e
          | .ok (item, rest) =>
            match skipSpace rest with
            | '\x7d' :: tail => .ok (.obj ((key, item) :: acc).reverse, tail)
            | ',' :: tail => object fuel depth ((key, item) :: acc) tail
            | _ => .error "Expected object separator"
        | _ => .error "Expected colon"
    | _ => .error "Expected object key"

end

/-- `parseStrictJSON text`. -/
def parseStrictJSON (text : Text) : Except String Json :=
  if 65536 < text.length then .error "JSON document too large"
  else match value 65536 17 text with
  | .error e => .error e
  | .ok (result, rest) =>
    if skipSpace rest = [] then .ok result else .error "Trailing JSON input or unsupported numeric syntax"

/-! ## `canonicalJSON` -/

/-- `hexDigitOut`. -/
def hexDigitOut (n : Nat) : Char := if n < 10 then Char.ofNat (48 + n) else Char.ofNat (97 + (n - 10))

/-- `escapeChar`. -/
def escapeChar (c : Char) : Text :=
  if c = '"' then ['\\', '"']
  else if c = '\\' then ['\\', '\\']
  else if c.toNat = 8 then ['\\', 'b']
  else if c.toNat = 12 then ['\\', 'f']
  else if c = '\n' then ['\\', 'n']
  else if c = '\r' then ['\\', 'r']
  else if c = '\t' then ['\\', 't']
  else if c.toNat < 32 then ['\\', 'u', '0', '0', hexDigitOut (c.toNat / 16), hexDigitOut (c.toNat % 16)]
  else [c]

/-- `"\"" ++ escape s ++ "\""`. -/
def quoted (s : Text) : Text := '"' :: s.flatMap escapeChar ++ ['"']

/-- `y <= z` on strings: by code points. -/
def stringLe (y z : Text) : Bool := decide (codePoints y ≤ codePoints z)

/-- `insertString`. -/
def insertString (y : Text) : List Text → List Text
  | [] => [y]
  | z :: zs => if stringLe y z then y :: z :: zs else z :: insertString y zs

/-- `sortStringsJSON`. -/
def sortStringsJSON : List Text → List Text
  | [] => []
  | x :: xs => insertString x (sortStringsJSON xs)

mutual

/-- `canonicalJSON`. -/
def canonicalJSON : Json → Text
  | .null => ['n', 'u', 'l', 'l']
  | .bool true => ['t', 'r', 'u', 'e']
  | .bool false => ['f', 'a', 'l', 's', 'e']
  | .int n => decimal n
  | .str s => quoted s
  | .arr xs => '[' :: (commaSep (canonicalArray xs) ++ [']'])
  | .obj fields => '\x7b' :: (commaSep (sortStringsJSON (canonicalObject fields)) ++ ['\x7d'])
  | .foreign => []

def canonicalArray : List Json → List Text
  | [] => []
  | x :: xs => canonicalJSON x :: canonicalArray xs

def canonicalObject : Members → List Text
  | [] => []
  | (k, v) :: xs => (quoted k ++ ':' :: canonicalJSON v) :: canonicalObject xs

end

/-! ## What the parser accepts -/

theorem stringBody_length {fuel : Nat} {acc input s rest : Text} (h : stringBody fuel acc input = .ok (s, rest)) :
    s.length < acc.length + fuel := by
  induction fuel generalizing acc input with
  | zero => cases input <;> cases h
  | succ fuel ih =>
    cases input with
    | nil => cases h
    | cons c input =>
      rw [stringBody] at h
      split_ifs at h
      · cases h
        rw [length_reverse]
        omega
      · split at h
        · have := ih h
          rw [length_cons] at this
          omega
        · cases h
      have := ih h
      rw [length_cons] at this
      omega

theorem utf8_length_le (s : Text) : (utf8 s).length ≤ 4 * s.length := by
  induction s with
  | nil => rfl
  | cons c s ih =>
    have hc : (String.utf8EncodeChar c).length ≤ 4 := by
      have hlen : (utf8Code c).length ≤ 4 := by
        rw [utf8Code_eq]
        split_ifs <;> simp
      rwa [utf8Code, length_map] at hlen
    have hcons : utf8 (c :: s) = String.utf8EncodeChar c ++ utf8 s := rfl
    rw [hcons, length_append, length_cons]
    omega

variable {nfc : Text → Text}

/-- A string of a document that has no NUL and is in normal form is portable. -/
theorem portable_of_stringBody {input s rest : Text} (h : stringBody 4097 [] input = .ok (s, rest))
    (hs : Char.ofNat 0 ∉ s ∧ nfc s = s) : PortableString nfc s where
  size := by
    have hlen := stringBody_length h
    have hby := utf8_length_le s
    simp only [length_nil] at hlen
    omega
  noNul := hs.1
  normal := hs.2

variable {input rest : Text} {v : Json} {fuel depth : Nat}

theorem unsigned_safe {ng : Bool} (h : unsigned ng input = .ok (v, rest)) :
    ∃ n : Int, v = .int n ∧ n.natAbs ≤ 9007199254740991 := by
  have hnn : ∀ (ds : Text), (∀ c ∈ ds, c.isDigit = true) → ∀ acc : Int, 0 ≤ acc →
      0 ≤ ds.foldl (fun n c => n * 10 + (c.toNat - 48 : Int)) acc := by
    intro ds
    induction ds with
    | nil => exact fun _ acc hacc => hacc
    | cons c ds ih =>
      intro hd acc hacc
      have hc : 48 ≤ c.toNat := by
        have := hd c mem_cons_self
        simp only [Char.isDigit, Bool.and_eq_true, decide_eq_true_eq] at this
        exact this.1
      have hnx : 0 ≤ acc * 10 + (c.toNat - 48 : Int) := by omega
      exact ih (fun d hd' => hd d (mem_cons_of_mem _ hd')) _ hnx
  have hpos : 0 ≤ digitsValue (input.takeWhile Char.isDigit) :=
    hnn _ (fun c hc => mem_takeWhile_imp hc) 0 le_rfl
  unfold unsigned at h
  dsimp only at h
  split_ifs at h with h₁ h₂ h₃
  · cases h
    exact ⟨_, rfl, by omega⟩
  · cases h
    exact ⟨_, rfl, by omega⟩

theorem number_safe (h : number input = .ok (v, rest)) : ∃ n : Int, v = .int n ∧ n.natAbs ≤ 9007199254740991 := by
  unfold number at h
  split at h <;> exact unsigned_safe h

/-- The value was read by `value` with less fuel than `fuel`. -/
def Read (fuel depth : Nat) (v : Json) : Prop := ∃ f < fuel, ∃ input rest, value f depth input = .ok (v, rest)

theorem Read.mono {fuel fuel' depth : Nat} (h : Read fuel depth v) (hle : fuel ≤ fuel') : Read fuel' depth v := by
  obtain ⟨f, hf, hrd⟩ := h
  exact ⟨f, lt_of_lt_of_le hf hle, hrd⟩

/-- What `array` returns: the elements so far and elements read with less fuel. -/
theorem array_ok {acc : List Json} (h : array fuel depth acc input = .ok (v, rest)) :
    ∃ xs, v = .arr xs ∧ ∀ x ∈ xs, x ∈ acc ∨ Read fuel depth x := by
  induction fuel generalizing acc input with
  | zero => rw [array] at h; cases h
  | succ fuel ih =>
    rw [array] at h
    split_ifs at h
    split at h
    · cases h
    rename_i item rest' hit
    have hrd : Read (fuel + 1) depth item := ⟨fuel, Nat.lt_succ_self _, input, rest', hit⟩
    have hone : ∀ x ∈ item :: acc, x ∈ acc ∨ Read (fuel + 1) depth x :=
      forall_mem_cons.mpr ⟨.inr hrd, fun _ => .inl⟩
    split at h
    · cases h
      exact ⟨_, rfl, fun x hx => hone x (mem_reverse.mp hx)⟩
    · obtain ⟨xs, rfl, hxs⟩ := ih h
      refine ⟨xs, rfl, fun x hx => ?_⟩
      rcases hxs x hx with hacc | hlat
      · exact hone x hacc
      · exact .inr (hlat.mono (Nat.le_succ _))
    · cases h

/-- A member read by `object` with less fuel than `fuel`. -/
def ReadMember (fuel depth : Nat) (m : Text × Json) : Prop :=
  (∃ input rest, stringBody 4097 [] input = .ok (m.1, rest)) ∧ Read fuel depth m.2

/-- What `object` returns: the members so far and members read with less fuel, under distinct keys. -/
theorem object_ok {acc : Members} (hacc : (acc.map Prod.fst).Nodup) (h : object fuel depth acc input = .ok (v, rest)) :
    ∃ ms, v = .obj ms ∧ (ms.map Prod.fst).Nodup ∧ ∀ m ∈ ms, m ∈ acc ∨ ReadMember fuel depth m := by
  induction fuel generalizing acc input with
  | zero => rw [object] at h; cases h
  | succ fuel ih =>
    rw [object] at h
    split_ifs at h
    split at h
    · rename_i tail _
      split at h
      · cases h
      rename_i key ak hkey
      split_ifs at h with hnew
      split at h
      · rename_i ac _
        split at h
        · cases h
        rename_i item rest' hit
        have hrd : ReadMember (fuel + 1) depth (key, item) :=
          ⟨⟨tail, ak, hkey⟩, fuel, Nat.lt_succ_self _, ac, rest', hit⟩
        have hnd : (((key, item) :: acc).map Prod.fst).Nodup := nodup_cons.mpr ⟨hnew, hacc⟩
        have hone : ∀ m ∈ (key, item) :: acc, m ∈ acc ∨ ReadMember (fuel + 1) depth m :=
          forall_mem_cons.mpr ⟨.inr hrd, fun _ => .inl⟩
        split at h
        · cases h
          refine ⟨_, rfl, ?_, fun m hm => hone m (mem_reverse.mp hm)⟩
          rw [map_reverse, nodup_reverse]
          exact hnd
        · obtain ⟨ms, rfl, hms, hmem⟩ := ih hnd h
          refine ⟨ms, rfl, hms, fun m hm => ?_⟩
          rcases hmem m hm with hacc' | ⟨hkey', hlat⟩
          · exact hone m hacc'
          · exact .inr ⟨hkey', hlat.mono (Nat.le_succ _)⟩
        · cases h
      · cases h
    · cases h

/-- A value read with `depth` levels left, its strings free of NUL and in normal form, is portable at the level
    it stands at. -/
theorem value_admissible (hdep : depth ≤ 17) (h : value fuel depth input = .ok (v, rest)) (hv : Normalized nfc v)
    : Admissible nfc 16 (17 - depth) v := by
  induction fuel using Nat.strong_induction_on generalizing depth input rest v with
  | _ fuel ih =>
    match fuel, depth with
    | 0, _ => rw [value] at h; cases h
    | fuel + 1, 0 => rw [value] at h; cases h
    | fuel + 1, depth + 1 =>
      have hlev : 17 - (depth + 1) ≤ 16 := by omega
      have hnx : 17 - (depth + 1) + 1 = 17 - depth := by omega
      have hchild : ∀ w, Read fuel depth w → Normalized nfc w → Admissible nfc 16 (17 - (depth + 1) + 1) w := by
        rintro w ⟨f, hf, input', rest', hrd⟩ hw
        rw [hnx]
        exact ih f (by omega) (by omega) hrd hw
      have harr : ∀ {acc t}, acc = [] → array fuel depth acc t = .ok (v, rest) →
          Admissible nfc 16 (17 - (depth + 1)) v := by
        rintro - t rfl hrec
        obtain ⟨xs, rfl, hxs⟩ := array_ok hrec
        refine .arr hlev fun x hx => hchild x ((hxs x hx).resolve_left not_mem_nil) ?_
        exact fun s hs => hv s (mem_stringsAll.mpr ⟨x, hx, hs⟩)
      have hobj : ∀ {acc t}, acc = [] → object fuel depth acc t = .ok (v, rest) →
          Admissible nfc 16 (17 - (depth + 1)) v := by
        rintro - t rfl hrec
        have hnil : (([] : Members).map Prod.fst).Nodup := nodup_nil
        obtain ⟨ms, rfl, hnd, hms⟩ := object_ok hnil hrec
        have hrd := fun m hm => (hms m hm).resolve_left not_mem_nil
        refine .obj hlev hnd (fun m hm => ?_) fun m hm => hchild m.2 (hrd m hm).2 ?_
        · obtain ⟨input', rest', hkey⟩ := (hrd m hm).1
          exact portable_of_stringBody hkey (hv _ (mem_stringsMembers.mpr ⟨m, hm, .inl rfl⟩))
        · exact fun s hs => hv s (mem_stringsMembers.mpr ⟨m, hm, .inr hs⟩)
      rw [value] at h
      split at h
      · cases h; exact .null hlev
      · cases h; exact .bool hlev
      · cases h; exact .bool hlev
      · rename_i rest' _
        cases hbody : stringBody 4097 [] rest' with
        | error e => rw [hbody] at h; cases h
        | ok p =>
          rw [hbody] at h
          cases h
          exact .str hlev (portable_of_stringBody hbody (hv _ (by simp [strings])))
      · split at h
        · cases h; exact .arr hlev (by simp)
        · exact harr rfl h
      · split at h
        · cases h; exact .obj hlev (by simp) (by simp) (by simp)
        · exact hobj rfl h
      · obtain ⟨n, rfl, hn⟩ := number_safe h
        exact .int hlev hn

/-- An accepted document whose strings are free of NUL and in normal form is portable. -/
theorem parseStrictJSON_admissible {t : Text} (h : parseStrictJSON t = .ok v) (hv : Normalized nfc v) :
    Admissible nfc 16 0 v := by
  unfold parseStrictJSON at h
  split_ifs at h
  split at h
  · cases h
  rename_i hvl
  split_ifs at h
  cases h
  exact value_admissible le_rfl hvl hv

/-! ## The order of written members -/

/-- Core-Idris escapes what the others escape. -/
theorem escapeChar_eq (c : Char) : escapeChar c = Ctl.escapeUnicode c := by
  have hhex : ∀ n, n < 32 → ['0', '0', hexDigitOut (n / 16), hexDigitOut (n % 16)] = hex4 n := by decide
  rw [← Go.writeRune_eq]
  unfold escapeChar Go.writeRune unicodeEscape
  by_cases hquo : c = '"'
  · rw [hquo]; rfl
  by_cases hsl : c = '\\'
  · rw [hsl]; rfl
  rw [if_neg hquo, if_neg hsl, if_neg (not_or.mpr ⟨hquo, hsl⟩)]
  by_cases hctl : c.toNat < 32
  · rw [if_pos hctl, if_pos hctl, ← hhex _ hctl]
  · rw [if_neg hctl, if_neg hctl]

theorem quoted_eq (s : Text) : quoted s = quote Ctl.escapeUnicode s :=
  quote_congr fun c _ => escapeChar_eq c

theorem insertString_eq (y : Text) (zs : List Text) :
    insertString y zs = zs.orderedInsert (fun a b => stringLe a b = true) y := by
  induction zs with
  | nil => rfl
  | cons z zs ih => rw [insertString, orderedInsert_cons, ih]

theorem sortStringsJSON_eq (xs : List Text) : sortStringsJSON xs = xs.insertionSort fun a b => stringLe a b = true := by
  induction xs with
  | nil => rfl
  | cons x xs ih => rw [sortStringsJSON, insertString_eq, ih, insertionSort_cons]

theorem escapeChar_escapes : Escapes escapeChar := by
  rw [show escapeChar = Node.escape from funext escapeChar_eq]
  exact Node.escape_escapes

/-- A written key ends where it ends: no other one starts with it. -/
theorem quoted_append_inj {k k' : Text} (t t' : Text) (h : quoted k ++ t = quoted k' ++ t') : k = k' := by
  have hread := escapeChar_escapes.scanString_quote k t
  rw [show quoted k ++ t = _ from quote_append k t, show quoted k' ++ t' = _ from quote_append k' t'] at h
  rw [(cons.inj h).2, escapeChar_escapes.scanString_quote] at hread
  exact (Prod.ext_iff.mp (Option.some.inj hread)).1.symm

/-- A key as it is compared: written, by code points. -/
def written (k : Text) : List Nat := codePoints (quoted k)

theorem written_injective : Function.Injective written := by
  intro k k' h
  have heq := codePoints_injective h
  exact quoted_append_inj [] [] (by rw [heq])

/-- Written members are in the order of their written keys. -/
theorem member_lt_iff {k k' : Text} (hne : k ≠ k') (t t' : Text) :
    codePoints (quoted k ++ t) < codePoints (quoted k' ++ t') ↔ written k < written k' := by
  have happend : ∀ u r : Text, codePoints (quoted u ++ r) = written u ++ codePoints r := fun _ _ => map_append
  rw [happend, happend]
  refine append_lt_append_iff (fun s s' heq => ?_) _ _
  -- the shorter of the two would be the start of the other
  rcases append_eq_append_iff.mp heq with ⟨r, hr, -⟩ | ⟨r, hr, -⟩
  · obtain ⟨u, w, huw, hu, -⟩ := map_eq_append_iff.mp hr
    have hkey : u = quoted k := codePoints_injective hu
    exact hne (quoted_append_inj w [] (by rw [← hkey, ← huw, append_nil]))
  · obtain ⟨u, w, huw, hu, -⟩ := map_eq_append_iff.mp hr
    have hkey : u = quoted k' := codePoints_injective hu
    exact hne (quoted_append_inj [] w (by rw [← hkey, ← huw, append_nil]))

/-- The member order of Core-Idris. -/
def sortWritten : Arrangement where
  order := sortBy written
  perm := sortBy_perm written
  canonical := sortBy_canonical written_injective

/-- Sorting the written members is writing the sorted members. -/
theorem sortStringsJSON_members {ms : Members} (hnd : (ms.map Prod.fst).Nodup) (t : Json → Text) :
    sortStringsJSON (ms.map fun m => quoted m.1 ++ t m.2) = (sortBy written ms).map fun m => quoted m.1 ++ t m.2 := by
  rw [sortStringsJSON_eq]
  refine (map_insertionSort (fun a b : Text × Json => written a.1 ≤ written b.1) _ _ ms
    fun a ha b hb => ?_).symm
  rw [stringLe, decide_eq_true_iff]
  by_cases heq : a = b
  · rw [heq]
    exact iff_of_true le_rfl le_rfl
  · have hne : b.1 ≠ a.1 := fun hkey => heq (inj_on_of_nodup_map hnd ha hb hkey.symm)
    rw [← not_lt, ← not_lt, member_lt_iff hne]

theorem canonicalArray_eq_map (xs : List Json) : canonicalArray xs = xs.map canonicalJSON := by
  induction xs with
  | nil => rfl
  | cons x xs ih => rw [canonicalArray, ih, map_cons]

theorem canonicalObject_eq_map (ms : Members) :
    canonicalObject ms = ms.map fun m => quoted m.1 ++ ':' :: canonicalJSON m.2 := by
  induction ms with
  | nil => rfl
  | cons m ms ih => rw [canonicalObject, ih, map_cons]

/-- `canonicalJSON` writes the members in the order of their written keys. -/
theorem canonicalJSON_eq (hdis : DistinctKeys v) :
    canonicalJSON v = render Ctl.escapeUnicode (arrange sortWritten v) := by
  induction v using inductionOn with
  | null | int | foreign => simp [canonicalJSON, arrange, render]
  | bool b => cases b <;> rfl
  | str s => rw [canonicalJSON, quoted_eq, arrange, render]
  | arr xs ih =>
    have hxs : xs.map canonicalJSON = xs.map (render Ctl.escapeUnicode ∘ arrange sortWritten) :=
      map_congr_left fun x hx => ih x hx (hdis.arr x hx)
    rw [canonicalJSON, canonicalArray_eq_map, hxs, arrange, render, renderAll_eq_map, arrangeAll_eq_map, map_map]
  | obj ms ih =>
    have hmemb : (sortBy written ms).map (fun m => quoted m.1 ++ ':' :: canonicalJSON m.2)
        = renderMembers Ctl.escapeUnicode (sortBy written (arrangeMembers sortWritten ms)) := by
      rw [renderMembers_eq_map, arrangeMembers_eq_map, sortBy_mapValues, map_map]
      refine map_congr_left fun m hm => ?_
      have hm' := (sortBy_perm _ ms).mem_iff.mp hm
      rw [quoted_eq, ih m hm' (hdis.obj.2 m hm')]
      rfl
    rw [canonicalJSON, canonicalObject_eq_map,
      sortStringsJSON_members hdis.obj.1 (fun v => ':' :: canonicalJSON v), hmemb, arrange, render]
    rfl

/-! ## Agreement with Core-Go -/

/-- Any two of the keys are in the same order before and after they are written. -/
def KeepOrder (ks : List Text) : Prop := ∀ k ∈ ks, ∀ k' ∈ ks, codePoints k < codePoints k' → written k < written k'

/-- **In every object the keys keep their order.** -/
def OrderedKeys (v : Json) : Prop := ∀ ks ∈ keyLists v, KeepOrder ks

/-- The members are in the order of their keys by code point exactly if the keys keep their order. -/
theorem canonicalJSON_sorted_iff (h : Proper v) : canonicalJSON v = Ctl.dumpsUnicode v ↔ OrderedKeys v := by
  have hsort : ∀ ms : Members, (ms.map Prod.fst).Nodup → True →
      (sortKeys.order ms = sortWritten.order ms ↔ KeepOrder (ms.map Prod.fst)) :=
    fun ms hnd _ => sortBy_eq_iff codePoints_injective written_injective hnd
  have htree := arrange_eq_iff (fun _ => True) hsort fun ks hks => ⟨h.distinct ks hks, trivial⟩
  have hread := Proper.readable_dialect h
  rw [canonicalJSON_eq h.distinct, Ctl.dumpsUnicode, OrderedKeys, ← htree]
  constructor
  · intro heq
    exact (render_injective Node.escape_escapes hread.arrange hread.arrange heq).symm
  · intro heq
    rw [heq]

/-- **Canonical agreement with Core-Go.** Core-Go writes the canonical form of an accepted document exactly if the
    strings have no NUL and are in normal form, without which it writes nothing, and the keys keep their order; and
    then this is the form with the members in the order of their keys by code point. -/
theorem canonicalJSON_eq_go {nfc : Text → Text} {text : Text} {v : Json} (hparse : parseStrictJSON text = .ok v) :
    (Go.writePortableJSON nfc [] v 0 = .ok (utf8 (canonicalJSON v)) ↔ Normalized nfc v ∧ OrderedKeys v) ∧
    (Normalized nfc v → (canonicalJSON v = render Go.writeRune (arrange sortKeys v) ↔ OrderedKeys v)) := by
  have hrunes : render Go.writeRune (arrange sortKeys v) = Ctl.dumpsUnicode v :=
    render_congr fun _ _ c _ => Go.writeRune_eq c
  have hsorted : Normalized nfc v → (canonicalJSON v = Ctl.dumpsUnicode v ↔ OrderedKeys v) :=
    fun hnormal => canonicalJSON_sorted_iff (parseStrictJSON_admissible hparse hnormal).proper
  have hgo := fun hnormal : Normalized nfc v => Go.writePortableJSON_eq (parseStrictJSON_admissible hparse hnormal)
  rw [hrunes]
  refine ⟨⟨fun h => ?_, fun ⟨hnormal, hkeys⟩ => ?_⟩, hsorted⟩
  · have hnormal := Go.normalized_of_writePortableJSON h
    rw [hgo hnormal] at h
    exact ⟨hnormal, (hsorted hnormal).mp (utf8_injective (Except.ok.inj h)).symm⟩
  · rw [hgo hnormal, (hsorted hnormal).mpr hkeys]

/-- The text of an object with the keys `z` and `a b`. -/
def spacedDocument : Text := ['\x7b', '"', 'z', '"', ':', '1', ',', '"', 'a', ' ', 'b', '"', ':', '2', '\x7d']

def spacedValue : Json := .obj [(['z'], .int 1), (['a', ' ', 'b'], .int 2)]

theorem canonicalJSON_eq_go_spaced : parseStrictJSON spacedDocument = .ok spacedValue ∧
    Go.writePortableJSON id [] spacedValue 0 = .ok (utf8 (canonicalJSON spacedValue)) := by
  have hparse : parseStrictJSON spacedDocument = .ok spacedValue := rfl
  have hnormal : Normalized id spacedValue := by simp [Normalized, spacedValue, strings, stringsMembers]
  have hkeys : OrderedKeys spacedValue := by
    unfold OrderedKeys KeepOrder
    decide +kernel
  exact ⟨hparse, (canonicalJSON_eq_go hparse).1.mpr ⟨hnormal, hkeys⟩⟩

/-- The text of an object with the keys `a` and `a!`. -/
def exclaimedDocument : Text :=
  ['\x7b', '"', 'a', '"', ':', '1', ',', '"', 'a', '!', '"', ':', '2', '\x7d']

def exclaimedValue : Json := .obj [(['a'], .int 1), (['a', '!'], .int 2)]

/-- The exclamation mark comes before the quote: the longer key is written first, while Core-Go writes the
    members in the order of the keys. -/
theorem exclaimed_keys_differ : parseStrictJSON exclaimedDocument = .ok exclaimedValue ∧
    canonicalJSON exclaimedValue = render escapeChar (.obj [(['a', '!'], .int 2), (['a'], .int 1)]) ∧
    Go.writePortableJSON id [] exclaimedValue 0 = .ok (utf8 (render escapeChar exclaimedValue)) ∧
    Go.writePortableJSON id [] exclaimedValue 0 ≠ .ok (utf8 (canonicalJSON exclaimedValue)) :=
  ⟨rfl, rfl, rfl, by decide +kernel⟩

end Idris

end Shadow6.Crosed
