import Shadow6.Library.Json

/-!
# `Library.JsonRoundTrip` — reading back what was rendered

`parseDocument D (render escape v) = some v` for every value that the host's rules admit (`Readable`), and
every way of escaping characters that the string scanner undoes (`Escapes`). In particular rendering is
injective on such values (`render_injective`).
-/

namespace Library

open Option

open List

namespace Json

/-! ## Bytes -/

theorem utf8Decode_utf8 (t : Text) : utf8Decode (utf8 t) = some t := by
  have h : (utf8 t).toByteArray.utf8Decode? = some t.toArray := utf8Decode?_utf8Encode
  rw [utf8Decode, h, map_some]

theorem utf8_injective : Function.Injective utf8 := by
  intro s t h
  have hs := utf8Decode_utf8 s
  rw [h, utf8Decode_utf8] at hs
  exact (some.inj hs).symm

/-! ## Strings -/

/-- The scanner undoes the escapes of `escape`, one character at a time. -/
structure Escapes (escape : Char → Text) : Prop where
  closing : ∀ c rest, closingQuote (escape c ++ rest)
    = (closingQuote rest).map fun p => (escape c ++ p.1, p.2)
  unescape : ∀ c fuel rest, unescape (fuel + 1) (escape c ++ rest) = (unescape fuel rest).map (c :: ·)

section

variable {esc : Char → Text}

theorem Escapes.ne_nil (h : Escapes esc) (c : Char) : esc c ≠ [] := by
  intro hnil
  have hone := h.unescape c 0 []
  rw [hnil] at hone
  simp [Json.unescape] at hone

theorem Escapes.closingQuote_body (h : Escapes esc) (s r : Text) :
    closingQuote (s.flatMap esc ++ '"' :: r) = some (s.flatMap esc, r) := by
  induction s with
  | nil => simp [closingQuote]
  | cons c s ih => simp [h.closing, ih]

theorem Escapes.unescape_body (h : Escapes esc) (s : Text) {fuel : Nat} (hfuel : s.length ≤ fuel) :
    Json.unescape fuel (s.flatMap esc) = some s := by
  induction s generalizing fuel with
  | nil => cases fuel <;> rfl
  | cons c s ih =>
    obtain ⟨fuel, rfl⟩ : ∃ n, fuel = n + 1 := ⟨fuel - 1, by simp at hfuel; omega⟩
    rw [flatMap_cons, h.unescape, ih (by simpa using hfuel), Option.map_some]

theorem Escapes.length_body (h : Escapes esc) (s : Text) : s.length ≤ (s.flatMap esc).length := by
  induction s with
  | nil => simp
  | cons c s ih =>
    have hpos : 0 < (esc c).length := length_pos_iff.mpr (h.ne_nil c)
    rw [flatMap_cons, length_append, length_cons]
    omega

/-- A quoted string is read back (the opening quote already read). -/
theorem Escapes.scanString_quote (h : Escapes esc) (s r : Text) :
    scanString (s.flatMap esc ++ '"' :: r) = some (s, r) := by
  simp only [scanString, h.closingQuote_body, bind_eq_bind, bind_some, h.unescape_body s (h.length_body s)]

end

/-! ## Escapes of single characters -/

variable {c : Char}

theorem closingQuote_char (hquo : c ≠ '"') (hsl : c ≠ '\\') (r : Text) :
    closingQuote (c :: r) = (closingQuote r).map fun p => (c :: p.1, p.2) := by
  rw [closingQuote.eq_def]
  split <;> simp_all

theorem unescape_char (hsl : c ≠ '\\') (hctl : 0x20 ≤ c.toNat) (fuel : Nat) (r : Text) :
    Json.unescape (fuel + 1) (c :: r) = (Json.unescape fuel r).map (c :: ·) := by
  rw [Json.unescape.eq_def]
  split <;> simp_all

variable {n : Nat}

theorem hexDigit_digitChar (h : n < 16) : hexDigit (Nat.digitChar n) = some n := by
  interval_cases n <;> rfl

theorem readHex4_hex4 (h : n < 0x10000) (r : Text) : readHex4 (hex4 n ++ r) = some (n, r) := by
  have hd : ∀ m, hexDigit (Nat.digitChar (m % 16)) = some (m % 16) := fun m =>
    hexDigit_digitChar (Nat.mod_lt _ (by decide))
  simp [hex4, readHex4, hd]
  omega

theorem hex4_ne : ∀ c ∈ hex4 n, c ≠ '"' ∧ c ≠ '\\' := by
  have hd : ∀ m, m < 16 → Nat.digitChar m ≠ '"' ∧ Nat.digitChar m ≠ '\\' := by decide
  intro c hc
  simp only [hex4, map_cons, map_nil, mem_cons, not_mem_nil, or_false] at hc
  rcases hc with rfl | rfl | rfl | rfl <;> exact hd _ (Nat.mod_lt _ (by decide))

theorem closingQuote_escape (c : Char) (r : Text) :
    closingQuote ('\\' :: c :: r) = (closingQuote r).map fun p => ('\\' :: c :: p.1, p.2) := by
  simp only [closingQuote]

theorem closingQuote_unicodeEscape (n : Nat) (r : Text) : closingQuote (unicodeEscape n ++ r)
      = (closingQuote r).map fun p => (unicodeEscape n ++ p.1, p.2) := by
  have hpl : ∀ (l : Text), (∀ c ∈ l, c ≠ '"' ∧ c ≠ '\\') → ∀ r,
      closingQuote (l ++ r) = (closingQuote r).map fun p => (l ++ p.1, p.2) := by
    intro l
    induction l with
    | nil => intro _ r; simp
    | cons c l ih =>
      intro hl r
      have hc := hl c mem_cons_self
      rw [cons_append, closingQuote_char hc.1 hc.2, ih (fun d hd => hl d (mem_cons_of_mem c hd))]
      cases closingQuote r <;> rfl
  show closingQuote ('\\' :: 'u' :: (hex4 n ++ r)) = _
  rw [closingQuote_escape, hpl _ hex4_ne]
  cases closingQuote r <;> rfl

theorem unescape_unicode (fuel : Nat) {t r : Text} (h : readUnicode t = some (c, r)) :
    Json.unescape (fuel + 1) ('\\' :: 'u' :: t) = (Json.unescape fuel r).map (c :: ·) := by
  simp only [Json.unescape, h, bind_eq_bind, bind_some]
  cases Json.unescape fuel r <;> rfl

theorem toNat_scalar (c : Char) : c.toNat < 0xd800 ∨ (0xdfff < c.toNat ∧ c.toNat < 0x110000) := c.valid

theorem readUnicode_basic (h : c.toNat < 0x10000) (r : Text) : readUnicode (hex4 c.toNat ++ r) = some (c, r) := by
  have hval := toNat_scalar c
  simp only [readUnicode, readHex4_hex4 h, bind_eq_bind, bind_some]
  rw [if_neg (by omega), if_neg (by omega), Char.ofNat_toNat]

/-- A surrogate pair is read as one character. -/
theorem readUnicode_surrogates {hi lo : Nat} (hhi : 0xd800 ≤ hi ∧ hi < 0xdc00)
    (hlo : 0xdc00 ≤ lo ∧ lo < 0xe000) (r : Text) : readUnicode (hex4 hi ++ (unicodeEscape lo ++ r))
      = some (Char.ofNat (0x10000 + (hi - 0xd800) * 0x400 + (lo - 0xdc00)), r) := by
  have hhex : readHex4 (hex4 hi ++ (unicodeEscape lo ++ r)) = some (hi, '\\' :: 'u' :: (hex4 lo ++ r)) :=
    readHex4_hex4 (lt_trans hhi.2 (by decide)) _
  unfold readUnicode
  rw [hhex]
  simp only [bind_eq_bind, bind_some, if_pos hhi, readHex4_hex4 (lt_trans hlo.2 (by decide)), if_pos hlo]

theorem surrogates_value (h : 0x10000 ≤ n) : 0x10000 + (0xd800 + (n - 0x10000) / 0x400 - 0xd800) * 0x400
      + (0xdc00 + (n - 0x10000) % 0x400 - 0xdc00) = n := by
  rw [Nat.add_sub_cancel_left, Nat.add_sub_cancel_left, add_assoc, Nat.div_add_mod', Nat.add_sub_cancel' h]

/-- A character above the basic plane under its surrogate pair. -/
theorem readUnicode_pair (h : 0x10000 ≤ c.toNat) (r : Text) :
    readUnicode (hex4 (0xd800 + (c.toNat - 0x10000) / 0x400)
      ++ (unicodeEscape (0xdc00 + (c.toNat - 0x10000) % 0x400) ++ r)) = some (c, r) := by
  have hval := toNat_scalar c
  rw [readUnicode_surrogates (by omega) (by omega), surrogates_value h, Char.ofNat_toNat]

theorem unescapeShort_shortEscape {c e : Char} (h : shortEscape c = some e) : unescapeShort e = some c ∧ e ≠ 'u' := by
  have hchar : Char.ofNat c.toNat = c := Char.ofNat_toNat c
  unfold shortEscape at h
  split at h <;> cases h
  all_goals
    rename_i hn
    rw [← hchar, hn]
    decide

theorem unescape_short (fuel : Nat) {c e : Char} (h : shortEscape c = some e) (r : Text) :
    Json.unescape (fuel + 1) ('\\' :: e :: r) = (Json.unescape fuel r).map (c :: ·) := by
  obtain ⟨hback, hu⟩ := unescapeShort_shortEscape h
  simp [Json.unescape, hback]
  cases Json.unescape fuel r <;> rfl

theorem shortEscape_none (h : shortEscape c = none) : c ≠ '"' ∧ c ≠ '\\' := by
  constructor <;> (rintro rfl; cases h)

/-! ## Integers -/

/-- Text after a value: the end, or a delimiter. -/
def Stops (t : Text) : Prop := ∀ c ∈ t.head?, c = ',' ∨ c = ']' ∨ c = '\x7d'

theorem Stops.not_digit {t : Text} (h : Stops t) : ∀ c ∈ t.head?, c.isDigit = false := by
  intro c hc
  rcases h c hc with rfl | rfl | rfl <;> rfl

theorem toDigits_head (h : 0 < n) : ∃ d ds, Nat.toDigits 10 n = d :: ds ∧ d ≠ '0' := by
  induction n using Nat.strong_induction_on with
  | _ n ih =>
    by_cases hlt : n < 10
    · refine ⟨Nat.digitChar n, [], Nat.toDigits_of_lt_base hlt, ?_⟩
      interval_cases n <;> decide
    obtain ⟨d, ds, heq, hd⟩ := ih (n / 10) (by omega) (by omega)
    rw [Nat.toDigits_of_base_le (by decide) (by omega), heq]
    exact ⟨d, _, rfl, hd⟩

theorem isDigit_toDigits (h : c ∈ Nat.toDigits 10 n) : c.isDigit = true :=
  Nat.isDigit_of_mem_toDigits (by decide) (by decide) h

theorem takeWhile_digits {ds rest : Text} (hds : ∀ c ∈ ds, c.isDigit = true)
    (hrs : ∀ c ∈ rest.head?, c.isDigit = false) :
    (ds ++ rest).takeWhile Char.isDigit = ds ∧ (ds ++ rest).dropWhile Char.isDigit = rest := by
  have hstop : rest.takeWhile Char.isDigit = [] ∧ rest.dropWhile Char.isDigit = rest := by
    cases rest with
    | nil => exact ⟨rfl, rfl⟩
    | cons c cs => simp [hrs c rfl]
  constructor
  · rw [takeWhile_append_of_pos hds, hstop.1, append_nil]
  · rw [dropWhile_append_of_pos hds, hstop.2]

theorem scanNat_toDigits (n : Nat) {rest : Text} (hrs : ∀ c ∈ rest.head?, c.isDigit = false) :
    scanNat (Nat.toDigits 10 n ++ rest) = some (n, rest) := by
  rcases Nat.eq_zero_or_pos n with rfl | hpos
  · rfl
  obtain ⟨htake, hdrop⟩ := takeWhile_digits (fun _ => isDigit_toDigits (n := n)) hrs
  obtain ⟨d, ds, heq, hd⟩ := toDigits_head hpos
  unfold scanNat
  split
  · rename_i heq'
    rw [heq, cons_append, cons.injEq] at heq'
    exact absurd heq'.1 hd
  · rw [htake, hdrop]
    simp [Nat.toDigits_ne_nil, Nat.ofDigitChars_ten_toDigits]

theorem toDigits_cons (n : Nat) : ∃ d ds, Nat.toDigits 10 n = d :: ds ∧ d.isDigit = true := by
  obtain ⟨d, ds, hcons⟩ := exists_cons_of_ne_nil (Nat.toDigits_ne_nil (b := 10) (n := n))
  refine ⟨d, ds, hcons, isDigit_toDigits (n := n) ?_⟩
  rw [hcons]
  exact mem_cons_self

theorem scanInt_decimal (n : Int) {r : Text} (hrs : ∀ c ∈ r.head?, c.isDigit = false) :
    scanInt (decimal n ++ r) = some (n, r) := by
  unfold decimal
  split_ifs with hneg
  · simp only [cons_append, scanInt, scanNat_toDigits _ hrs, Option.map_some]
    rw [Int.ofNat_natAbs_of_nonpos (le_of_lt hneg), neg_neg]
  unfold scanInt
  split
  · rename_i heq
    obtain ⟨d, ds, hcons, hd⟩ := toDigits_cons n.natAbs
    rw [hcons, cons_append, cons.injEq] at heq
    rw [heq.1] at hd
    cases hd
  · rw [scanNat_toDigits _ hrs, Option.map_some, Int.natAbs_of_nonneg (not_lt.mp hneg)]

/-! ## Values -/

mutual

/-- A value that the host's parser can read at `depth`: no `foreign` part, accepted strings, distinct keys,
    integers the number rule takes, nesting within the bound. -/
def Readable (D : Dialect) : Nat → Json → Prop
  | depth, .null | depth, .bool _ => D.tooDeep depth = false
  | depth, .int n =>
    D.tooDeep depth = false ∧ ∀ rest, Stops rest → D.number (decimal n ++ rest) = some (n, rest)
  | depth, .str s => D.tooDeep depth = false ∧ D.acceptString s = true
  | depth, .arr xs => D.tooDeep depth = false ∧ ReadableAll D (depth + 1) xs
  | depth, .obj ms => D.tooDeep depth = false ∧ (ms.map Prod.fst).Nodup ∧ ReadableMembers D (depth + 1) ms
  | _, .foreign => False

def ReadableAll (D : Dialect) : Nat → List Json → Prop
  | _, [] => True
  | depth, x :: xs => Readable D depth x ∧ ReadableAll D depth xs

def ReadableMembers (D : Dialect) : Nat → List (Text × Json) → Prop
  | _, [] => True
  | depth, (k, v) :: ms => D.acceptString k = true ∧ Readable D depth v ∧ ReadableMembers D depth ms

end

section

variable {D : Dialect} {es : Char → Text} {dp fl : Nat}

theorem skipSpace_cons (h : isSpace c = false) (t : Text) : skipSpace (c :: t) = c :: t := by
  simp [skipSpace, h]

/-- A rendered value starts with a character that is neither white space nor a closing bracket. -/
theorem render_head (escape : Char → Text) {v : Json} (h : Readable D dp v) :
    ∃ c cs, render escape v = c :: cs ∧ isSpace c = false ∧ c ≠ ']' ∧ c ≠ '\x7d' := by
  cases v with
  | null | str s | arr xs | obj ms => exact ⟨_, _, rfl, rfl, by decide, by decide⟩
  | bool b => cases b <;> exact ⟨_, _, rfl, rfl, by decide, by decide⟩
  | int n =>
    by_cases hneg : n < 0
    · refine ⟨'-', Nat.toDigits 10 n.natAbs, ?_, rfl, by decide, by decide⟩
      simp only [render, decimal, if_pos hneg]
    obtain ⟨d, ds, hcons, hd⟩ := toDigits_cons n.natAbs
    refine ⟨d, ds, ?_, ?_, ?_, ?_⟩
    · simp only [render, decimal, if_neg hneg, hcons]
    · by_contra hs
      simp only [Bool.not_eq_false, isSpace, Bool.or_eq_true, beq_iff_eq] at hs
      rcases hs with ((rfl | rfl) | rfl) | rfl <;> cases hd
    · rintro rfl; cases hd
    · rintro rfl; cases hd
  | foreign => exact absurd h (by simp [Readable])

theorem commaSep_cons_cons (x y : Text) (l : List Text) : commaSep (x :: y :: l) = x ++ ',' :: commaSep (y :: l) := by
  simp [commaSep, intercalate]

theorem commaSep_singleton (x : Text) : commaSep [x] = x := by
  simp [commaSep, intercalate]

/-- A text that starts like a number is handed to the number rule. -/
theorem parseValue_number {t : Text} {cs : Text} (hdeep : D.tooDeep dp = false) (ht : t = c :: cs)
    (hc : c = '-' ∨ c.isDigit = true) :
    parseValue D (fl + 1) dp t = (D.number t).map fun p => (.int p.1, p.2) := by
  have hspc : isSpace c = false := by
    by_contra hs
    simp only [Bool.not_eq_false, isSpace, Bool.or_eq_true, beq_iff_eq] at hs
    rcases hs with ((rfl | rfl) | rfl) | rfl <;> simp at hc
  have hne : ∀ d : Char, d.isDigit = false → d ≠ '-' → c ≠ d := by
    rintro d hd hd' rfl
    rcases hc with rfl | hc
    · exact hd' rfl
    · rw [hd] at hc
      cases hc
  subst ht
  rw [parseValue, hdeep, skipSpace_cons hspc]
  simp only [Bool.false_eq_true, if_false]
  split
  all_goals first
    | rfl
    | (rename_i heq
       simp only [cons.injEq] at heq
       exact absurd heq.1 (hne _ (by decide) (by decide)))

theorem string_quote (hesc : Escapes es) {s : Text} (hs : D.acceptString s = true) (r : Text) :
    D.string (s.flatMap es ++ '"' :: r) = some (s, r) := by
  simp [Dialect.string, hesc.scanString_quote, hs]

theorem quote_append (s r : Text) : quote es s ++ r = '"' :: (s.flatMap es ++ '"' :: r) := by
  simp [quote]

theorem stops_comma (t : Text) : Stops (',' :: t) := fun _ h => .inl (some.inj h).symm

theorem stops_bracket (t : Text) : Stops (']' :: t) := fun _ h => .inr (.inl (some.inj h).symm)

theorem stops_brace (t : Text) : Stops ('\x7d' :: t) := fun _ h => .inr (.inr (some.inj h).symm)

theorem stops_nil : Stops [] := fun _ h => by cases h

/-- The text of a nonempty array's elements starts like its first element. -/
theorem renderAll_head (escape : Char → Text) {x : Json} (xs : List Json) (h : Readable D dp x) :
    ∃ c cs, commaSep (renderAll escape (x :: xs)) = c :: cs ∧ isSpace c = false ∧ c ≠ ']' := by
  obtain ⟨c, cs, hx, hspc, hne, -⟩ := render_head escape h
  cases xs with
  | nil => exact ⟨c, cs, by rw [renderAll, renderAll, commaSep_singleton, hx], hspc, hne⟩
  | cons y ys =>
    refine ⟨c, cs ++ ',' :: commaSep (renderAll escape (y :: ys)), ?_, hspc, hne⟩
    rw [renderAll, renderAll, commaSep_cons_cons, hx, cons_append]

theorem renderMembers_head (escape : Char → Text) (k : Text) (v : Json) (ms : List (Text × Json)) :
    ∃ cs, commaSep (renderMembers escape ((k, v) :: ms)) = '"' :: cs := by
  cases ms with
  | nil => exact ⟨_, by rw [renderMembers, renderMembers, commaSep_singleton, quote_append]⟩
  | cons m ms =>
    exact ⟨_, by rw [renderMembers, renderMembers, commaSep_cons_cons, append_assoc, quote_append]⟩

theorem key_fresh {k : Text} {v : Json} {acc ms : List (Text × Json)}
    (h : ((acc ++ (k, v) :: ms).map Prod.fst).Nodup) : k ∉ acc.map Prod.fst := by
  rw [map_append, map_cons] at h
  intro hmem
  exact (disjoint_of_nodup_append h) hmem mem_cons_self

mutual

/-- **Round trip.** The parser reads a rendered value back and stops where it ends. The fuel is bounded by
    the length of the text. -/
theorem parseValue_render (hesc : Escapes es) : (v : Json) → (dp fl : Nat) → (r : Text) →
    Readable D dp v → (render es v).length < fl → Stops r →
    parseValue D fl dp (render es v ++ r) = some (v, r)
  | .null, _, f + 1, r, hv, hfuel, hrs => by
    rw [parseValue, hv]
    rfl
  | .bool b, _, f + 1, r, hv, hfuel, hrs => by
    rw [parseValue, hv]
    cases b <;> rfl
  | .int n, _, f + 1, r, hv, hfuel, hrs => by
    have hhead : ∃ c cs, decimal n ++ r = c :: cs ∧ (c = '-' ∨ c.isDigit = true) := by
      obtain ⟨d, ds, hcons, hd⟩ := toDigits_cons n.natAbs
      unfold decimal
      split_ifs
      · exact ⟨_, _, rfl, .inl rfl⟩
      · exact ⟨d, ds ++ r, by rw [hcons]; rfl, .inr hd⟩
    obtain ⟨c, cs, ht, hc⟩ := hhead
    rw [render, parseValue_number hv.1 ht hc, hv.2 r hrs]
    rfl
  | .str s, _, f + 1, r, hv, hfuel, hrs => by
    rw [parseValue, hv.1, render, quote_append, skipSpace_cons rfl]
    simp only [Bool.false_eq_true, if_false, string_quote hesc hv.2, Option.map_some]
  | .arr [], _, f + 1, r, hv, hfuel, hrs => by
    rw [parseValue, hv.1]
    rfl
  | .arr (x :: xs), _, f + 1, r, hv, hfuel, hrs => by
    have hlen : (commaSep (renderAll es (x :: xs))).length + 1 < f := by
      simp only [render, length_cons, length_append, length_nil] at hfuel
      omega
    have hrec := parseElements_render hesc (x :: xs) [] _ f r hv.2 hlen (cons_ne_nil _ _)
    obtain ⟨c, cs, hhead, hspc, hne⟩ := renderAll_head es xs hv.2.1
    rw [parseValue, hv.1, render, cons_append, append_assoc, skipSpace_cons rfl]
    simp only [Bool.false_eq_true, if_false]
    rw [hhead] at hrec ⊢
    simp only [cons_append, nil_append, skipSpace_cons hspc] at hrec ⊢
    -- the first element does not start with a closing bracket
    split
    · rename_i heq
      exact absurd (cons.inj heq).1 hne
    · exact hrec
  | .obj [], _, f + 1, r, hv, hfuel, hrs => by
    rw [parseValue, hv.1]
    rfl
  | .obj ((k, w) :: ms), _, f + 1, r, hv, hfuel, hrs => by
    have hlen : (commaSep (renderMembers es ((k, w) :: ms))).length + 1 < f := by
      simp only [render, length_cons, length_append, length_nil] at hfuel
      omega
    have hrec := parseMembers_render hesc ((k, w) :: ms) [] _ f r hv.2.2
      (by rw [nil_append]; exact hv.2.1) hlen (cons_ne_nil _ _)
    obtain ⟨cs, hhead⟩ := renderMembers_head es k w ms
    rw [parseValue, hv.1, render, cons_append, append_assoc, skipSpace_cons rfl]
    rw [hhead] at hrec ⊢
    exact hrec
  | .foreign, _, _, _, hv, _, _ => absurd hv (by simp [Readable])

theorem parseElements_render (hesc : Escapes es) : (xs acc : List Json) → (dp fl : Nat) → (r : Text) →
    ReadableAll D (dp + 1) xs → (commaSep (renderAll es xs)).length + 1 < fl → xs ≠ [] →
    parseElements D fl dp acc (commaSep (renderAll es xs) ++ ']' :: r) = some (.arr (acc ++ xs), r)
  | [], _, _, _, _, _, _, hne => absurd rfl hne
  | [x], acc, _, f + 1, r, h, hfuel, _ => by
    rw [renderAll, renderAll, commaSep_singleton] at hfuel ⊢
    rw [parseElements, parseValue_render hesc x _ f _ h.1 (by omega) (stops_bracket _)]
    rfl
  | x :: y :: ys, acc, _, f + 1, r, h, hfuel, _ => by
    obtain ⟨c, cs, hhead, hspc, -⟩ := renderAll_head es ys h.2.1
    rw [renderAll, renderAll, commaSep_cons_cons, ← renderAll] at hfuel ⊢
    simp only [length_append, length_cons] at hfuel
    have hrec := parseElements_render hesc (y :: ys) (acc ++ [x]) _ f r h.2 (by omega) (cons_ne_nil _ _)
    rw [append_assoc, cons_append, parseElements,
      parseValue_render hesc x _ f _ h.1 (by omega) (stops_comma _)]
    simp only [skipSpace_cons (c := ',') rfl]
    rw [hhead] at hrec ⊢
    rw [cons_append, skipSpace_cons hspc, ← cons_append, hrec, append_assoc]
    rfl

theorem parseMembers_render (hesc : Escapes es) : (ms acc : List (Text × Json)) → (dp fl : Nat) →
    (r : Text) → ReadableMembers D (dp + 1) ms → ((acc ++ ms).map Prod.fst).Nodup →
    (commaSep (renderMembers es ms)).length + 1 < fl → ms ≠ [] →
    parseMembers D fl dp acc (commaSep (renderMembers es ms) ++ '\x7d' :: r) = some (.obj (acc ++ ms), r)
  | [], _, _, _, _, _, _, _, hne => absurd rfl hne
  | [(k, v)], acc, _, f + 1, r, h, hkeys, hfuel, _ => by
    rw [renderMembers, renderMembers, commaSep_singleton] at hfuel ⊢
    simp only [length_append, length_cons] at hfuel
    rw [append_assoc, quote_append, parseMembers, string_quote hesc h.1]
    simp only [cons_append, skipSpace_cons (c := ':') rfl, if_neg (key_fresh hkeys)]
    rw [parseValue_render hesc v _ f _ h.2.1 (by omega) (stops_brace _)]
    rfl
  | (k, v) :: (k', v') :: ms, acc, _, f + 1, r, h, hkeys, hfuel, _ => by
    obtain ⟨cs, hhead⟩ := renderMembers_head es k' v' ms
    rw [renderMembers, renderMembers, commaSep_cons_cons, ← renderMembers] at hfuel ⊢
    simp only [length_append, length_cons, quote, length_nil] at hfuel
    have hrec := parseMembers_render hesc ((k', v') :: ms) (acc ++ [(k, v)]) _ f r h.2.2
      (by rw [append_assoc]; exact hkeys) (by omega) (cons_ne_nil _ _)
    rw [append_assoc, append_assoc, quote_append, parseMembers, string_quote hesc h.1]
    simp only [cons_append, skipSpace_cons (c := ':') rfl, if_neg (key_fresh hkeys)]
    rw [parseValue_render hesc v _ f _ h.2.1 (by omega) (stops_comma _)]
    simp only [skipSpace_cons (c := ',') rfl]
    rw [hhead] at hrec ⊢
    rw [cons_append, skipSpace_cons rfl, ← cons_append, hrec, append_assoc]
    rfl

end

theorem parseDocument_render (hesc : Escapes es) {v : Json} (hv : Readable D 0 v) :
    parseDocument D (render es v) = some v := by
  have h := parseValue_render hesc v 0 _ [] hv (Nat.lt_succ_self _) stops_nil
  rw [append_nil] at h
  rw [parseDocument, h]
  rfl

/-- Rendering loses nothing the parser can read back. -/
theorem render_injective (hesc : Escapes es) {v w : Json} (hv : Readable D 0 v) (hw : Readable D 0 w)
    (h : render es v = render es w) : v = w := by
  have hboth := parseDocument_render hesc hv
  rw [h, parseDocument_render hesc hw] at hboth
  exact (Option.some.inj hboth).symm

end

end Json

end Library
