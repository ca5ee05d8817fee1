import Shadow6.Portable.Admission

/-!
# `Portable.Agreement` — when the two backends write the same bytes

Both backends sort the keys of every object and write compact JSON. They differ in what a key order is
(code points; UTF-16 code units, after which the object moves array indices to the front) and in what they
escape (everything above `~`; nothing). The bytes agree exactly on the values where neither difference
shows (`Neutral`), and then each backend accepts the other's extensions.
-/

namespace Shadow6.Portable

open Library Json List Python

/-! ## The container-depth scan over a rendered value -/

variable {v : Json} {c : Char} {p q : Bytes}

namespace Python

/-- The scan runs over `p` at `depth` and is where it was. -/
def Skips (depth : Int) (p : Text) : Prop :=
  ∀ rest, depthWithin (p ++ rest) depth false false = depthWithin rest depth false false

variable {dp : Int}

theorem Skips.nil : Skips dp [] := fun _ => rfl

theorem Skips.append {p q : Text} (hp : Skips dp p) (hq : Skips dp q) : Skips dp (p ++ q) := by
  intro rest
  rw [append_assoc, hp, hq]

theorem Skips.char (h : c ∉ ['"', '[', ']', '\x7b', '\x7d']) : Skips dp [c] := by
  intro rest
  simp only [mem_cons, not_mem_nil, or_false, not_or] at h
  simp [depthWithin, h]

theorem Skips.of_chars {p : Text} (h : ∀ c ∈ p, c ∉ ['"', '[', ']', '\x7b', '\x7d']) : Skips dp p := by
  induction p with
  | nil => exact .nil
  | cons c p ih =>
    exact (Skips.char (h c mem_cons_self)).append (ih fun d hd => h d (mem_cons_of_mem c hd))

theorem Skips.commaSep {ps : List Text} (h : ∀ p ∈ ps, Skips dp p) : Skips dp (commaSep ps) := by
  induction ps with
  | nil => exact .nil
  | cons p ps ih =>
    cases ps with
    | nil =>
      rw [commaSep_singleton]
      exact h p mem_cons_self
    | cons q qs =>
      exact (h p mem_cons_self).append
        ((Skips.char (c := ',') (by decide)).append (ih fun r hr => h r (mem_cons_of_mem p hr)))

/-- The scan leaves a string literal where `closingQuote` does. -/
theorem depthWithin_closingQuote {t bd r : Text} (h : closingQuote t = some (bd, r)) :
    depthWithin t dp true false = depthWithin r dp false false := by
  induction t using closingQuote.induct generalizing bd with
  | case1 | case2 => cases h
  | case3 c t ih =>
    obtain ⟨p, hp, heq⟩ := Option.map_eq_some_iff.mp (closingQuote_escape c t ▸ h)
    obtain ⟨-, rfl⟩ := Prod.ext_iff.mp heq
    exact ih hp
  | case4 t hone hsl =>
    have hcls : closingQuote ('"' :: t) = some ([], t) := by simp [closingQuote]
    obtain ⟨-, rfl⟩ := Prod.ext_iff.mp (Option.some.inj (hcls.symm.trans h))
    simp [depthWithin]
  | case5 c t hone hsl hquo ih =>
    have hne : c ≠ '\\' := by
      rintro rfl
      cases t with
      | nil => exact hone rfl rfl
      | cons d t => exact hsl d t rfl rfl
    obtain ⟨p, hp, heq⟩ := Option.map_eq_some_iff.mp (closingQuote_char hquo hne t ▸ h)
    obtain ⟨-, rfl⟩ := Prod.ext_iff.mp heq
    simp only [depthWithin, hne, hquo, if_true, Bool.false_eq_true, if_false, ne_eq, not_false_eq_true, decide_true]
    exact ih hp

theorem Skips.quote {esc : Char → Text} (hesc : Escapes esc) (s : Text) : Skips dp (quote esc s) := by
  intro r
  rw [quote_append]
  exact depthWithin_closingQuote (hesc.closingQuote_body s r)

theorem Skips.bracketed {o q : Char} {p : Text} (ho : o = '[' ∧ q = ']' ∨ o = '\x7b' ∧ q = '\x7d')
    (hdep : dp + 1 ≤ 17) (hp : Skips (dp + 1) p) : Skips dp (o :: (p ++ [q])) := by
  intro rest
  rw [cons_append, append_assoc]
  rcases ho with ⟨rfl, rfl⟩ | ⟨rfl, rfl⟩ <;> simp [depthWithin, hp _, not_lt.mpr hdep]

theorem Skips.render {esc : Char → Text} (hesc : Escapes esc) {k : Nat} (h : Within k v) (hdep : dp ≤ k) :
    Skips dp (render esc v) := by
  induction h generalizing dp with
  | null => exact Skips.of_chars (p := ['n', 'u', 'l', 'l']) (by simp)
  | @bool _ b =>
    cases b with
    | false => exact Skips.of_chars (p := ['f', 'a', 'l', 's', 'e']) (by simp)
    | true => exact Skips.of_chars (p := ['t', 'r', 'u', 'e']) (by simp)
  | int =>
    refine Skips.of_chars fun c hc hmem => ?_
    have hdigit : c = '-' ∨ c.isDigit = true := decimal_char hc
    simp only [mem_cons, not_mem_nil, or_false] at hmem
    rcases hmem with rfl | rfl | rfl | rfl | rfl <;> simp at hdigit
  | str => exact Skips.quote hesc _
  | arr hk _ _ ih =>
    rw [Json.render, renderAll_eq_map]
    refine .bracketed (.inl ⟨rfl, rfl⟩) (by omega) (.commaSep fun p hp => ?_)
    obtain ⟨x, hx, rfl⟩ := mem_map.mp hp
    exact ih x hx (by push_cast; omega)
  | obj hk _ _ _ _ ih =>
    rw [Json.render, renderMembers_eq_map]
    refine .bracketed (.inr ⟨rfl, rfl⟩) (by omega) (.commaSep fun p hp => ?_)
    obtain ⟨m, hm, rfl⟩ := mem_map.mp hp
    exact (Skips.quote hesc _).append ((Skips.char (c := ':') (by decide)).append (ih m hm (by push_cast; omega)))

end Python

/-! ## Key order -/

/-- Does a JavaScript object list key `a` before key `b` when they were created in this order? -/
def Precedes (a b : Text) : Prop :=
  match Node.arrayIndex a, Node.arrayIndex b with
  | none, some _ => False
  | some m, some n => m ≤ n
  | _, none => True

instance (a b : Text) : Decidable (Precedes a b) := by
  unfold Precedes
  split <;> infer_instance

/-- The ascending keys of an object that JavaScript leaves in this order. -/
def StableKeys (ks : List Text) : Prop :=
  ∀ a ∈ ks, ∀ b ∈ ks, codePoints a < codePoints b → Precedes a b

instance (ks : List Text) : Decidable (StableKeys ks) := by unfold StableKeys; infer_instance

namespace Node

theorem ownOrder_pairwise (ms : Members) : (ownOrder ms).Pairwise fun a b => Precedes a.1 b.1 := by
  unfold ownOrder
  rw [pairwise_append]
  refine ⟨?_, ?_, ?_⟩
  · refine List.Pairwise.imp_of_mem ?_ (sortBy_pairwise _ _)
    intro a b ha hb hle
    simp only [(sortBy_perm _ _).mem_iff, mem_filter, Option.isSome_iff_exists] at ha hb
    obtain ⟨-, m, hm⟩ := ha
    obtain ⟨-, n, hn⟩ := hb
    simpa [Precedes, hm, hn] using hle
  · refine List.Pairwise.imp_of_mem ?_ (pairwise_of_forall (R := fun _ _ => True) fun _ _ => trivial)
    intro a b _ hb _
    have hnone : arrayIndex b.1 = none := by simpa using (mem_filter.mp hb).2
    cases ha : arrayIndex a.1 <;> simp [Precedes, ha, hnone]
  · intro a _ b hb
    have hnone : arrayIndex b.1 = none := by simpa using (mem_filter.mp hb).2
    cases ha : arrayIndex a.1 <;> simp [Precedes, ha, hnone]

theorem ownOrder_eq_self {ms : Members} (h : ms.Pairwise fun a b => Precedes a.1 b.1) : ownOrder ms = ms := by
  have hsort : sortBy (fun k => (arrayIndex k).getD 0) (ms.filter fun m => (arrayIndex m.1).isSome)
      = ms.filter fun m => (arrayIndex m.1).isSome := by
    refine sortBy_eq_self (List.Pairwise.imp_of_mem ?_ (h.filter _))
    intro a b ha hb hab
    obtain ⟨m, hm⟩ := Option.isSome_iff_exists.mp (mem_filter.mp ha).2
    obtain ⟨n, hn⟩ := Option.isSome_iff_exists.mp (mem_filter.mp hb).2
    simpa [Precedes, hm, hn] using hab
  rw [ownOrder, hsort]
  clear hsort
  induction h with
  | nil => rfl
  | @cons m ms hm hms ih =>
    cases hidx : arrayIndex m.1 with
    | some n => simpa [hidx] using ih
    | none =>
      -- after a key that is no index there are only such keys
      have hrs : ∀ m' ∈ ms, arrayIndex m'.1 = none := by
        intro m' hm'
        have hprec := hm m' hm'
        cases hidx' : arrayIndex m'.1 with
        | none => rfl
        | some n => simp [Precedes, hidx, hidx'] at hprec
      have hnil : ms.filter (fun m => (arrayIndex m.1).isSome) = [] :=
        filter_eq_nil_iff.mpr fun m' hm' => by simp [hrs m' hm']
      have hall : ms.filter (fun m => !(arrayIndex m.1).isSome) = ms :=
        filter_eq_self.mpr fun m' hm' => by simp [hrs m' hm']
      rw [filter_cons_of_neg (by simp [hidx]), filter_cons_of_pos (by simp [hidx]), hnil, hall, nil_append]

theorem utf16_plain {s : Text} (h : ∀ c ∈ s, c.toNat < 0x7f) : utf16 s = codePoints s := by
  induction s with
  | nil => rfl
  | cons c s ih =>
    have hc : c.toNat < 0x10000 := lt_trans (h c mem_cons_self) (by decide)
    rw [utf16, flatMap_cons, codeUnits, if_pos hc, ← utf16,
      ih fun d hd => h d (mem_cons_of_mem c hd), codePoints, codePoints, map_cons,
      singleton_append]

end Node

/-- On distinct ASCII keys the two key orders agree exactly when the ascending keys are stable. -/
theorem order_eq_iff {ms : Members} (hnd : (ms.map Prod.fst).Nodup)
    (hpl : ∀ k ∈ ms.map Prod.fst, ∀ c ∈ k, c.toNat < 0x7f) :
    sortKeys.order ms = Node.sort.order ms ↔ StableKeys (ms.map Prod.fst) := by
  have hcodes : ∀ m ∈ ms, Node.utf16 m.1 = codePoints m.1 := fun m hm =>
    Node.utf16_plain (hpl m.1 (mem_map_of_mem hm))
  have hsm : sortBy Node.utf16 ms = sortBy codePoints ms :=
    sortBy_congr fun a ha b hb => by rw [hcodes a ha, hcodes b hb]
  have hstr := sortBy_strict codePoints_injective hnd
  show sortBy codePoints ms = Node.ownOrder (sortBy Node.utf16 ms) ↔ _
  rw [hsm]
  have hperm : (sortBy codePoints ms).Perm ms := sortBy_perm _ _
  constructor
  · intro heq a ha b hb hlt
    have hprec : (sortBy codePoints ms).Pairwise fun a b => Precedes a.1 b.1 := by
      rw [heq]
      exact Node.ownOrder_pairwise _
    obtain ⟨m, hm, rfl⟩ := mem_map.mp ha
    obtain ⟨n, hn, rfl⟩ := mem_map.mp hb
    -- of two members one stands first, and in the sorted list that is the one with the smaller key
    refine List.Pairwise.forall_of_forall_of_flip
      (R := fun a b : Text × Json => codePoints a.1 < codePoints b.1 → Precedes a.1 b.1)
      ?_ ?_ ?_ (hperm.mem_iff.mpr hm) (hperm.mem_iff.mpr hn) hlt
    · exact fun _ _ hlt => absurd hlt (lt_irrefl _)
    · exact hprec.imp (fun h => fun _ => h)
    · exact hstr.imp fun h hlt => absurd h (lt_asymm hlt)
  · intro hstab
    refine (Node.ownOrder_eq_self (List.Pairwise.imp_of_mem ?_ hstr)).symm
    intro a b ha hb hlt
    exact hstab _ (mem_map_of_mem (hperm.mem_iff.mp ha)) _ (mem_map_of_mem (hperm.mem_iff.mp hb)) hlt

/-! ## The text -/

/-- **Where neither difference shows**: all strings and keys are ASCII without `DEL`, and the ascending keys of
    every object are stable. -/
def Neutral (v : Json) : Prop :=
  (∀ s ∈ strings v, ∀ c ∈ s, c.toNat < 0x7f) ∧ ∀ ks ∈ keyLists v, StableKeys ks

-- the characters of each string are checked one by one, never all characters there are
instance (v : Json) : Decidable (Neutral v) :=
  letI (s : Text) : Decidable (∀ c ∈ s, c.toNat < 0x7f) := decidableBAll _ s
  inferInstanceAs (Decidable ((∀ s ∈ _, ∀ c ∈ s, _) ∧ ∀ ks ∈ _, StableKeys ks))

theorem hex4_ascii {n : Nat} (h : c ∈ hex4 n) : c.toNat < 0x7f := by
  have hd : ∀ m, m < 16 → (Nat.digitChar m).toNat < 0x7f := by decide
  simp only [hex4, map_cons, map_nil, mem_cons, not_mem_nil, or_false] at h
  rcases h with rfl | rfl | rfl | rfl <;> exact hd _ (Nat.mod_lt _ (by decide))

theorem unicodeEscape_ascii {n : Nat} (h : c ∈ unicodeEscape n) : c.toNat < 0x7f := by
  rcases mem_cons.mp h with rfl | h
  · decide
  rcases mem_cons.mp h with rfl | h
  · decide
  · exact hex4_ascii h

theorem shortEscape_ascii {c e : Char} (h : shortEscape c = some e) : e.toNat < 0x7f := by
  unfold shortEscape at h
  split at h <;> cases h <;> decide

theorem Python.escapeAscii_ascii (c : Char) : ∀ d ∈ escapeAscii c, d.toNat < 0x7f := by
  intro d hd
  unfold escapeAscii at hd
  split at hd
  · rename_i hsh
    simp only [mem_cons, not_mem_nil, or_false] at hd
    rcases hd with rfl | rfl
    · decide
    · exact shortEscape_ascii hsh
  dsimp only at hd
  split_ifs at hd with hprint
  · obtain rfl := mem_singleton.mp hd
    omega
  · exact unicodeEscape_ascii hd
  · rcases mem_append.mp hd with hd | hd <;> exact unicodeEscape_ascii hd

/-- Below `DEL` the two backends escape alike. -/
theorem escape_eq (h : c.toNat < 0x7f) : Node.escape c = escapeAscii c := by
  unfold Node.escape escapeAscii
  cases shortEscape c with
  | some e => rfl
  | none =>
    dsimp only
    split_ifs <;> first | rfl | omega

/-- From `DEL` on `JSON.stringify` writes a character as it is. -/
theorem Node.escape_raw (h : 0x7f ≤ c.toNat) : Node.escape c = [c] := by
  have hsh : shortEscape c = none := by
    unfold shortEscape
    split <;> first | rfl | omega
  rw [Node.escape, hsh, if_neg (by omega)]

/-- **The texts agree exactly on neutral values.** -/
theorem dumps_eq_iff (hv : Within 0 v) (hkeys : DistinctKeys v) :
    dumps v = render Node.escape (arrange Node.sort v) ↔ Neutral v := by
  -- on ASCII strings only the key order is left to compare
  have hiff : (∀ s ∈ strings v, ∀ c ∈ s, c.toNat < 0x7f) →
      (dumps v = render Node.escape (arrange Node.sort v) ↔ ∀ ks ∈ keyLists v, StableKeys ks) := by
    intro hpl
    have hescp : render Node.escape (arrange Node.sort v) = render escapeAscii (arrange Node.sort v) :=
      render_congr fun s hs c hc => escape_eq (hpl s (mem_strings_arrange.mp hs) c hc)
    rw [hescp, dumps, ← arrange_eq_iff (fun ks => ∀ k ∈ ks, ∀ c ∈ k, c.toNat < 0x7f)
      (fun ms hnd husab => order_eq_iff hnd husab)
      (fun ks hks => ⟨hkeys ks hks, fun k hk => hpl k (mem_strings_of_key hks hk)⟩)]
    have hrd := hv.readable_python hkeys
    exact ⟨render_injective escapeAscii_escapes hrd.arrange hrd.arrange, fun h => by rw [h]⟩
  constructor
  · intro h
    have hpl : ∀ s ∈ strings v, ∀ c ∈ s, c.toNat < 0x7f := by
      intro s hs c hc
      by_contra hge
      have hraw : c ∈ Node.escape c := by
        rw [Node.escape_raw (not_lt.mp hge)]
        exact mem_cons_self
      have hmem : c ∈ dumps v := by
        rw [h]
        exact mem_render (mem_strings_arrange.mpr hs) hc hraw
      exact hge (toNat_render escapeAscii_ascii hmem)
    exact ⟨hpl, (hiff hpl).mp h⟩
  · rintro ⟨hpl, hstab⟩
    exact (hiff hpl).mpr hstab

/-! ## Acceptance -/

section

variable {nfc : Text → Text} {xs : List Text} {nm : Text} {val : Json} {A : Arrangement}

theorem normalized_arrange : Normalized nfc (arrange A v) ↔ Normalized nfc v :=
  forall_congr' fun _ => imp_congr_left mem_strings_arrange

theorem Python.portable_ok {p : Bytes} (h : portable v = .ok p) :
    Within 0 v ∧ p = utf8 (dumps v) ∧ p.length ≤ 4096 := by
  unfold portable at h
  split at h
  · cases h
  rename_i hval
  dsimp only at h
  split_ifs at h with hlen
  cases h
  exact ⟨validate_iff.mp hval, rfl, not_lt.mp hlen⟩

theorem Python.portable_eq_ok (hv : Within 0 v) (hlen : (utf8 (dumps v)).length ≤ 4096) :
    portable v = .ok (utf8 (dumps v)) := by
  rw [portable, validate_iff.mpr hv]
  exact if_neg (not_lt.mpr hlen)

theorem Node.canonical_ok {q : Bytes} (h : Node.canonical v = .ok q) :
    Within 0 v ∧ q = utf8 (render Node.escape (arrange Node.sort v)) ∧ q.length ≤ 4096 := by
  unfold Node.canonical at h
  split at h
  · cases h
  rename_i hval
  dsimp only at h
  split_ifs at h with hlen
  cases h
  exact ⟨validate_iff.mp (Node.portable_iff.mp hval), rfl, not_lt.mp hlen⟩

theorem Node.canonical_eq_ok (hv : Within 0 v)
    (hlen : (utf8 (render Node.escape (arrange Node.sort v))).length ≤ 4096) :
    Node.canonical v = .ok (utf8 (render Node.escape (arrange Node.sort v))) := by
  rw [Node.canonical, Node.portable_iff.mpr (validate_iff.mpr hv)]
  exact if_neg (not_lt.mpr hlen)

/-- `strict_json` parses the text of an admitted value, whatever the escapes and the member order, and looks at its
    strings. -/
theorem Python.strictJson_render_eq {e : Char → Text} (he : Escapes e) (hv : Within 0 v) (hkeys : DistinctKeys v)
    (hlen : (utf8 (render e (arrange A v))).length ≤ 4096) :
    strictJson nfc 65536 65536 (utf8 (render e (arrange A v))) =
      (bounded nfc 65536 0 (arrange A v)).map fun _ => arrange A v := by
  have hscan : depthWithin (render e (arrange A v)) 0 false false = true := by
    have hskips : Python.Skips 0 (render e (arrange A v)) := Python.Skips.render he hv.arrange (le_refl _)
    have hskip := hskips []
    rw [append_nil] at hskip
    exact hskip.trans rfl
  have hprs : parseDocument dialect (render e (arrange A v)) = some (arrange A v) :=
    parseDocument_render he (hv.readable_python hkeys).arrange
  have hsz : ¬ 65536 < (utf8 (render e (arrange A v))).length := by omega
  rw [strictJson, if_neg (by decide), if_neg (by decide), if_neg hsz, utf8Decode_utf8]
  simp only [hscan, Bool.not_true, Bool.false_eq_true, if_false, hprs]
  cases bounded nfc 65536 0 (arrange A v) <;> rfl

theorem Python.strictJson_render {e : Char → Text} (he : Escapes e) (hv : Within 0 v) (hkeys : DistinctKeys v)
    (hnf : Normalized nfc v) (hlen : (utf8 (render e (arrange A v))).length ≤ 4096) :
    strictJson nfc 65536 65536 (utf8 (render e (arrange A v))) = .ok (arrange A v) := by
  rw [strictJson_render_eq he hv hkeys hlen, hv.arrange.bounded_iff.mpr (normalized_arrange.mpr hnf)]
  rfl

/-- So does `strictJSON`. -/
theorem Node.strictJSON_render {e : Char → Text} (he : Escapes e) (hv : Within 0 v) (hkeys : DistinctKeys v)
    (hnf : Normalized nfc v) (hlen : (utf8 (render e (arrange A v))).length ≤ 4096) :
    Node.strictJSON nfc 65536 (utf8 (render e (arrange A v))) = .ok (arrange A v) := by
  have hprs : parseDocument (Node.dialect nfc) (render e (arrange A v)) = some (arrange A v) :=
    parseDocument_render he (hv.readable_node hkeys hnf).arrange
  have hsz : ¬ 65536 < (utf8 (render e (arrange A v))).length := by omega
  rw [Node.strictJSON, if_neg hsz, utf8Decode_utf8]
  simp only [hprs]

theorem Node.arrange_extensionValue :
    arrange Node.sort (extensionValue nm val) = extensionValue nm (arrange Node.sort val) := by
  have hle : Node.utf16 nameField ≤ Node.utf16 valueField := by decide
  have hname : Node.arrayIndex nameField = none := by decide
  have hvl : Node.arrayIndex valueField = none := by decide
  simp [extensionValue, arrange, arrangeMembers, Node.sort, sortBy, hle, Node.ownOrder, hname, hvl]

theorem Node.joinedKeys_extensionValue :
    Node.joinedKeys [(nameField, .str nm), (valueField, val)] = nameField ++ ',' :: valueField := by
  have hle : Node.utf16 nameField ≤ Node.utf16 valueField := by decide
  simp [Node.joinedKeys, sortBy, hle, commaSep_cons_cons, commaSep_singleton]

/-- Python accepts its own canonical payload. -/
theorem Python.readExtension_portable {p : Bytes} (hp : portable (extensionValue nm val) = .ok p)
    (hkeys : DistinctKeys (extensionValue nm val)) (hnf : Normalized nfc (extensionValue nm val))
    (hname : nm ∈ xs) : readExtension nfc xs p = .ok (nm, arrange sortKeys val) := by
  obtain ⟨hv, rfl, hlen⟩ := portable_ok hp
  have hag : dumps (arrange sortKeys (extensionValue nm val)) = dumps (extensionValue nm val) := by
    rw [dumps, arrange_arrange hkeys, dumps]
  have hport := portable_eq_ok (hv.arrange (A := sortKeys)) (by rwa [hag])
  have hrd := strictJson_render escapeAscii_escapes hv hkeys hnf hlen
  rw [hag] at hport
  rw [readExtension, dumps, hrd, ← dumps]
  simp only [hport, ne_eq, not_true_eq_false, if_false]
  exact if_pos hname

/-- Node.js accepts its own canonical payload. -/
theorem Node.readExtension_canonical {q : Bytes} (hq : Node.canonical (extensionValue nm val) = .ok q)
    (hkeys : DistinctKeys (extensionValue nm val)) (hnf : Normalized nfc (extensionValue nm val))
    (hname : nm ∈ xs) : Node.readExtension nfc xs q = .ok (nm, arrange Node.sort val) := by
  obtain ⟨hv, rfl, hlen⟩ := Node.canonical_ok hq
  have hag : arrange Node.sort (arrange Node.sort (extensionValue nm val))
      = arrange Node.sort (extensionValue nm val) := arrange_arrange hkeys
  have hcan := Node.canonical_eq_ok (hv.arrange (A := Node.sort)) (by rwa [hag])
  have hport := Node.portable_iff.mpr (validate_iff.mpr (hv.arrange (A := Node.sort)))
  rw [hag] at hcan
  rw [Node.readExtension, Node.strictJSON_render Node.escape_escapes hv hkeys hnf hlen]
  simp only [hport, hcan, ne_eq, not_true_eq_false, if_false]
  rw [Node.arrange_extensionValue]
  show (if Node.joinedKeys [(nameField, .str nm), (valueField, arrange Node.sort val)] ≠ _ then _
    else if nm ∈ xs then _ else _) = _
  rw [if_neg (not_not.mpr Node.joinedKeys_extensionValue), if_pos hname]
  rfl

variable {ev : Text × Json}

/-- Python accepts only what it would have written itself. -/
theorem Python.readExtension_own {payload : Bytes} (h : readExtension nfc xs payload = .ok ev) :
    ∃ v, strictJson nfc 65536 65536 payload = .ok v ∧ portable v = .ok payload := by
  unfold readExtension at h
  split at h
  · cases h
  rename_i v hrd
  split at h
  · cases h
  rename_i bytes hport
  split at h
  · cases h
  · rename_i hsm
    exact ⟨v, hrd, by rw [hport, not_not.mp hsm]⟩

/-- Python refuses its own payload if a string of it is not normalized. -/
theorem Python.normalized_of_readExtension {p : Bytes} (hp : portable v = .ok p) (hkeys : DistinctKeys v)
    (h : readExtension nfc xs p = .ok ev) : Normalized nfc v := by
  obtain ⟨hv, rfl, hlen⟩ := portable_ok hp
  obtain ⟨read, hread, -⟩ := readExtension_own h
  rw [dumps, strictJson_render_eq escapeAscii_escapes hv hkeys hlen] at hread
  cases hbounded : bounded nfc 65536 0 (arrange sortKeys v) with
  | error e =>
    rw [hbounded] at hread
    cases hread
  | ok => exact normalized_arrange.mp (hv.arrange.bounded_iff.mp hbounded)

/-- Node.js accepts only what it would have written itself. -/
theorem Node.readExtension_own {payload : Bytes} (h : Node.readExtension nfc xs payload = .ok ev) :
    ∃ v, Node.strictJSON nfc 65536 payload = .ok v ∧ Node.canonical v = .ok payload := by
  unfold Node.readExtension at h
  split at h
  · cases h
  rename_i v hrd
  split at h
  · cases h
  split at h
  · cases h
  rename_i bytes hcan
  split at h
  · cases h
  · rename_i hsm
    exact ⟨v, hrd, by rw [hcan, not_not.mp hsm]⟩

/-- Node.js accepts Python's payload only if it is its own: it reads the value and writes the bytes anew. -/
theorem Node.accepts_own (hp : Python.portable v = .ok p) (hq : Node.canonical v = .ok q) (hkeys : DistinctKeys v)
    (hnf : Normalized nfc v) (h : Node.readExtension nfc xs p = .ok ev) : p = q := by
  obtain ⟨hv, hp', hplen⟩ := portable_ok hp
  obtain ⟨read, hrd, hwr⟩ := Node.readExtension_own h
  rw [hp', Python.dumps, Node.strictJSON_render Python.escapeAscii_escapes hv hkeys hnf
    (by rwa [← dumps, ← hp'])] at hrd
  cases hrd
  rw [(Node.canonical_ok hwr).2.1, arrange_arrange hkeys, (Node.canonical_ok hq).2.1]

/-- The same for Python. -/
theorem Python.accepts_own (hp : portable v = .ok p) (hq : Node.canonical v = .ok q) (hkeys : DistinctKeys v)
    (hnf : Normalized nfc v) (h : readExtension nfc xs q = .ok ev) : p = q := by
  obtain ⟨hv, hq', hqlen⟩ := Node.canonical_ok hq
  obtain ⟨read, hrd, hwr⟩ := readExtension_own h
  rw [hq', strictJson_render Node.escape_escapes hv hkeys hnf (by rwa [← hq'])] at hrd
  cases hrd
  rw [(portable_ok hwr).2.1, dumps, arrange_arrange hkeys, ← dumps, (portable_ok hp).2.1]

end

/-- **Extensions between the backends.** For a value both backends can write, the bytes agree, and each backend
    accepts the other's extension, exactly when the value is neutral. -/
theorem extension_portable_iff {nfc : Text → Text} {extensions : List Text} {name : Text} {value : Json}
    {p q : Bytes} (hp : Python.portable (extensionValue name value) = .ok p)
    (hq : Node.canonical (extensionValue name value) = .ok q) (hkeys : DistinctKeys (extensionValue name value))
    (hnormal : Normalized nfc (extensionValue name value)) (hname : name ∈ extensions) :
    (p = q ↔ Neutral (extensionValue name value)) ∧
    (Node.readExtension nfc extensions p = .ok (name, arrange Node.sort value) ↔
      Neutral (extensionValue name value)) ∧
    (Python.readExtension nfc extensions q = .ok (name, arrange Python.sortKeys value) ↔
      Neutral (extensionValue name value)) := by
  have hnode := Node.readExtension_canonical hq hkeys hnormal hname
  have hpython := readExtension_portable hp hkeys hnormal hname
  have hbytes : p = q ↔ Neutral (extensionValue name value) := by
    rw [(portable_ok hp).2.1, (Node.canonical_ok hq).2.1, utf8_injective.eq_iff]
    exact dumps_eq_iff (portable_ok hp).1 hkeys
  refine ⟨hbytes, ⟨fun h => ?_, fun h => ?_⟩, ⟨fun h => ?_, fun h => ?_⟩⟩
  · exact hbytes.mp (Node.accepts_own hp hq hkeys hnormal h)
  · rwa [hbytes.mpr h]
  · exact hbytes.mp (accepts_own hp hq hkeys hnormal h)
  · rwa [← hbytes.mpr h]

/-- `{"b": [1, "ok"], "a": null}` under the name `x`. -/
def plainExtension : Json := .obj [(['b'], .arr [.int 1, .str ['o', 'k']]), (['a'], .null)]

theorem extension_portable_plain :
    Node.readExtension id [['x']] (utf8 (Python.dumps (extensionValue ['x'] plainExtension)))
      = .ok (['x'], arrange Node.sort plainExtension) := by
  have hkeys : DistinctKeys (extensionValue ['x'] plainExtension) := by unfold DistinctKeys; decide
  have hnormal : Normalized id (extensionValue ['x'] plainExtension) := by
    simp [Normalized, extensionValue, nameField, valueField, plainExtension, strings, stringsAll, stringsMembers]
  have hq : Node.canonical (extensionValue ['x'] plainExtension)
      = .ok (utf8 (render Node.escape (arrange Node.sort (extensionValue ['x'] plainExtension)))) := rfl
  exact (extension_portable_iff rfl hq hkeys hnormal (by decide)).2.1.mpr (by decide)

/-- `{"9": null, "10": null}`: Python writes `"10"` first, Node.js `"9"`. -/
def numberedExtension : Json := .obj [(['9'], .null), (['1', '0'], .null)]

/-- The string `é`: Python escapes it, Node.js does not. -/
def accentedExtension : Json := .str [Char.ofNat 0xe9]

/-- Both backends write the value under the name `x`, differently, and each refuses what the other wrote. -/
def RefusedByPeer (value : Json) : Prop :=
  DistinctKeys (extensionValue ['x'] value) ∧ Normalized id (extensionValue ['x'] value) ∧
    ∃ p q, Python.portable (extensionValue ['x'] value) = .ok p ∧
      Node.canonical (extensionValue ['x'] value) = .ok q ∧ p ≠ q ∧
      (∀ event, Node.readExtension id [['x']] p ≠ .ok event) ∧
      ∀ event, Python.readExtension id [['x']] q ≠ .ok event

/-- A reader accepts only its own bytes, so different bytes are refused on both sides. -/
theorem refusedByPeer_of_ne {value : Json} (hkeys : DistinctKeys (extensionValue ['x'] value))
    (hnf : Normalized id (extensionValue ['x'] value)) (hp : portable (extensionValue ['x'] value) = .ok p)
    (hq : Node.canonical (extensionValue ['x'] value) = .ok q) (hne : p ≠ q) : RefusedByPeer value :=
  ⟨hkeys, hnf, p, q, hp, hq, hne, fun _ h => hne (Node.accepts_own hp hq hkeys hnf h),
    fun _ h => hne (accepts_own hp hq hkeys hnf h)⟩

theorem extension_refused_by_peer : RefusedByPeer numberedExtension ∧ RefusedByPeer accentedExtension := by
  refine ⟨refusedByPeer_of_ne (p := utf8 (dumps (extensionValue ['x'] numberedExtension)))
      (q := utf8 (render Node.escape (arrange Node.sort (extensionValue ['x'] numberedExtension))))
      (by unfold DistinctKeys; decide) (by unfold Normalized; decide) rfl rfl (by decide +kernel),
    refusedByPeer_of_ne (p := utf8 (dumps (extensionValue ['x'] accentedExtension)))
      (q := utf8 (render Node.escape (arrange Node.sort (extensionValue ['x'] accentedExtension))))
      (by unfold DistinctKeys; decide) (by unfold Normalized; decide) rfl rfl (by decide +kernel)⟩

end Shadow6.Portable
