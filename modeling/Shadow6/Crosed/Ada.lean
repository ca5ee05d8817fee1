import Shadow6.Crosed.Canonical
import Shadow6.Library.Hex
import Shadow6.Portable.Agreement

/-!
# `Crosed.Ada` — canonical JSON in Core-Ada, and the agreement of the three

`Quote` and `Canonical` of `Core-Ada/src/json.adb`. A parsed document is an array of nodes linked by `Child` and
`Next`; `Canonical` walks the links, sorts the children of an object by insertion in place, and writes bytes.
`Holds D i v` says that the node `i` of `D` stands for the value `v`, and `represent` lays a value out the way
`Parse` does. For such a node the walk ends and gives the bytes that the tool signs and that Core-Go writes
(`canonical_agree`).
-/

namespace Shadow6.Crosed

open Library Json Portable List

namespace Ada

/-! ## Documents -/

/-- `Kind`. -/
inductive Kind where
  | object
  | array
  | string
  | number
  | bool
  | null
deriving DecidableEq, Repr

/-- `subtype Index is Natural range 0 .. 1_024`; 0 is no node. -/
abbrev Index := Fin 1025

/-- `Node`. A string is the sequence of its bytes. -/
structure Node where
  form : Kind := .null
  name : Bytes := []
  text : Bytes := []
  child : Index := 0
  next : Index := 0
deriving DecidableEq

/-- `Document`: the node array. `Last` is only used while parsing. -/
structure Document where
  items : Index → Node

/-! ## `Quote` -/

/-- One character in `Quote`. -/
def quoteByte (c : UInt8) : Bytes :=
  if c = 0x22 ∨ c = 0x5c then [0x5c, c]
  else if c = 0x08 then utf8 ['\\', 'b']
  else if c = 0x0c then utf8 ['\\', 'f']
  else if c = 0x0a then utf8 ['\\', 'n']
  else if c = 0x0d then utf8 ['\\', 'r']
  else if c = 0x09 then utf8 ['\\', 't']
  else if c < 0x20 then
    utf8 ['\\', 'u', '0', '0', Nat.digitChar (c.toNat / 16), Nat.digitChar (c.toNat % 16)]
  else [c]

/-- `Quote (Text)`. -/
def quoteText (text : Bytes) : Bytes := [0x22] ++ text.flatMap quoteByte ++ [0x22]

/-! ## `Canonical` -/

/-- The loop that collects the children from `c` on: `Order` has room for `room` more. -/
def siblings (D : Document) : Nat → Index → Option (List Index)
  | room, c =>
    if c = 0 then some []
    else match room with
    | 0 => none
    | room + 1 => (siblings D room (D.items c).next).map (c :: ·)

/-- `D.Items (i).Name > D.Items (j).Name`. -/
def nameAfter (D : Document) (i j : Index) : Bool :=
  decide ((D.items j).name.map UInt8.toNat < (D.items i).name.map UInt8.toNat)

/-- Pieces separated by commas. -/
def joinBytes (pieces : List Bytes) : Bytes := [(0x2c : UInt8)].intercalate pieces

/-- `Canonical (D, I)`, with a bound on the nesting. -/
def canonicalWithin (D : Document) : Nat → Index → Option Bytes
  | 0, _ => none
  | fuel + 1, i =>
    if i = 0 then none
    else match (D.items i).form with
    | .string => some (quoteText (D.items i).text)
    | .number | .bool => some (D.items i).text
    | .null => some (utf8 ['n', 'u', 'l', 'l'])
    | .object => do
        let order ← siblings D 1024 (D.items i).child
        let pieces ← (sortDown (nameAfter D) order).mapM fun j =>
          (canonicalWithin D fuel j).map fun value => quoteText (D.items j).name ++ [0x3a] ++ value
        some ([0x7b] ++ joinBytes pieces ++ [0x7d])
    | .array => do
        let order ← siblings D 1024 (D.items i).child
        let pieces ← order.mapM fun j => canonicalWithin D fuel j
        some ([0x5b] ++ joinBytes pieces ++ [0x5d])

/-- `Canonical (D, I)`. No path of child links in a tree is longer than the number of nodes. -/
def canonical (D : Document) (i : Index) : Option Bytes := canonicalWithin D 1025 i

/-! ## `Fields` -/

/-- The search of `Fields`: `|Name|` occurs in `|Allowed|`. -/
def Found (allowed name : Bytes) : Prop := 0x7c :: (name ++ [0x7c]) <:+: 0x7c :: (allowed ++ [0x7c])

instance (allowed name : Bytes) : Decidable (Found allowed name) := inferInstanceAs (Decidable (_ <:+: _))

/-- The loop of `Fields` over the children from `c` on; `some false` stands for `raise Invalid`. -/
def fieldsFrom (D : Document) (allowed : Bytes) : Nat → Index → Option Bool
  | room, c =>
    if c = 0 then some true
    else match room with
    | 0 => none
    | room + 1 =>
      if Found allowed (D.items c).name then fieldsFrom D allowed room (D.items c).next else some false

/-- `Fields (D, I, Allowed)`. -/
def fields (D : Document) (i : Index) (allowed : Bytes) : Option Bool :=
  if (D.items i).form ≠ .object then some false else fieldsFrom D allowed 1024 (D.items i).child

/-! ## The value of a node -/

mutual

/-- The node `i` stands for the value. -/
def Holds (D : Document) (i : Index) : Json → Prop
  | .null => i ≠ 0 ∧ (D.items i).form = .null
  | .bool true => i ≠ 0 ∧ (D.items i).form = .bool ∧ (D.items i).text = utf8 ['t', 'r', 'u', 'e']
  | .bool false => i ≠ 0 ∧ (D.items i).form = .bool ∧ (D.items i).text = utf8 ['f', 'a', 'l', 's', 'e']
  | .int n => i ≠ 0 ∧ (D.items i).form = .number ∧ (D.items i).text = utf8 (decimal n)
  | .str s => i ≠ 0 ∧ (D.items i).form = .string ∧ (D.items i).text = utf8 s
  | .arr xs => i ≠ 0 ∧ (D.items i).form = .array ∧ HoldsItems D (D.items i).child xs
  | .obj ms => i ≠ 0 ∧ (D.items i).form = .object ∧ HoldsMembers D (D.items i).child ms
  | .foreign => False

/-- The chain of nodes from `c` on stands for the elements of an array. -/
def HoldsItems (D : Document) (c : Index) : List Json → Prop
  | [] => c = 0
  | x :: xs => Holds D c x ∧ HoldsItems D (D.items c).next xs

/-- The chain of nodes from `c` on stands for the members of an object. -/
def HoldsMembers (D : Document) (c : Index) : Members → Prop
  | [] => c = 0
  | (k, v) :: ms => (D.items c).name = utf8 k ∧ Holds D c v ∧ HoldsMembers D (D.items c).next ms

end

/-! ## Quoting -/

theorem quoteByte_high {b : UInt8} (h : 128 ≤ b.toNat) : quoteByte b = [b] := by
  have hne : ∀ c : UInt8, c.toNat < 128 → b ≠ c := by
    rintro c hc rfl
    omega
  have hlt : ¬ b < 0x20 := by
    exact not_lt.mpr (le_trans (by decide) h)
  simp only [quoteByte, hne 0x22 (by decide), hne 0x5c (by decide), hne 0x08 (by decide), hne 0x0c (by decide),
    hne 0x0a (by decide), hne 0x0d (by decide), hne 0x09 (by decide), hlt, or_self, if_false]

theorem utf8EncodeChar_high {c : Char} (h : 0x7f < c.toNat) : ∀ b ∈ String.utf8EncodeChar c, 128 ≤ b.toNat := by
  intro b hb
  have hmem : b.toNat ∈ utf8Code c := mem_map_of_mem hb
  rw [utf8Code_eq, if_neg (not_le.mpr h)] at hmem
  split_ifs at hmem <;> simp only [mem_cons, not_mem_nil, or_false] at hmem <;> omega

/-- `Quote` escapes byte by byte what Core-Go escapes character by character. -/
theorem quoteByte_char (c : Char) : (String.utf8EncodeChar c).flatMap quoteByte = utf8 (Go.writeRune c) := by
  by_cases h : 0x7f < c.toNat
  · have hby : (String.utf8EncodeChar c).flatMap quoteByte = (String.utf8EncodeChar c).flatMap fun b => [b] :=
      flatMap_congr fun b hb => quoteByte_high (utf8EncodeChar_high h b hb)
    have hrune : Go.writeRune c = [c] := by
      rw [Go.writeRune_eq]
      exact Node.escape_raw (le_of_lt h)
    rw [hby, hrune]
    simp [utf8]
  have hascii : ∀ n, n < 128 →
      (String.utf8EncodeChar (Char.ofNat n)).flatMap quoteByte = utf8 (Go.writeRune (Char.ofNat n)) := by
    decide +kernel
  have := hascii c.toNat (by omega)
  rwa [Char.ofNat_toNat] at this

theorem quoteText_utf8 (s : Text) : quoteText (utf8 s) = utf8 (quote Go.writeRune s) := by
  have hbody : (utf8 s).flatMap quoteByte = utf8 (s.flatMap Go.writeRune) := by
    unfold utf8
    rw [flatMap_assoc, flatMap_assoc]
    exact flatMap_congr fun c _ => quoteByte_char c
  rw [quoteText, hbody, quote, Go.utf8_append]
  rfl

theorem utf8_cons (c : Char) (s : Text) : utf8 (c :: s) = utf8 [c] ++ utf8 s := Go.utf8_append [c] s

theorem joinBytes_utf8 (pcs : List Text) : joinBytes (pcs.map utf8) = utf8 (commaSep pcs) := by
  induction pcs with
  | nil => rfl
  | cons p ps ih =>
    cases ps with
    | nil => simp [joinBytes, commaSep, intercalate]
    | cons q qs =>
      have hcomma : utf8 (',' :: commaSep (q :: qs)) = 0x2c :: utf8 (commaSep (q :: qs)) := rfl
      rw [commaSep_cons_cons, Go.utf8_append, hcomma, ← ih]
      simp [joinBytes, intercalate]

/-! ## The chain of children -/

/-- The indices of a chain of siblings. -/
inductive Chain (D : Document) : Index → List Index → Prop where
  | nil : Chain D 0 []
  | cons {c : Index} {is : List Index} (hc : c ≠ 0) (htail : Chain D (D.items c).next is) : Chain D c (c :: is)

variable {ms : Members} {nfc : Text → Text} {v : Json}

section

variable {D : Document}

variable {c : Index}

theorem Chain.unique {is js : List Index} (h : Chain D c is) (h' : Chain D c js) : is = js := by
  induction h generalizing js with
  | nil =>
    cases h' with
    | nil => rfl
    | cons hc _ => exact absurd rfl hc
  | cons hc _ ih =>
    cases h' with
    | nil => exact absurd rfl hc
    | cons _ htail' => rw [ih htail']

/-- From an index on the chain, the chain goes on as the list does. -/
theorem Chain.suffix {c d : Index} {is js : List Index} (h : Chain D c (is ++ d :: js)) : Chain D d (d :: js) := by
  induction is generalizing c with
  | nil =>
    cases h with
    | cons hc htail => exact .cons hc htail
  | cons i is ih =>
    cases h with
    | cons _ htail => exact ih htail

variable {is : List Index}

theorem Chain.nodup (h : Chain D c is) : is.Nodup := by
  induction h with
  | nil => exact nodup_nil
  | @cons c is hc htail ih =>
    refine nodup_cons.mpr ⟨fun hmem => ?_, ih⟩
    obtain ⟨front, back, rfl⟩ := append_of_mem hmem
    -- the chain from `c` would be both the whole list and a part of its tail
    have hlen := congrArg length (htail.suffix.unique (.cons hc htail))
    simp only [length_cons, length_append] at hlen
    omega

theorem Chain.ne_zero (h : Chain D c is) : ∀ i ∈ is, i ≠ 0 := by
  induction h with
  | nil => simp
  | cons hc _ ih => exact forall_mem_cons.mpr ⟨hc, ih⟩

/-- At most 1024 nodes are on a chain: index 0 is none. -/
theorem Chain.length_le (h : Chain D c is) : is.length ≤ 1024 := by
  have hnd : (0 :: is).Nodup := nodup_cons.mpr ⟨fun h0 => h.ne_zero 0 h0 rfl, h.nodup⟩
  have hcard := hnd.length_le_card
  rw [Fintype.card_fin, length_cons] at hcard
  omega

theorem Chain.siblings (h : Chain D c is) {room : Nat} (hroom : is.length ≤ room) : siblings D room c = some is := by
  induction h generalizing room with
  | nil => unfold Ada.siblings; rfl
  | cons hc _ ih =>
    obtain ⟨room, rfl⟩ : ∃ n, room = n + 1 := ⟨room - 1, by simp at hroom; omega⟩
    unfold Ada.siblings
    rw [if_neg hc]
    dsimp only
    rw [ih (by simpa using hroom)]
    rfl

theorem Holds.ne_zero {i : Index} (h : Holds D i v) : i ≠ 0 := by
  cases v with
  | bool b => cases b <;> exact h.1
  | foreign => exact absurd h (by simp [Holds])
  | _ => exact h.1

theorem HoldsItems.chain {xs : List Json} (h : HoldsItems D c xs) :
    ∃ is, Chain D c is ∧ List.Forall₂ (Holds D) is xs := by
  induction xs generalizing c with
  | nil =>
    obtain rfl : c = 0 := h
    exact ⟨[], .nil, .nil⟩
  | cons x xs ih =>
    obtain ⟨is, hchn, hall⟩ := ih h.2
    exact ⟨c :: is, .cons h.1.ne_zero hchn, .cons h.1 hall⟩

/-- A node that stands for a member: its name and its value. -/
def HoldsMember (D : Document) (i : Index) (m : Text × Json) : Prop := (D.items i).name = utf8 m.1 ∧ Holds D i m.2

theorem HoldsMembers.chain (h : HoldsMembers D c ms) : ∃ is, Chain D c is ∧ List.Forall₂ (HoldsMember D) is ms := by
  induction ms generalizing c with
  | nil =>
    obtain rfl : c = 0 := h
    exact ⟨[], .nil, .nil⟩
  | cons m ms ih =>
    obtain ⟨is, hchn, hall⟩ := ih h.2.2
    exact ⟨c :: is, .cons h.2.1.ne_zero hchn, .cons ⟨h.1, h.2.1⟩ hall⟩

/-! ## The walk -/

/-- `D.Items (i).Name > D.Items (j).Name` for the members. -/
def memberAfter (m m' : Text × Json) : Bool := decide (Go.byteCodes m'.1 < Go.byteCodes m.1)

theorem sortDown_memberAfter (h : (ms.map Prod.fst).Nodup) : sortDown memberAfter ms = sortBy Go.byteCodes ms := by
  have hperm := sortDown_perm memberAfter ms
  rw [← sortBy_eq_self (sortDown_pairwise memberAfter ms (fun _ _ => decide_eq_true_iff))]
  exact sortBy_canonical Go.byteCodes_injective hperm (((hperm.map _).nodup_iff).mpr h)

/-- The nodes of an object, sorted by name, are the nodes of the sorted members. -/
theorem sorted_nodes (hall : List.Forall₂ (HoldsMember D) is ms) (hnd : (ms.map Prod.fst).Nodup) :
    List.Forall₂ (HoldsMember D) (sortDown (nameAfter D) is) (sortBy Go.byteCodes ms) := by
  rw [← sortDown_memberAfter hnd]
  refine sortDown_forall₂ ?_ hall
  intro i m hm j m' hm'
  rw [nameAfter, hm.1, hm'.1]
  rfl

theorem mapM_forall₂ {α β γ : Type} {R : α → β → Prop} {f : α → Option γ} {g : β → γ} {as : List α} {bs : List β}
    (h : List.Forall₂ R as bs) (hf : ∀ a b, b ∈ bs → R a b → f a = some (g b)) : as.mapM f = some (bs.map g) := by
  induction h with
  | nil => rfl
  | cons hab _ ih =>
    rw [mapM_cons, hf _ _ mem_cons_self hab, ih fun a b hb => hf a b (mem_cons_of_mem _ hb)]
    rfl

/-- **The walk of `Canonical`** over the node of a portable document gives its rendering with sorted keys. -/
theorem canonicalWithin_holds {d : Nat} (hv : Admissible nfc 16 d v) {i : Index} (hi : Holds D i v) {fuel : Nat}
    (hfuel : 17 ≤ fuel + d) :
    canonicalWithin D (fuel + 1) i = some (utf8 (render Go.writeRune (arrange Go.sortStrings v))) := by
  induction hv generalizing i fuel with
  | null hdep =>
    rw [canonicalWithin, if_neg hi.1, hi.2]
    rfl
  | @bool _ b hdep =>
    cases b <;>
    · rw [canonicalWithin, if_neg hi.1, hi.2.1, hi.2.2]
      rfl
  | int hdep =>
    rw [canonicalWithin, if_neg hi.1, hi.2.1, hi.2.2]
    rfl
  | str hdep =>
    rw [canonicalWithin, if_neg hi.1, hi.2.1, hi.2.2]
    rw [quoteText_utf8]
    rfl
  | @arr d xs hdep hxs ih =>
    obtain ⟨fuel, rfl⟩ : ∃ n, fuel = n + 1 := ⟨fuel - 1, by omega⟩
    obtain ⟨is, hchn, hall⟩ := hi.2.2.chain
    have hpiec := mapM_forall₂ (f := canonicalWithin D (fuel + 1)) hall fun j x hx hj => ih x hx hj (by omega)
    have hjoin : joinBytes (xs.map fun x => utf8 (render Go.writeRune (arrange Go.sortStrings x)))
        = utf8 (commaSep (renderAll Go.writeRune (arrangeAll Go.sortStrings xs))) := by
      rw [renderAll_eq_map, arrangeAll_eq_map, map_map, ← joinBytes_utf8, map_map]
      rfl
    rw [canonicalWithin, if_neg hi.1, hi.2.1]
    rw [hchn.siblings hchn.length_le]
    simp only [Option.bind_eq_bind, Option.bind_some, hpiec, hjoin]
    rw [arrange, render, utf8_cons, Go.utf8_append]
    rfl
  | @obj d ms hdep hnd hkeys hvls ih =>
    obtain ⟨fuel, rfl⟩ : ∃ n, fuel = n + 1 := ⟨fuel - 1, by omega⟩
    obtain ⟨is, hchn, hall⟩ := hi.2.2.chain
    let piece : Text × Json → Text := fun m =>
      quote Go.writeRune m.1 ++ ':' :: render Go.writeRune (arrange Go.sortStrings m.2)
    have hpiec : (sortDown (nameAfter D) is).mapM (fun j => (canonicalWithin D (fuel + 1) j).map fun value =>
        quoteText (D.items j).name ++ [0x3a] ++ value) = some ((sortBy Go.byteCodes ms).map (utf8 ∘ piece)) := by
      refine mapM_forall₂ (sorted_nodes hall hnd) fun j m hm hj => ?_
      have hvl : canonicalWithin D (fuel + 1) j = _ := ih m ((sortBy_perm _ ms).mem_iff.mp hm) hj.2 (by omega)
      rw [hvl, hj.1, quoteText_utf8, Option.map_some, append_assoc]
      show _ = some (utf8 (piece m))
      rw [Go.utf8_append]
      rfl
    have hjoin : joinBytes ((sortBy Go.byteCodes ms).map (utf8 ∘ piece))
        = utf8 (commaSep (renderMembers Go.writeRune (sortBy Go.byteCodes (arrangeMembers Go.sortStrings ms)))) := by
      rw [renderMembers_eq_map, arrangeMembers_eq_map, sortBy_mapValues, map_map, ← map_map, joinBytes_utf8]
      rfl
    rw [canonicalWithin, if_neg hi.1, hi.2.1]
    dsimp only
    rw [hchn.siblings hchn.length_le]
    simp only [Option.bind_eq_bind, Option.bind_some, hpiec, hjoin]
    rw [arrange, render, utf8_cons, Go.utf8_append]
    rfl

end

/-! ## Laying a value out -/

mutual

/-- How many nodes a value takes. -/
def nodes : Json → Nat
  | .arr xs => nodesItems xs + 1
  | .obj ms => nodesMembers ms + 1
  | .null | .bool _ | .int _ | .str _ | .foreign => 1

def nodesItems : List Json → Nat
  | [] => 0
  | x :: xs => nodes x + nodesItems xs

def nodesMembers : Members → Nat
  | [] => 0
  | (_, v) :: ms => nodes v + nodesMembers ms

end

/-- The index of the `n`-th node. -/
def index (n : Nat) : Index := Fin.ofNat 1025 n

/-- The link to what comes next, if anything does. -/
def link (n : Nat) (last : Bool) : Index := if last then 0 else index n

mutual

/-- The nodes of a value in the order in which `Parse` takes them, from index `start` on: a container, then
    its children one after the other. -/
def layout (start : Nat) (name : Bytes) (next : Index) : Json → List Node
  | .null | .foreign => [{ form := .null, name, next }]
  | .bool true => [{ form := .bool, text := utf8 ['t', 'r', 'u', 'e'], name, next }]
  | .bool false => [{ form := .bool, text := utf8 ['f', 'a', 'l', 's', 'e'], name, next }]
  | .int n => [{ form := .number, text := utf8 (decimal n), name, next }]
  | .str s => [{ form := .string, text := utf8 s, name, next }]
  | .arr xs => { form := .array, child := link (start + 1) xs.isEmpty, name, next } :: layoutItems (start + 1) xs
  | .obj ms => { form := .object, child := link (start + 1) ms.isEmpty, name, next } :: layoutMembers (start + 1) ms

def layoutItems (start : Nat) : List Json → List Node
  | [] => []
  | x :: xs => layout start [] (link (start + nodes x) xs.isEmpty) x ++ layoutItems (start + nodes x) xs

def layoutMembers (start : Nat) : Members → List Node
  | [] => []
  | (k, v) :: ms =>
    layout start (utf8 k) (link (start + nodes v) ms.isEmpty) v ++ layoutMembers (start + nodes v) ms

end

/-- The document of a value, its root at index 1. -/
def represent (v : Json) : Document where
  items i := ((layout 1 [] 0 v)[i.val - 1]?).getD {}

mutual

theorem length_layout (sta : Nat) (nm : Bytes) (nx : Index) :
    (v : Json) → (layout sta nm nx v).length = nodes v
  | .null | .foreign | .int _ | .str _ => rfl
  | .bool b => by cases b <;> rfl
  | .arr xs => by rw [layout, nodes, length_cons, length_layoutItems (sta + 1) xs]
  | .obj ms => by rw [layout, nodes, length_cons, length_layoutMembers (sta + 1) ms]

theorem length_layoutItems (sta : Nat) : (xs : List Json) → (layoutItems sta xs).length = nodesItems xs
  | [] => rfl
  | x :: xs => by rw [layoutItems, nodesItems, length_append, length_layout, length_layoutItems _ xs]

theorem length_layoutMembers (sta : Nat) : (ms : Members) → (layoutMembers sta ms).length = nodesMembers ms
  | [] => rfl
  | (k, v) :: ms => by rw [layoutMembers, nodesMembers, length_append, length_layout, length_layoutMembers _ ms]

end

/-- The nodes stand in the document from `start` on, and there is room for them. -/
structure Placed (D : Document) (start : Nat) (ns : List Node) : Prop where
  pos : 0 < start
  room : start + ns.length ≤ 1025
  items : ∀ k node, ns[k]? = some node → D.items (index (start + k)) = node

variable {s0 : Nat}

theorem Placed.head {D : Document} {node : Node} {ns : List Node} (h : Placed D s0 (node :: ns)) :
    index s0 ≠ 0 ∧ D.items (index s0) = node := by
  refine ⟨?_, h.items 0 node rfl⟩
  have hlt : s0 < 1025 := by have := h.room; simp only [length_cons] at this; omega
  intro hzero
  have hval := congrArg Fin.val hzero
  rw [index, Fin.val_ofNat, Nat.mod_eq_of_lt hlt] at hval
  exact absurd hval (Nat.pos_iff_ne_zero.mp h.pos)

theorem Placed.left {D : Document} {ns ms : List Node} (h : Placed D s0 (ns ++ ms)) : Placed D s0 ns where
  pos := h.pos
  room := by have := h.room; rw [length_append] at this; omega
  items k node hk := h.items k node (by
    rw [List.getElem?_append_left (List.getElem?_eq_some_iff.mp hk).1, hk])

theorem Placed.right {D : Document} {ns ms : List Node} (h : Placed D s0 (ns ++ ms)) :
    Placed D (s0 + ns.length) ms where
  pos := by have := h.pos; omega
  room := by have := h.room; rw [length_append] at this; omega
  items k node hk := by
    rw [add_assoc]
    exact h.items _ node (by rwa [getElem?_append_right (Nat.le_add_right _ _), Nat.add_sub_cancel_left])

theorem Placed.tail {D : Document} {nd : Node} {ns : List Node} (h : Placed D s0 (nd :: ns)) :
    Placed D (s0 + 1) ns := by
  have hall : Placed D s0 ([nd] ++ ns) := h
  exact hall.right

/-- The first node of a value that is laid out holds it, under the given name and link. -/
def HeldAt (D : Document) (start : Nat) (v : Json) (name : Bytes) (next : Index) : Prop :=
  Holds D (index start) v ∧ (D.items (index start)).name = name ∧ (D.items (index start)).next = next

section

variable {D : Document}

theorem holdsItems_layout {xs : List Json}
    (ih : ∀ x ∈ xs, ∀ s0 nm next, Placed D s0 (layout s0 nm next x) → HeldAt D s0 x nm next)
    (h : Placed D s0 (layoutItems s0 xs)) : HoldsItems D (link s0 xs.isEmpty) xs := by
  induction xs generalizing s0 with
  | nil => rfl
  | cons x xs ihxs =>
    obtain ⟨hx, -, hnx⟩ := ih x mem_cons_self _ _ _ h.left
    have hrs := h.right
    rw [length_layout] at hrs
    refine ⟨hx, ?_⟩
    show HoldsItems D (D.items (index s0)).next xs
    rw [hnx]
    exact ihxs (fun y hy => ih y (mem_cons_of_mem _ hy)) hrs

theorem holdsMembers_layout
    (ih : ∀ m ∈ ms, ∀ s0 nm next, Placed D s0 (layout s0 nm next m.2) → HeldAt D s0 m.2 nm next)
    (h : Placed D s0 (layoutMembers s0 ms)) : HoldsMembers D (link s0 ms.isEmpty) ms := by
  induction ms generalizing s0 with
  | nil => rfl
  | cons m ms ihms =>
    obtain ⟨hv, hname, hnx⟩ := ih _ mem_cons_self _ _ _ h.left
    have hrs := h.right
    rw [length_layout] at hrs
    refine ⟨hname, hv, ?_⟩
    show HoldsMembers D (D.items (index s0)).next ms
    rw [hnx]
    exact ihms (fun m' hm' => ih m' (mem_cons_of_mem _ hm')) hrs

theorem held_layout {d : Nat} (hv : Admissible nfc 16 d v) (start : Nat) (name : Bytes) (next : Index)
    (h : Placed D start (layout start name next v)) : HeldAt D start v name next := by
  induction hv generalizing start name next with
  | null | int | str =>
    obtain ⟨hne, hit⟩ := h.head
    simp [HeldAt, Holds, hit, hne]
  | @bool _ b =>
    cases b <;>
    · obtain ⟨hne, hit⟩ := h.head
      simp [HeldAt, Holds, hit, hne]
  | @arr d xs _ _ ih =>
    obtain ⟨hne, hit⟩ := h.head
    have hitems := holdsItems_layout (fun x hx => ih x hx) h.tail
    simpa [HeldAt, Holds, hit, hne] using hitems
  | @obj d ms _ _ _ _ ih =>
    obtain ⟨hne, hit⟩ := h.head
    have hms := holdsMembers_layout (fun m hm => ih m hm) h.tail
    simpa [HeldAt, Holds, hit, hne] using hms

end

/-- Every portable document of at most 1024 values is the value of a document. -/
theorem holds_represent (hv : Admissible nfc 16 0 v) (hroom : nodes v ≤ 1024) : Holds (represent v) 1 v := by
  refine (held_layout hv 1 [] 0 ⟨Nat.one_pos, ?_, ?_⟩).1
  · rw [length_layout]
    omega
  · intro k nd hk
    have hlt := (List.getElem?_eq_some_iff.mp hk).1
    rw [length_layout] at hlt
    have hval : (index (1 + k)).val = 1 + k := Nat.mod_eq_of_lt (by omega)
    show ((layout 1 [] 0 v)[(index (1 + k)).val - 1]?).getD {} = nd
    rw [hval, Nat.add_sub_cancel_left, hk, Option.getD_some]

/-! ## The field check -/

theorem Chain.fieldsFrom {D : Document} {c : Index} {is : List Index} (h : Chain D c is) (allowed : Bytes) {room : Nat}
    (hroom : is.length ≤ room) : fieldsFrom D allowed room c = some (decide (∀ i ∈ is, Found allowed (D.items i).name)) := by
  induction h generalizing room with
  | nil => unfold Ada.fieldsFrom; simp
  | @cons c is hc _ ih =>
    obtain ⟨room, rfl⟩ : ∃ n, room = n + 1 := ⟨room - 1, by simp at hroom; omega⟩
    unfold Ada.fieldsFrom
    rw [if_neg hc]
    dsimp only
    rw [ih (by simpa using hroom)]
    by_cases hfound : Found allowed (D.items c).name <;> simp [hfound]

/-- **The field check.** `Fields` ends on every object. It accepts exactly the objects whose member names are all listed,
    unless an object has a name with a bar in it and all its names are found. -/
theorem fields_listed {D : Document} {i : Index} {is : List Index} (hobject : (D.items i).form = .object)
    (hmembers : Chain D (D.items i).child is) (allowed : Bytes) :
    (fields D i allowed).isSome = true ∧
    (fields D i allowed = some (decide (∀ c ∈ is, (D.items c).name ∈ allowed.splitOn 0x7c)) ↔
      ((∃ c ∈ is, 0x7c ∈ (D.items c).name) → ∃ c ∈ is, ¬ Found allowed (D.items c).name)) := by
  have hfields : fields D i allowed = some (decide (∀ c ∈ is, Found allowed (D.items c).name)) := by
    rw [fields, if_neg (not_not.mpr hobject)]
    exact hmembers.fieldsFrom allowed hmembers.length_le
  rw [hfields, Option.some.injEq, decide_eq_decide]
  refine ⟨rfl, ?_⟩
  have hlisted : ∀ c, (D.items c).name ∈ allowed.splitOn 0x7c ↔
      0x7c ∉ (D.items c).name ∧ Found allowed (D.items c).name := fun c => mem_splitOn_iff allowed
  simp only [hlisted]
  constructor
  · rintro hiff ⟨c, hc, hbar⟩
    by_contra hnone
    simp only [not_exists, not_and, not_not] at hnone
    exact (hiff.mp hnone c hc).1 hbar
  · intro hcond
    refine ⟨fun hall c hc => ⟨fun hbar => ?_, hall c hc⟩, fun hall c hc => (hall c hc).2⟩
    obtain ⟨c', hc', hnot⟩ := hcond ⟨c, hc, hbar⟩
    exact hnot (hall c' hc')

/-- A trust file with its two members, and one with a name that has a bar in it. -/
def trustDocument (name : Text) : Document := represent (.obj [("domain", .null), (name, .null)])

theorem fields_listed_trust : fields (trustDocument "mods") 1 (utf8 "mods|domain") = some true ∧
    fields (trustDocument "x|y") 1 (utf8 "mods|domain") = some false := by
  have hmods : Chain (trustDocument "mods") 2 [2, 3] := .cons (by decide) (.cons (by decide) .nil)
  have hbar : Chain (trustDocument "x|y") 2 [2, 3] := .cons (by decide) (.cons (by decide) .nil)
  rw [(fields_listed rfl hmods _).2.mpr (by decide +kernel), (fields_listed rfl hbar _).2.mpr (by decide +kernel)]
  decide +kernel

/-- A member whose name spans two of the listed names is accepted. -/
theorem fields_spans :
    fields (represent (.obj [("mods|domain", .null)])) 1 (utf8 "mods|domain") = some true ∧
    utf8 "mods|domain" ∉ (utf8 "mods|domain").splitOn 0x7c := by
  decide +kernel

end Ada

/-! ## The three serializers agree -/

/-- **Canonical agreement.** For every portable document the tool signs, Core-Go writes and Core-Ada gives the
    same bytes; in Core-Ada the document may lie in the node array in any way, and there is one for every
    document of at most 1024 values. -/
theorem canonical_agree {nfc : Text → Text} {v : Json} (hv : Admissible nfc 16 0 v) :
    ∃ bytes, Ctl.signedJson v = .ok bytes ∧ Go.writePortableJSON nfc [] v 0 = .ok bytes ∧
      (∀ D i, Ada.Holds D i v → Ada.canonical D i = some bytes) ∧
      (Ada.nodes v ≤ 1024 → Ada.Holds (Ada.represent v) 1 v) := by
  refine ⟨utf8 (Ctl.dumpsUnicode v), ?_, Go.writePortableJSON_eq hv, ?_, Ada.holds_represent hv⟩
  · rw [Ctl.signedJson, Ctl.validatePayload_ok hv]
  · intro D i hi
    have hescape : render Go.writeRune (arrange Python.sortKeys v) = Ctl.dumpsUnicode v :=
      render_congr fun _ _ c _ => Go.writeRune_eq c
    rw [Ada.canonical, Ada.canonicalWithin_holds hv hi (by decide), Go.arrange_sortStrings, hescape]

/-- A document with keys out of order, a control character and a character above ASCII. -/
def sampleDocument : Json :=
  .obj [(['b'], .arr [.int (-1), .null, .bool true]), (['a'], .str [Char.ofNat 0xe9, '\n', '"'])]

theorem sampleDocument_admissible : Admissible id 16 0 sampleDocument := by
  have hport : ∀ s ∈ [['b'], ['a'], [Char.ofNat 0xe9, '\n', '"']], PortableString id s := by
    intro s hs
    refine ⟨?_, ?_, rfl⟩
    · revert s; decide
    · revert s; decide
  refine .obj (by decide) (by decide) ?_ ?_
  · intro m hm
    simp only [mem_cons, not_mem_nil, or_false] at hm
    rcases hm with rfl | rfl <;> exact hport _ (by simp)
  intro m hm
  simp only [mem_cons, not_mem_nil, or_false] at hm
  rcases hm with rfl | rfl
  · refine .arr (by decide) fun x hx => ?_
    simp only [mem_cons, not_mem_nil, or_false] at hx
    rcases hx with rfl | rfl | rfl
    · exact .int (by decide) (by decide)
    · exact .null (by decide)
    · exact .bool (by decide)
  · exact .str (by decide) (hport _ (by simp))

theorem canonical_agree_sample : ∃ bytes, Ctl.signedJson sampleDocument = .ok bytes ∧
    Go.writePortableJSON id [] sampleDocument 0 = .ok bytes ∧
    Ada.canonical (Ada.represent sampleDocument) 1 = some bytes := by
  obtain ⟨bytes, hctl, hgo, hada, hheld⟩ := canonical_agree sampleDocument_admissible
  exact ⟨bytes, hctl, hgo, hada _ _ (hheld (by decide))⟩

end Shadow6.Crosed
