import Mathlib.Data.Char
import Mathlib.Data.List.Lex
import Shadow6.Library.Dict
import Shadow6.Portable.Python

/-!
# `Public6.Negotiation` — what two offers have in common

`validate_offer` and `negotiate` of `Public6/shadow6_public.py`, on documents whose fields have the right types; `none`
is a `Public6Error`. An agreement is made of intersections, so it is the same for both sides. Of a protocol it has the
highest common version, and nothing if there is none.
-/

namespace Shadow6.Public6.Negotiation

open Library Json List Dict Portable

abbrev Groups (α : Type) := Dict Text (List α)

structure Offer where
  core : Text × Text
  applications : Groups Int
  dimensions : Groups Text
  extensions : Groups Int

/-- `CORE_FAMILIES`. -/
def coreFamilies : List Text :=
  ["go", "rust", "gleam", "ada", "nim", "pony", "zig", "d", "cpp", "idris", "hare", "carp"].map fun core : String =>
    ("shadow6-" ++ core).toList

/-- What follows a number, and what follows a point. -/
def afterNumber (s : Text) : Option Text := if s.takeWhile Char.isDigit = [] then none else s.dropWhile Char.isDigit

def afterPoint : Text → Option Text
  | '.' :: s => some s
  | _ => none

/-- The optional last part of `VERSION`. -/
def isSuffix : Text → Bool
  | [] => true
  | c :: s => (c == '-' || c == '+') && 1 ≤ s.length && s.length ≤ 32 &&
    s.all fun c => c.isAlphanum || c == '.' || c == '-'

/-- `VERSION`. -/
def isVersion (s : Text) : Bool :=
  (afterNumber s >>= afterPoint >>= afterNumber >>= afterPoint >>= afterNumber).any isSuffix

/-- `IDENTIFIER`. -/
def isIdentifier : Text → Bool
  | [] => false
  | c :: rest => c.isLower && 1 ≤ rest.length && rest.length ≤ 63 &&
    rest.all fun c => c.isLower || c.isDigit || c == '.' || c == '-'

-- `unicodedata.normalize("NFC", value)`
variable (nfc : Text → Text)

def validateString (s : Text) : Bool :=
  s ≠ [] && s.length ≤ 256 && (s.all fun c => 32 ≤ c.toNat) && nfc s = s && (utf8 s).length ≤ 256

variable {α β : Type} [LinearOrder α]

/-- `_validate_groups`, with the check of a value. -/
def validateGroups (check : α → Bool) (g : Groups α) : Option (Groups α) :=
  if g.size ≤ 128 ∧ ∀ e ∈ g.entries,
      isIdentifier e.1 ∧ e.2 ≠ [] ∧ e.2.length ≤ 128 ∧ (∀ x ∈ e.2, check x) ∧ e.2.Nodup then
    some (g.mapValues (insertionSort (· ≤ ·)))
  else none

def groupsJson {α : Type} (item : α → Json) (g : Groups α) : Json := .obj (g.entries.map fun e => (e.1, .arr (e.2.map item)))

/-- The document of an offer. -/
def Offer.document (o : Offer) : Json :=
  .obj [("schema_version", .int 1), ("suite", .str "public6"),
    ("core", .obj [("family", .str o.core.1), ("version", .str o.core.2)]),
    ("applications", groupsJson .int o.applications), ("dimensions", groupsJson .str o.dimensions),
    ("extensions", groupsJson .int o.extensions)]

def validateOffer (o : Offer) : Option Offer := do
  guard (validateString nfc o.core.1 && validateString nfc o.core.2)
  guard (o.core.1 ∈ coreFamilies ∧ isVersion o.core.2)
  let result := Offer.mk o.core (← validateGroups (fun v => 1 ≤ v && v ≤ 65535) o.applications)
    (← validateGroups (validateString nfc) o.dimensions)
    (← validateGroups (fun v => 1 ≤ v && v ≤ 65535) o.extensions)
  guard ((Python.dumps result.document).length ≤ 1048576)
  return result

variable (a b : Groups α) (name : Text)

/-- `sorted(set(local[name]) & set(peer[name]))`. -/
def common : List α := (((a.find? name).getD []).toFinset ∩ ((b.find? name).getD []).toFinset).sort

/-- `_intersection`, with what is taken of the common values. -/
def intersection (take : List α → Option β) : List (Text × β) :=
  ((a.entries.map Prod.fst).toFinset ∩ (b.entries.map Prod.fst).toFinset).sort.filterMap fun name =>
    (take (common a b name)).map (name, ·)

def ifAny (l : List α) : Option (List α) := if l = [] then none else some l

structure Agreement where
  compatible : Bool
  reason : String
  core : Option (Text × Text)
  applications : List (Text × Int)
  dimensions : List (Text × List Text)
  extensions : List (Text × Int)

def incompatible : Agreement := ⟨false, "Core family and version must match exactly", none, [], [], []⟩

/-- `negotiate`, on offers that are valid. -/
def agree (mine peer : Offer) : Agreement :=
  if mine.core ≠ peer.core then incompatible
  else ⟨true, "", some mine.core, intersection mine.applications peer.applications getLast?,
    intersection mine.dimensions peer.dimensions ifAny,
    intersection mine.extensions peer.extensions getLast?⟩

def negotiate (mine peer : Offer) : Option Agreement :=
  (validateOffer nfc mine).bind fun mine => (validateOffer nfc peer).map (agree mine)

/-- The protocols: the applications or the extensions. -/
def Offer.protocols (o : Offer) (kind : Bool) : Groups Int := if kind then o.applications else o.extensions

def Agreement.protocols (r : Agreement) (kind : Bool) : List (Text × Int) := if kind then r.applications else r.extensions

/-- A value is offered under a name. -/
def Offered (x : α) : Prop := ∃ l, a.find? name = some l ∧ x ∈ l

/-- The highest common version. -/
def Highest (v : α) : Prop := Offered a name v ∧ Offered b name v ∧ ∀ w, Offered a name w → Offered b name w → w ≤ v

/-- What two offers have in common: the highest common version of each protocol with one, and the common dimensions. -/
structure Agrees (o p : Offer) (r : Agreement) : Prop where
  compatible : r.compatible = true
  highest : ∀ kind name v, (name, v) ∈ r.protocols kind → Highest (o.protocols kind) (p.protocols kind) name v
  covers : ∀ kind name x, Offered (o.protocols kind) name x → Offered (p.protocols kind) name x →
    ∃ v, x ≤ v ∧ (name, v) ∈ r.protocols kind
  dimensions : ∀ name x,
    (∃ l, (name, l) ∈ r.dimensions ∧ x ∈ l) ↔ Offered o.dimensions name x ∧ Offered p.dimensions name x

variable {a b name} {nfc}

theorem mem_common {x : α} : x ∈ common a b name ↔ Offered a name x ∧ Offered b name x := by
  unfold common Offered
  cases a.find? name <;> cases b.find? name <;> simp

theorem intersection_comm (a b : Groups α) (take : List α → Option β) : intersection a b take = intersection b a take := by
  simp only [intersection, common, Finset.inter_comm]

theorem mem_intersection {t : List α → Option β} (htake : t [] = none) {y : β} :
    (name, y) ∈ intersection a b t ↔ t (common a b name) = some y := by
  simp only [intersection, mem_filterMap, Finset.mem_sort, Finset.mem_inter, mem_toFinset, Option.map_eq_some_iff,
    Prod.mk.injEq]
  constructor
  · rintro ⟨n, -, z, hz, rfl, rfl⟩
    exact hz
  · intro h
    have hne : common a b name ≠ [] := by
      intro heq
      rw [heq, htake] at h
      cases h
    obtain ⟨x, hx⟩ := exists_mem_of_ne_nil _ hne
    obtain ⟨⟨_, hl, -⟩, _, hm, -⟩ := mem_common.mp hx
    exact ⟨name, ⟨mem_of_find? hl, mem_of_find? hm⟩, y, h, rfl, rfl⟩

theorem highest_of_mem {v : α} (h : (name, v) ∈ intersection a b getLast?) : Highest a b name v := by
  obtain ⟨front, heq⟩ := getLast?_eq_some_iff.mp ((mem_intersection rfl).mp h)
  have hle : (front ++ [v]).Pairwise (· ≤ ·) := heq ▸ Finset.pairwise_sort _ _
  have hmem : ∀ w, w ∈ front ++ [v] ↔ Offered a name w ∧ Offered b name w := fun w => heq ▸ mem_common
  obtain ⟨hv, hv'⟩ := (hmem v).mp (by simp)
  refine ⟨hv, hv', fun w hw hw' => ?_⟩
  rcases mem_append.mp ((hmem w).mpr ⟨hw, hw'⟩) with hin | hin
  · exact (pairwise_append.mp hle).2.2 w hin v (mem_singleton_self v)
  · exact (mem_singleton.mp hin).le

theorem exists_highest {x : α} (h : Offered a name x) (h' : Offered b name x) :
    ∃ v, x ≤ v ∧ (name, v) ∈ intersection a b getLast? := by
  have hlast := getLast?_eq_some_getLast (ne_nil_of_mem (mem_common.mpr ⟨h, h'⟩))
  have hmem := (mem_intersection rfl).mpr hlast
  exact ⟨_, (highest_of_mem hmem).2.2 x h h', hmem⟩

theorem offered_validateGroups {ch : α → Bool} {g : Groups α} (h : validateGroups ch a = some g) {x : α} :
    Offered g name x ↔ Offered a name x := by
  unfold validateGroups at h
  split at h
  · cases h
    unfold Offered
    rw [find?_mapValues]
    cases a.find? name <;> simp
  · cases h

variable {o p : Offer} {r : Agreement}

theorem offered_validateOffer (h : validateOffer nfc o = some p) : p.core = o.core ∧
    (∀ k name x, Offered (p.protocols k) name x ↔ Offered (o.protocols k) name x) ∧
      ∀ name x, Offered p.dimensions name x ↔ Offered o.dimensions name x := by
  simp only [validateOffer, Option.bind_eq_bind, Option.bind_eq_some_iff] at h
  obtain ⟨-, -, -, -, _, ha, _, hd, _, he, -, -, h⟩ := h
  cases h
  refine ⟨rfl, fun k name x => ?_, fun name x => offered_validateGroups hd⟩
  cases k with
  | true => exact offered_validateGroups ha
  | false => exact offered_validateGroups he

/-- The ways a negotiation can end. -/
theorem negotiate_cases (h : negotiate nfc o p = some r) :
    o.core ≠ p.core ∧ r = incompatible ∨ o.core = p.core ∧ Agrees o p r := by
  obtain ⟨o', ho, h⟩ := Option.bind_eq_some_iff.mp h
  obtain ⟨p', hp, rfl⟩ := Option.map_eq_some_iff.mp h
  obtain ⟨hoc, hop, hod⟩ := offered_validateOffer ho
  obtain ⟨hpc, hpp, hpd⟩ := offered_validateOffer hp
  unfold agree
  rw [hoc, hpc]
  split
  · exact .inl ⟨‹_›, rfl⟩
  refine .inr ⟨not_not.mp ‹_›, rfl, fun k name v hv => ?_, fun k name x hx hx' => ?_, fun name x => ?_⟩
  · simp only [Highest, ← hop, ← hpp]
    cases k <;> exact highest_of_mem hv
  · rw [← hop] at hx
    rw [← hpp] at hx'
    cases k <;> exact exists_highest hx hx'
  · rw [← hod, ← hpd, ← mem_common]
    simp only [mem_intersection (rfl : ifAny [] = none), ifAny]
    constructor
    · rintro ⟨l, hl, hx⟩
      split at hl <;> cases hl
      exact hx
    · exact fun hx => ⟨_, if_neg (ne_nil_of_mem hx), hx⟩

theorem agree_comm (o p : Offer) : agree o p = agree p o := by
  unfold agree
  by_cases h : o.core = p.core
  · simp only [h, intersection_comm o.applications, intersection_comm o.dimensions, intersection_comm o.extensions]
  · rw [if_pos h, if_pos (Ne.symm h)]

/-- **The laws of negotiation**, for valid offers. Both sides get the same agreement: on nothing, or for one Core on
    what the offers have in common (`Agrees`). So an offer agrees with itself on its highest versions and all values, and
    with a longer offer no version that is agreed on gets lower. -/
theorem negotiation_laws (o p : Offer) (ho : validateOffer nfc o ≠ none) (hp : validateOffer nfc p ≠ none) :
    ∃ r, negotiate nfc o p = some r ∧ negotiate nfc p o = some r ∧
      (o.core ≠ p.core ∧ r = incompatible ∨ o.core = p.core ∧ Agrees o p r) ∧
      (∃ s, negotiate nfc o o = some s ∧ Agrees o o s) ∧ ∀ q t, negotiate nfc q p = some t → q.core = o.core →
        ∀ kind, (∀ name x, Offered (o.protocols kind) name x → Offered (q.protocols kind) name x) →
          ∀ name v, (name, v) ∈ r.protocols kind → ∃ w, v ≤ w ∧ (name, w) ∈ t.protocols kind := by
  obtain ⟨o', ho⟩ := Option.ne_none_iff_exists'.mp ho
  obtain ⟨p', hp⟩ := Option.ne_none_iff_exists'.mp hp
  have hr : negotiate nfc o p = some (agree o' p') := by simp [negotiate, ho, hp]
  have hs : negotiate nfc o o = some (agree o' o') := by simp [negotiate, ho]
  refine ⟨_, hr, by simp [negotiate, ho, hp, agree_comm], negotiate_cases hr, ⟨_, hs, ?_⟩, ?_⟩
  · exact ((negotiate_cases hs).resolve_left fun hne => hne.1 rfl).2
  intro q t ht hqo kind hinc name v hv
  rcases negotiate_cases hr with ⟨-, heq⟩ | ⟨hsame, hagr⟩
  · rw [heq] at hv
    cases kind <;> cases hv
  · obtain ⟨hvo, hvp, -⟩ := hagr.highest kind name v hv
    rcases negotiate_cases ht with ⟨hne, -⟩ | ⟨-, hlong⟩
    · exact absurd (hqo.trans hsame) hne
    · exact hlong.covers kind name v (hinc name v hvo) hvp

def chat : Text := "chat"

def sampleOffer (versions : List Int) (codecs : List Text) : Offer :=
  ⟨("shadow6-go", "1.0.0"), Dict.empty.set chat versions, Dict.empty.set "codec" codecs, Dict.empty.set "relay" [4]⟩

def localOffer : Offer := sampleOffer [1, 3, 2] ["opus", "pcm"]

def longerOffer : Offer := sampleOffer [5, 1, 2, 3] ["opus"]

def peerOffer : Offer := sampleOffer [3, 2, 5] ["opus"]

theorem offered_sampleOffer {versions : List Int} {codecs : List Text} {name : Text} {x : Int} :
    Offered ((sampleOffer versions codecs).protocols true) name x ↔ name = chat ∧ x ∈ versions := by
  show (∃ l, (Dict.empty.set chat versions).find? name = some l ∧ x ∈ l) ↔ _
  by_cases hname : name = chat
  · subst hname
    simp
  · simp [hname]

theorem negotiation_laws_sample : ∃ r, negotiate id localOffer peerOffer = some r ∧ Agrees localOffer peerOffer r ∧
    (chat, 3) ∈ r.applications ∧
    ∃ t w, negotiate id longerOffer peerOffer = some t ∧ 3 ≤ w ∧ (chat, w) ∈ t.applications := by
  have hlocal : validateOffer id localOffer ≠ none := by decide +kernel
  have hpeer : validateOffer id peerOffer ≠ none := by decide +kernel
  obtain ⟨r, hr, -, h, -, hlonger⟩ := negotiation_laws localOffer peerOffer hlocal hpeer
  have hagrees := (h.resolve_left fun hne => hne.1 rfl).2
  have hthree : (chat, 3) ∈ r.applications := by
    obtain ⟨v, hle, hv⟩ := hagrees.covers true chat 3 (offered_sampleOffer.mpr ⟨rfl, by decide⟩)
      (offered_sampleOffer.mpr ⟨rfl, by decide⟩)
    have hmine := (offered_sampleOffer.mp (hagrees.highest true chat v hv).1).2
    obtain rfl : v = 3 := by simp at hmine; omega
    exact hv
  obtain ⟨t, ht⟩ := Option.ne_none_iff_exists'.mp (show negotiate id longerOffer peerOffer ≠ none by decide +kernel)
  obtain ⟨w, hle, hw⟩ := hlonger longerOffer t ht rfl true (fun name x hx => by
    obtain ⟨rfl, hin⟩ := offered_sampleOffer.mp hx
    refine offered_sampleOffer.mpr ⟨rfl, ?_⟩
    simp at hin ⊢
    omega) chat 3 hthree
  exact ⟨r, hr, hagrees, hthree, t, w, ht, hle, hw⟩

/-- **A common protocol may be missing** from the agreement of two valid offers. -/
theorem common_protocol_missing :
    (negotiate id (sampleOffer [1] ["opus"]) (sampleOffer [2] ["opus"])).map (fun r => (r.compatible, r.applications)) =
      some (true, []) := by decide +kernel

end Shadow6.Public6.Negotiation
