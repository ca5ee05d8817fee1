import Shadow6.Library.Fallible
import Shadow6.Portable.Operators

/-!
# `Deployment.ConfigStore` — secrets of a managed configuration

`redact`, `merge_secrets`, `merge_array` and `ConfigStore.prepare` of `Deployment/config_store.py`. The owner of a
configuration sees it with its secrets redacted, and sends it back with `{"unchanged": true}` where a secret is to
stay; `merge_secrets` puts the stored secrets in again. It finds them by path: a member by its key, an element of an
array by its index.

A `Draft` is a document on its way back, in which each marker remembers the secret that it stands for. Elements of
arrays of objects may be deleted, inserted and permuted (`Draft.Edit`). The merge gives every marker its own secret
exactly if the stored configuration has this secret at the place where the marker now stands (`Draft.Aligned`), which
an element that was moved can miss.

`str.lower` is a parameter.
-/

namespace Shadow6.Deployment

open Library Json Portable List Python

/-! ## Keys -/

/-- `SECRET_KEYS`. -/
def secretKeys : List Text :=
  ["private_key", "secret", "shared_secret", "auth_key", "psk", "password", "key", "key_material", "tls_key",
    "tls_key_pem", "token", "bearer_token", "secret_key", "encryption_key"]

/-- `FORBIDDEN_KEYS`. -/
def forbiddenKeys : List Text :=
  ["on_success", "command", "shell", "post_command", "pre_command"]

/-- The test of `secret_key` on a key in lower case. -/
def secretName (value : Text) : Bool :=
  secretKeys.contains value ||
    ["_secret".toList, "_password".toList, "_private_key".toList, "_token".toList].any (fun s => decide (s <:+ value)) ||
    (value.splitOn '_').any (fun part => ["secret".toList, "password".toList, "token".toList, "credential".toList,
      "credentials".toList, "private".toList].contains part) ||
    ["api_key".toList, "signing_key".toList, "bearer".toList].contains value

variable (lower : Text → Text)

/-- `secret_key(key)`. -/
def secretKey (key : Text) : Bool := secretName (lower key)

/-- `value not in ('', None)`. -/
def given : Json → Bool
  | .null => false
  | .str s => decide (s ≠ [])
  | _ => true

/-- `key.lower() in FORBIDDEN_KEYS and value not in ('', None)`. -/
def hostCommand (key : Text) (value : Json) : Bool := forbiddenKeys.contains (lower key) && given value

/-! ## What the owner sees -/

/-- What stands for a secret in the view. -/
def redacted : Json → Json
  | .null => .obj [("secret", .bool true), ("present", .bool false)]
  | _ => .obj [("secret", .bool true), ("present", .bool true)]

mutual

/-- `redact(value)`; the key `''` of an element is not a secret one. -/
def redact : Json → Json
  | .obj ms => .obj (redactMembers ms)
  | .arr xs => .arr (redactAll xs)
  | v => v

def redactMembers : Members → Members
  | [] => []
  | (k, v) :: ms => (k, if secretKey lower k then redacted v else redact v) :: redactMembers ms

def redactAll : List Json → List Json
  | [] => []
  | x :: xs => redact x :: redactAll xs

end

/-- `{'unchanged': True}`. -/
def unchanged : Json := .obj [("unchanged", .bool true)]

mutual

/-- Every shown secret of a view replaced by the marker. -/
def markShown : Json → Json
  | .obj ms => .obj (markShownMembers ms)
  | .arr xs => .arr (markShownAll xs)
  | v => v

def markShownMembers : Members → Members
  | [] => []
  | (k, v) :: ms => (k, if secretKey lower k then unchanged else markShown v) :: markShownMembers ms

def markShownAll : List Json → List Json
  | [] => []
  | x :: xs => markShown x :: markShownAll xs

end

/-! ## `merge_secrets` -/

/-- `old.get(key) if isinstance(old, dict) else None`. -/
def member (old : Json) (key : Text) : Json :=
  match old with
  | .obj ms => (ms.lookup key).getD .null
  | _ => .null

/-- `old[index] if isinstance(old, list) and index < len(old) else None`. -/
def element (old : Json) (index : Nat) : Json :=
  match old with
  | .arr xs => xs.getD index .null
  | _ => .null

/-- `secret_key(key) and value == {'unchanged': True}`. -/
def marked (key : Text) (value : Json) : Bool := secretKey lower key && equal value unchanged

/-- `if before is None: raise …`. -/
def restore : Json → Except PyError Json
  | .null => .error (.value "SecretReplacementRequired")
  | before => .ok before

mutual

/-- A value in its place: a dictionary goes to `merge_secrets`, a list to `merge_array`. -/
def mergeValue : Json → Json → Except PyError Json
  | .obj ms, before => (mergeMembers ms before).map .obj
  | .arr xs, before => (mergeArray 0 xs before).map .arr
  | v, _ => .ok v

/-- The loop of `merge_secrets(document, old)`. -/
def mergeMembers : Members → Json → Except PyError Members
  | [], _ => .ok []
  | (key, value) :: ms, old => do
    refuseIf (hostCommand lower key value) (.value "HostCommandConfigurationRejected")
    let merged ← (if marked lower key value then restore (member old key) else mergeValue value (member old key))
    let rest ← mergeMembers ms old
    return (key, merged) :: rest

/-- The loop of `merge_array(value, old)`, from an index on. -/
def mergeArray (index : Nat) : List Json → Json → Except PyError (List Json)
  | [], _ => .ok []
  | item :: items, old => do
    let merged ← mergeValue item (element old index)
    let rest ← mergeArray (index + 1) items old
    return merged :: rest

end

/-- `merge_secrets(document, old)`. -/
def mergeSecrets (document old : Json) : Except PyError Json :=
  match document with
  | .obj ms => (mergeMembers lower ms old).map .obj
  | _ => .error (.value "InvalidManagedConfiguration")

/-! ## `ConfigStore.prepare` -/

/-- What `prepare` calls and is not defined here: the digest of a file, the profile and the native check. -/
structure Authority where
  nfc : Text → Text
  digest : Bytes → Text
  validate : Json → Except PyError Unit

/-- `MAX_CONFIG`. -/
def maxConfig : Nat := 65536

/-- `strict_json(raw, limit=MAX_CONFIG)`, or `None` without a file. -/
def readDraft (nfc : Text → Text) : Option Bytes → Except PyError Json
  | none => .ok .null
  | some raw => strictJson nfc maxConfig 65536 raw

/-- `merged.get('role') != role` for a role that is given. -/
def roleMismatch (merged : Json) : Option Text → Bool
  | none => false
  | some role => !isText role (member merged "role")

/-- The bytes that `prepare(name, …)` returns, given the bytes of the draft file. -/
def prepare (P : Authority) (oldRaw : Option Bytes) (expectedDigest : Option Text) (document : Bytes)
    (role : Option Text) : Except PyError Bytes := do
  refuseIf (oldRaw.map P.digest ≠ expectedDigest) (.value "ReviewedConfigurationChanged")
  let incoming ← strictJson P.nfc maxConfig 65536 document
  let old ← readDraft P.nfc oldRaw
  let merged ← mergeSecrets lower incoming old
  refuseIf (roleMismatch merged role) (.value "ConfigurationRoleMismatch")
  P.validate merged
  let raw := canonical merged
  refuseIf (maxConfig < raw.length) (.value "ManagedConfigurationTooLarge")
  return raw

/-! ## When a merge refuses -/

mutual

/-- A command stands somewhere in the value, or a marker where the old value has nothing. -/
def Blocked : Json → Json → Prop
  | .obj ms, before => BlockedMembers ms before
  | .arr xs, before => BlockedArray 0 xs before
  | _, _ => False

def BlockedMembers : Members → Json → Prop
  | [], _ => False
  | (key, value) :: ms, old =>
    hostCommand lower key value = true ∨
      (if marked lower key value then member old key = .null else Blocked value (member old key)) ∨
      BlockedMembers ms old

def BlockedArray (index : Nat) : List Json → Json → Prop
  | [], _ => False
  | item :: items, old => Blocked item (element old index) ∨ BlockedArray (index + 1) items old

end

/-! ## Drafts -/

/-- A document on its way back. -/
inductive Draft where
  /-- a value that is shown as it is -/
  | plain (v : Json)
  /-- a marker, with the secret it stands for -/
  | secret (own : Json)
  | obj (ms : List (Text × Draft))
  | arr (xs : List Draft)
  /-- an object that the owner has inserted -/
  | fresh (ms : Members)

open Draft

namespace Draft

mutual

/-- The draft of a stored value before any edit. -/
def of : Json → Draft
  | .obj ms => .obj (ofMembers ms)
  | .arr xs => .arr (ofAll xs)
  | v => .plain v

def ofMembers : Members → List (Text × Draft)
  | [] => []
  | (k, v) :: ms => (k, if secretKey lower k then .secret v else of v) :: ofMembers ms

def ofAll : List Json → List Draft
  | [] => []
  | x :: xs => of x :: ofAll xs

end

mutual

/-- The document as it comes in. -/
def incoming : Draft → Json
  | .plain v => v
  | .secret _ => unchanged
  | .obj ms => .obj (incomingMembers ms)
  | .arr xs => .arr (incomingAll xs)
  | .fresh ms => .obj ms

def incomingMembers : List (Text × Draft) → Members
  | [] => []
  | (k, d) :: ms => (k, incoming d) :: incomingMembers ms

def incomingAll : List Draft → List Json
  | [] => []
  | d :: ds => incoming d :: incomingAll ds

end

mutual

/-- In the result every marker has become the secret it stands for. -/
def Matches : Draft → Json → Prop
  | .plain v, r => r = v
  | .secret own, r => r = own
  | .obj ms, r => ∃ rs, r = .obj rs ∧ MatchesMembers ms rs
  | .arr xs, r => ∃ rs, r = .arr rs ∧ MatchesAll xs rs
  | .fresh _, _ => True

def MatchesMembers : List (Text × Draft) → Members → Prop
  | [], rs => rs = []
  | (k, d) :: ms, rs => ∃ r rest, rs = (k, r) :: rest ∧ Matches d r ∧ MatchesMembers ms rest

def MatchesAll : List Draft → List Json → Prop
  | [], rs => rs = []
  | d :: ds, rs => ∃ r rest, rs = r :: rest ∧ Matches d r ∧ MatchesAll ds rest

end

mutual

/-- Where a marker stands, the old value has the secret that it stands for. -/
def Aligned : Draft → Json → Prop
  | .plain _, _ => True
  | .secret own, before => before = own
  | .obj ms, before => AlignedMembers ms before
  | .arr xs, before => AlignedArray 0 xs before
  | .fresh _, _ => True

def AlignedMembers : List (Text × Draft) → Json → Prop
  | [], _ => True
  | (k, d) :: ms, old => Aligned d (member old k) ∧ AlignedMembers ms old

def AlignedArray (index : Nat) : List Draft → Json → Prop
  | [], _ => True
  | d :: ds, old => Aligned d (element old index) ∧ AlignedArray (index + 1) ds old

end

/-- An object, shown or inserted. -/
def IsObject : Draft → Prop
  | .obj _ | .fresh _ => True
  | .plain _ | .secret _ | .arr _ => False

/-- One edit of an array of objects, at any depth. -/
inductive Edit : Draft → Draft → Prop where
  | delete {xs ys : List Draft} {x : Draft} (hobjects : ∀ d ∈ xs ++ x :: ys, d.IsObject) :
      Edit (.arr (xs ++ x :: ys)) (.arr (xs ++ ys))
  | insert {xs ys : List Draft} (ms : Members) (hobjects : ∀ d ∈ xs ++ ys, d.IsObject) :
      Edit (.arr (xs ++ ys)) (.arr (xs ++ .fresh ms :: ys))
  | permute {xs ys : List Draft} (hperm : xs.Perm ys) (hobjects : ∀ d ∈ xs, d.IsObject) : Edit (.arr xs) (.arr ys)
  | member {ms ns : List (Text × Draft)} {k : Text} {d d' : Draft} (h : Edit d d') :
      Edit (.obj (ms ++ (k, d) :: ns)) (.obj (ms ++ (k, d') :: ns))
  | element {xs ys : List Draft} {d d' : Draft} (h : Edit d d') : Edit (.arr (xs ++ d :: ys)) (.arr (xs ++ d' :: ys))

end Draft

/-- What a merge returns gives every marker its own secret. -/
def SecretsKept (stored : Json) (draft : Draft) : Prop :=
  ∀ r, mergeSecrets lower draft.incoming stored = .ok r → draft.Matches r

mutual

/-- No secret of the value is null, and no command is set in it. -/
def Complete : Json → Prop
  | .obj ms => CompleteMembers ms
  | .arr xs => CompleteAll xs
  | _ => True

def CompleteMembers : Members → Prop
  | [] => True
  | (k, v) :: ms =>
    hostCommand lower k v = false ∧ (if secretKey lower k then v ≠ .null else Complete v) ∧ CompleteMembers ms

def CompleteAll : List Json → Prop
  | [] => True
  | x :: xs => Complete x ∧ CompleteAll xs

end

/-! ## What a merge returns -/

variable {lower}

theorem restore_eq_ok {before r : Json} : restore before = .ok r ↔ before ≠ .null ∧ r = before := by
  cases before with
  | null => exact ⟨nofun, fun h => absurd rfl h.1⟩
  | bool | int | str | arr | obj | foreign =>
    exact ⟨fun h => ⟨nofun, (Except.ok.inj h).symm⟩, fun h => congrArg Except.ok h.2.symm⟩

/-- A member that is merged, and the members after it. -/
theorem mergeMembers_cons_eq_ok {key : Text} {val old : Json} {ms rs : Members} :
    mergeMembers lower ((key, val) :: ms) old = .ok rs ↔ hostCommand lower key val = false ∧
      ∃ r rest, (if marked lower key val then restore (member old key) else mergeValue lower val (member old key)) = .ok r ∧
        mergeMembers lower ms old = .ok rest ∧ rs = (key, r) :: rest := by
  simp [mergeMembers, bind_eq_ok, refuseIf_eq_ok, pure, Except.pure, eq_comm (a := rs)]

theorem mergeArray_cons_eq_ok {ix : Nat} {item old : Json} {it rs : List Json} :
    mergeArray lower ix (item :: it) old = .ok rs ↔ ∃ r rest, mergeValue lower item (element old ix) = .ok r ∧
        mergeArray lower (ix + 1) it old = .ok rest ∧ rs = r :: rest := by
  simp [mergeArray, bind_eq_ok, pure, Except.pure, eq_comm (a := rs)]

mutual

/-- **A merge returns exactly if nothing blocks it.** -/
theorem mergeValue_ok_iff : (v old : Json) → (∃ r, mergeValue lower v old = .ok r) ↔ ¬ Blocked lower v old
  | .obj ms, old => by
    simp [mergeValue, Blocked, map_eq_ok, ← mergeMembers_ok_iff ms old]
  | .arr xs, old => by
    simp [mergeValue, Blocked, map_eq_ok, ← mergeArray_ok_iff 0 xs old]
  | .null, _ | .bool _, _ | .int _, _ | .str _, _ | .foreign, _ => by
    simp [mergeValue, Blocked]

theorem mergeMembers_ok_iff : (ms : Members) → (old : Json) →
    ((∃ rs, mergeMembers lower ms old = .ok rs) ↔ ¬ BlockedMembers lower ms old)
  | [], _ => by simp [mergeMembers, BlockedMembers]
  | (key, value) :: ms, old => by
    have hvl : (∃ r, (if marked lower key value then restore (member old key)
        else mergeValue lower value (member old key)) = .ok r) ↔
        ¬ (if marked lower key value then member old key = .null else Blocked lower value (member old key)) := by
      split_ifs
      · simp [restore_eq_ok]
      · exact mergeValue_ok_iff value (member old key)
    rw [BlockedMembers, not_or, not_or, Bool.not_eq_true, ← hvl, ← mergeMembers_ok_iff ms old]
    simp [mergeMembers_cons_eq_ok]

theorem mergeArray_ok_iff (ix : Nat) : (it : List Json) → (old : Json) →
    ((∃ rs, mergeArray lower ix it old = .ok rs) ↔ ¬ BlockedArray lower ix it old)
  | [], _ => by simp [mergeArray, BlockedArray]
  | item :: it, old => by
    rw [BlockedArray, not_or, ← mergeValue_ok_iff item (element old ix), ← mergeArray_ok_iff (ix + 1) it old]
    simp [mergeArray_cons_eq_ok]

end

theorem equal_unchanged : equal unchanged unchanged = true := by decide +kernel

namespace Draft

/-- A marker. -/
def IsSecret : Draft → Prop
  | .secret _ => True
  | .plain _ | .obj _ | .arr _ | .fresh _ => False

variable (lower)

mutual

/-- Markers stand under the secret keys and nowhere else. -/
def Marked : Draft → Prop
  | .plain v => Python.Scalar v
  | .secret _ => False
  | .obj ms => MarkedMembers ms
  | .arr xs => MarkedAll xs
  | .fresh _ => True

def MarkedMembers : List (Text × Draft) → Prop
  | [] => True
  | (k, d) :: ms => (if secretKey lower k then IsSecret d else Marked d) ∧ MarkedMembers ms

def MarkedAll : List Draft → Prop
  | [] => True
  | d :: ds => Marked d ∧ MarkedAll ds

end

variable {lower}

mutual

/-- **The merge of a draft gives every marker its own secret exactly if the draft is aligned.** -/
theorem matches_iff_aligned : (d : Draft) → d.Marked lower → (old r : Json) →
    mergeValue lower d.incoming old = .ok r → (d.Matches r ↔ d.Aligned old)
  | .plain v, hmark, old, r, h => by
    have hsame : r = v := by
      cases v with
      | arr | obj => exact hmark.elim
      | null | bool | int | str | foreign => exact (Except.ok.inj h).symm
    exact iff_of_true hsame trivial
  | .secret _, hmark, _, _, _ => hmark.elim
  | .obj ms, hmark, old, r, h => by
    rw [incoming, mergeValue, map_eq_ok] at h
    obtain ⟨rs, hrs, rfl⟩ := h
    simp [Matches, Aligned, ← matchesMembers_iff_aligned ms hmark old rs hrs]
  | .arr xs, hmark, old, r, h => by
    rw [incoming, mergeValue, map_eq_ok] at h
    obtain ⟨rs, hrs, rfl⟩ := h
    simp [Matches, Aligned, ← matchesAll_iff_aligned xs hmark 0 old rs hrs]
  | .fresh _, _, _, _, _ => by
    rw [Matches, Aligned]

theorem matchesMembers_iff_aligned : (ms : List (Text × Draft)) → MarkedMembers lower ms → (old : Json) → (rs : Members) →
    mergeMembers lower (incomingMembers ms) old = .ok rs → (MatchesMembers ms rs ↔ AlignedMembers ms old)
  | [], _, _, rs, h => by
    exact iff_of_true (Except.ok.inj h).symm trivial
  | (k, d) :: ms, hmark, old, rs, h => by
    rw [incomingMembers, mergeMembers_cons_eq_ok] at h
    obtain ⟨-, r, rest, hr, hrest, rfl⟩ := h
    rw [MarkedMembers] at hmark
    have hhead : d.Matches r ↔ d.Aligned (member old k) := by
      by_cases hkey : secretKey lower k = true
      · -- a marker: the merge takes what the old dictionary has under the key
        rw [if_pos hkey] at hmark
        cases d with
        | secret own =>
          have hres : marked lower k (incoming (.secret own)) = true := by
            rw [marked, hkey, incoming, equal_unchanged]
            rfl
          rw [if_pos hres, restore_eq_ok] at hr
          rw [Matches, Aligned, hr.2]
        | plain | obj | arr | fresh => exact hmark.1.elim
      rw [if_neg hkey] at hmark
      have hord : marked lower k d.incoming = false := by
        rw [marked, Bool.not_eq_true _ |>.mp hkey]
        rfl
      rw [hord, if_neg Bool.false_ne_true] at hr
      exact matches_iff_aligned d hmark.1 (member old k) r hr
    simp [MatchesMembers, AlignedMembers, ← hhead, ← matchesMembers_iff_aligned ms hmark.2 old rest hrest]

theorem matchesAll_iff_aligned : (ds : List Draft) → MarkedAll lower ds → (index : Nat) → (old : Json) →
    (rs : List Json) → mergeArray lower index (incomingAll ds) old = .ok rs →
      (MatchesAll ds rs ↔ AlignedArray index ds old)
  | [], _, _, _, rs, h => by
    exact iff_of_true (Except.ok.inj h).symm trivial
  | d :: ds, hmark, index, old, rs, h => by
    rw [incomingAll, mergeArray_cons_eq_ok] at h
    obtain ⟨r, rest, hr, hrest, rfl⟩ := h
    simp [MatchesAll, AlignedArray, ← matches_iff_aligned d hmark.1 (element old index) r hr,
      ← matchesAll_iff_aligned ds hmark.2 (index + 1) old rest hrest]

end

/-! ## The draft before any edit -/

mutual

/-- It is what the owner is shown, with a marker for every secret. -/
theorem incoming_of : (v : Json) → (of lower v).incoming = markShown lower (redact lower v)
  | .obj ms => by rw [of, incoming, redact, markShown, incomingMembers_ofMembers ms]
  | .arr xs => by rw [of, incoming, redact, markShown, incomingAll_ofAll xs]
  | .null | .bool _ | .int _ | .str _ | .foreign => rfl

theorem incomingMembers_ofMembers : (ms : Members) →
    incomingMembers (ofMembers lower ms) = markShownMembers lower (redactMembers lower ms)
  | [] => rfl
  | (k, v) :: ms => by
    rw [ofMembers, incomingMembers, redactMembers, markShownMembers, incomingMembers_ofMembers ms]
    split_ifs
    · rfl
    · rw [incoming_of v]

theorem incomingAll_ofAll : (xs : List Json) → incomingAll (ofAll lower xs) = markShownAll lower (redactAll lower xs)
  | [] => rfl
  | x :: xs => by rw [ofAll, incomingAll, redactAll, markShownAll, incoming_of x, incomingAll_ofAll xs]

end

mutual

theorem marked_of : (v : Json) → (of lower v).Marked lower
  | .obj ms => markedMembers_ofMembers ms
  | .arr xs => markedAll_ofAll xs
  | .null | .bool _ | .int _ | .str _ | .foreign => trivial

theorem markedMembers_ofMembers : (ms : Members) → MarkedMembers lower (ofMembers lower ms)
  | [] => trivial
  | (k, v) :: ms => by
    refine ⟨?_, markedMembers_ofMembers ms⟩
    split_ifs
    · trivial
    · exact marked_of v

theorem markedAll_ofAll : (xs : List Json) → MarkedAll lower (ofAll lower xs)
  | [] => trivial
  | x :: xs => ⟨marked_of x, markedAll_ofAll xs⟩

end

mutual

/-- **Before any edit a draft is aligned**: every key and every index is where it was. -/
theorem aligned_of : (v : Json) → Proper v → (of lower v).Aligned v
  | .obj ms, hv => by
    refine alignedMembers_ofMembers ms (.obj ms) ?_ ?_
    · cases hv with
      | obj _ hms => exact hms
    · intro m hm
      have hlk : ms.lookup m.1 = some m.2 := lookup_eq_of_mem (Python.Proper.nodup hv) hm
      rw [member, hlk, Option.getD_some]
  | .arr xs, hv => by
    refine alignedArray_ofAll 0 xs (.arr xs) ?_ ?_
    · cases hv with
      | arr hxs => exact hxs
    · intro j x hj
      rw [element, zero_add, getD_eq_getElem?_getD, hj, Option.getD_some]
  | .null, _ | .bool _, _ | .int _, _ | .str _, _ | .foreign, _ => trivial

theorem alignedMembers_ofMembers : (ms : Members) → (old : Json) → (∀ m ∈ ms, Proper m.2) →
    (∀ m ∈ ms, member old m.1 = m.2) → AlignedMembers (ofMembers lower ms) old
  | [], _, _, _ => trivial
  | (k, v) :: ms, old, hprop, hold => by
    rw [forall_mem_cons] at hprop hold
    rw [ofMembers, AlignedMembers, hold.1]
    refine ⟨?_, alignedMembers_ofMembers ms old hprop.2 hold.2⟩
    split_ifs
    · rfl
    · exact aligned_of v hprop.1

theorem alignedArray_ofAll (ix : Nat) : (xs : List Json) → (old : Json) → (∀ x ∈ xs, Proper x) →
    (∀ j x, xs[j]? = some x → element old (ix + j) = x) → AlignedArray ix (ofAll lower xs) old
  | [], _, _, _ => trivial
  | x :: xs, old, hprop, hold => by
    rw [forall_mem_cons] at hprop
    have hhead : element old ix = x := hold 0 x rfl
    rw [ofAll, AlignedArray, hhead]
    refine ⟨aligned_of x hprop.1, alignedArray_ofAll (ix + 1) xs old hprop.2 ?_⟩
    intro j y hj
    rw [show ix + 1 + j = ix + (j + 1) by omega]
    exact hold (j + 1) y hj

end

mutual

/-- What matches the draft of a value is the value. -/
theorem matches_of : (v r : Json) → (of lower v).Matches r → r = v
  | .obj ms, _, h => by
    obtain ⟨rs, rfl, hrs⟩ := h
    rw [matchesMembers_ofMembers ms rs hrs]
  | .arr xs, _, h => by
    obtain ⟨rs, rfl, hrs⟩ := h
    rw [matchesAll_ofAll xs rs hrs]
  | .null, _, h | .bool _, _, h | .int _, _, h | .str _, _, h | .foreign, _, h => h

theorem matchesMembers_ofMembers : (ms rs : Members) → MatchesMembers (ofMembers lower ms) rs → rs = ms
  | [], _, h => h
  | (k, v) :: ms, _, h => by
    obtain ⟨r, re, rfl, hr, hrest⟩ := h
    have hhead : r = v := by
      split_ifs at hr
      · exact hr
      · exact matches_of v r hr
    rw [hhead, matchesMembers_ofMembers ms re hrest]

theorem matchesAll_ofAll : (xs rs : List Json) → MatchesAll (ofAll lower xs) rs → rs = xs
  | [], _, h => h
  | x :: xs, _, h => by
    obtain ⟨r, re, rfl, hr, hrest⟩ := h
    rw [matches_of x r hr, matchesAll_ofAll xs re hrest]

end

theorem secretKey_of_forbidden {k : Text} (h : forbiddenKeys.contains (lower k) = true) : secretKey lower k = false := by
  have hall : ∀ nm ∈ forbiddenKeys, secretName nm = false := by decide +kernel
  exact hall _ (by simpa using h)

theorem given_incoming_of (v : Json) : given (of lower v).incoming = given v := by
  cases v with
  | null | bool | int | str | arr | obj | foreign => rfl

/-- The commands in a draft are those of the value. -/
theorem hostCommand_incoming (k : Text) (v : Json) :
    hostCommand lower k (incoming (if secretKey lower k then .secret v else of lower v)) = hostCommand lower k v := by
  rw [hostCommand, hostCommand]
  cases hfor : forbiddenKeys.contains (lower k) with
  | false => rfl
  | true =>
    rw [secretKey_of_forbidden hfor, if_neg Bool.false_ne_true, given_incoming_of]

mutual

/-- **Before any edit a merge is blocked** exactly if a secret is null or a command is set. -/
theorem blocked_of : (v old : Json) → (of lower v).Aligned old → (Blocked lower (of lower v).incoming old ↔ ¬ Complete lower v)
  | .obj ms, old, h => blockedMembers_ofMembers ms old h
  | .arr xs, old, h => blockedArray_ofAll 0 xs old h
  | .null, _, _ | .bool _, _, _ | .int _, _, _ | .str _, _, _ | .foreign, _, _ =>
    ⟨fun h => h.elim, fun h => absurd trivial h⟩

theorem blockedMembers_ofMembers : (ms : Members) → (old : Json) → AlignedMembers (ofMembers lower ms) old →
    (BlockedMembers lower (incomingMembers (ofMembers lower ms)) old ↔ ¬ CompleteMembers lower ms)
  | [], _, _ => ⟨fun h => h.elim, fun h => absurd trivial h⟩
  | (k, v) :: ms, old, h => by
    obtain ⟨hhead, htail⟩ := h
    rw [ofMembers, incomingMembers, BlockedMembers, CompleteMembers, hostCommand_incoming,
      blockedMembers_ofMembers ms old htail]
    have hvl : (if marked lower k (incoming (if secretKey lower k then .secret v else of lower v))
        then member old k = .null
        else Blocked lower (incoming (if secretKey lower k then .secret v else of lower v)) (member old k)) ↔
        ¬ (if secretKey lower k then v ≠ .null else Complete lower v) := by
      by_cases hkey : secretKey lower k = true
      · rw [if_pos hkey] at hhead
        rw [if_pos hkey, if_pos hkey, marked, hkey, incoming, equal_unchanged, Bool.and_self, if_pos rfl, not_not,
          show member old k = v from hhead]
      rw [if_neg hkey] at hhead
      rw [if_neg hkey, if_neg hkey, marked, Bool.not_eq_true _ |>.mp hkey, Bool.false_and, if_neg Bool.false_ne_true]
      exact blocked_of v (member old k) hhead
    rw [hvl, not_and_or, not_and_or, Bool.not_eq_false]

theorem blockedArray_ofAll (ix : Nat) : (xs : List Json) → (old : Json) → AlignedArray ix (ofAll lower xs) old →
    (BlockedArray lower ix (incomingAll (ofAll lower xs)) old ↔ ¬ CompleteAll lower xs)
  | [], _, _ => ⟨fun h => h.elim, fun h => absurd trivial h⟩
  | x :: xs, old, h => by
    obtain ⟨hhead, htail⟩ := h
    rw [ofAll, incomingAll, BlockedArray, CompleteAll, blocked_of x (element old ix) hhead,
      blockedArray_ofAll (ix + 1) xs old htail, not_and_or]

end

/-! ## Edits -/

theorem markedAll_iff {ds : List Draft} : MarkedAll lower ds ↔ ∀ d ∈ ds, d.Marked lower := by
  induction ds with
  | nil => simp [MarkedAll]
  | cons d ds ih => simp [MarkedAll, ih]

theorem markedMembers_iff {ms : List (Text × Draft)} :
    MarkedMembers lower ms ↔ ∀ m ∈ ms, if secretKey lower m.1 then m.2.IsSecret else m.2.Marked lower := by
  induction ms with
  | nil => simp [MarkedMembers]
  | cons m ms ih => simp [MarkedMembers, ih]

variable {d d' : Draft}

theorem Edit.not_secret (h : Edit d d') : ¬ d.IsSecret := by
  cases h <;> exact id

/-- **An edit leaves the markers under the secret keys.** -/
theorem Edit.marked (h : Edit d d') (hd : d.Marked lower) : d'.Marked lower := by
  induction h with
  | delete hobjc =>
    rw [Marked, markedAll_iff, forall_mem_append] at hd ⊢
    rw [forall_mem_cons] at hd
    exact ⟨hd.1, hd.2.2⟩
  | insert ms hobjc =>
    rw [Marked, markedAll_iff, forall_mem_append] at hd ⊢
    rw [forall_mem_cons]
    exact ⟨hd.1, trivial, hd.2⟩
  | permute hperm hobjc =>
    rw [Marked, markedAll_iff] at hd ⊢
    intro d hmem
    exact hd d (hperm.mem_iff.mpr hmem)
  | @member ms ns k d d' hedit ih =>
    rw [Marked, markedMembers_iff, forall_mem_append, forall_mem_cons] at hd ⊢
    obtain ⟨hleft, hold, hright⟩ := hd
    refine ⟨hleft, ?_, hright⟩
    split_ifs at hold ⊢ with hkey
    · exact absurd hold hedit.not_secret
    · exact ih hold
  | @element xs ys d d' hedit ih =>
    rw [Marked, markedAll_iff, forall_mem_append, forall_mem_cons] at hd ⊢
    exact ⟨hd.1, ih hd.2.1, hd.2.2⟩

/-- A document stays an object. -/
def IsDocument : Draft → Prop
  | .obj _ => True
  | .plain _ | .secret _ | .arr _ | .fresh _ => False

theorem Edit.document (h : Edit d d') (hd : d.IsDocument) : d'.IsDocument := by
  cases h with
  | delete | insert | permute | element => exact hd.elim
  | member => trivial

theorem edits_keep (h : Relation.ReflTransGen Edit d d') (hd : d.Marked lower ∧ d.IsDocument) :
    d'.Marked lower ∧ d'.IsDocument := by
  induction h with
  | refl => exact hd
  | tail _ hedit ih => exact ⟨hedit.marked ih.1, hedit.document ih.2⟩

end Draft

/-! ## Where the secrets go -/

/-- A stored configuration: what `strict_json` reads from the draft file, a dictionary. -/
abbrev Configuration := { ms : Members // Proper (.obj ms) }

/-- The stored configuration as a value. -/
def Configuration.value (stored : Configuration) : Json := .obj stored.1

theorem mergeSecrets_document {d : Draft} (hd : d.IsDocument) (old : Json) :
    mergeSecrets lower d.incoming old = mergeValue lower d.incoming old := by
  cases d with
  | obj ms => rw [incoming, mergeSecrets, mergeValue]
  | plain | secret | arr | fresh => exact hd.elim

/-- The merge of a draft keeps its secrets exactly if it is blocked or aligned. -/
theorem secretsKept_iff {d : Draft} (hmark : d.Marked lower) (hd : d.IsDocument) (old : Json) :
    SecretsKept lower old d ↔ Blocked lower d.incoming old ∨ d.Aligned old := by
  unfold SecretsKept
  rw [mergeSecrets_document hd]
  constructor
  · intro hkept
    by_cases hbloc : Blocked lower d.incoming old
    · exact .inl hbloc
    · obtain ⟨r, hr⟩ := (mergeValue_ok_iff _ _).mpr hbloc
      exact .inr ((d.matches_iff_aligned hmark old r hr).mp (hkept r hr))
  · rintro (hbloc | halig) r hr
    · exact absurd hbloc ((mergeValue_ok_iff _ _).mp ⟨r, hr⟩)
    · exact (d.matches_iff_aligned hmark old r hr).mpr halig

/-- A merge of the draft before any edit returns the stored value exactly if the value is complete. -/
theorem merge_unedited_iff (sd : Configuration) :
    mergeSecrets lower (of lower sd.value).incoming sd.value = .ok sd.value ↔
      Complete lower sd.value := by
  have halig : (of lower sd.value).Aligned sd.value := aligned_of sd.value sd.2
  have hmark : (of lower sd.value).Marked lower := marked_of sd.value
  have hdcm : (of lower sd.value).IsDocument := trivial
  have hiff : (∃ r, mergeValue lower (of lower sd.value).incoming sd.value = .ok r) ↔
      ¬ Blocked lower (of lower sd.value).incoming sd.value := mergeValue_ok_iff _ _
  rw [blocked_of sd.value sd.value halig, not_not] at hiff
  rw [mergeSecrets_document hdcm, ← hiff]
  constructor
  · intro h
    exact ⟨_, h⟩
  · rintro ⟨r, hr⟩
    have hmat := (matches_iff_aligned _ hmark sd.value r hr).mpr halig
    rw [hr, matches_of sd.value r hmat]

/-- **Secrets stay with their owner, where they are found again.** The draft before any edit is what the owner is shown
    with a marker for each secret. After any edits of its arrays of objects, a merge that returns gives every marker its
    own secret, and without an edit it returns the stored configuration, exactly if
    * a command is set in the document or a marker stands where nothing is stored (the merge refuses), or every marker
      stands where the stored configuration has its secret; and
    * without an edit, no secret is null and no command is set. -/
theorem secrets_stay (lower : Text → Text) (stored : Configuration) (draft : Draft)
    (h : Relation.ReflTransGen Draft.Edit (.of lower stored.value) draft) :
    (of lower stored.value).incoming = markShown lower (redact lower stored.value) ∧
    ((SecretsKept lower stored.value draft ∧
        (draft = .of lower stored.value → mergeSecrets lower draft.incoming stored.value = .ok stored.value)) ↔
      (Blocked lower draft.incoming stored.value ∨ draft.Aligned stored.value) ∧
        (draft = .of lower stored.value → Complete lower stored.value)) := by
  have hstart : (of lower stored.value).Marked lower ∧ (of lower stored.value).IsDocument :=
    ⟨marked_of stored.value, trivial⟩
  obtain ⟨hmarked, hdocument⟩ := edits_keep h hstart
  refine ⟨incoming_of stored.value, and_congr (secretsKept_iff hmarked hdocument stored.value) ?_⟩
  refine forall_congr' fun hsame => ?_
  rw [hsame]
  exact merge_unedited_iff stored

/-- **What `prepare` returns is a merge**, in canonical form. -/
theorem prepare_eq_ok {P : Authority} {oldRaw : Option Bytes} {expectedDigest : Option Text} {document raw : Bytes}
    {role : Option Text} (h : prepare lower P oldRaw expectedDigest document role = .ok raw) :
    ∃ incoming old merged, strictJson P.nfc maxConfig 65536 document = .ok incoming ∧
      readDraft P.nfc oldRaw = .ok old ∧ mergeSecrets lower incoming old = .ok merged ∧ raw = canonical merged := by
  obtain ⟨_, -, h⟩ := bind_eq_ok.mp h
  obtain ⟨incoming, hinc, h⟩ := bind_eq_ok.mp h
  obtain ⟨old, hold, h⟩ := bind_eq_ok.mp h
  obtain ⟨merged, hmer, h⟩ := bind_eq_ok.mp h
  obtain ⟨_, -, h⟩ := bind_eq_ok.mp h
  obtain ⟨_, -, h⟩ := bind_eq_ok.mp h
  obtain ⟨_, -, h⟩ := bind_eq_ok.mp h
  cases h
  exact ⟨incoming, old, merged, hinc, hold, hmer, rfl⟩

/-! ## Two peers -/

/-- `str.lower` on ASCII text. -/
def asciiLower (t : Text) : Text := t.map Char.toLower

/-- A peer with an id and a token. -/
def peer (id : Int) (token : Text) : Json := .obj [("id", .int id), ("token", .str token)]

/-- `{"peers": [{"id": 1, "token": "a"}, {"id": 2, "token": "b"}]}`. -/
def twoPeers : Members := [("peers", .arr [peer 1 "a", peer 2 "b"])]

theorem peer_proper (id : Int) (t : Text) : Proper (peer id t) := by
  have hkeys : ["id".toList, "token".toList].Nodup := by decide
  refine .obj hkeys ?_
  simp only [forall_mem_cons]
  exact ⟨.int id, .str t, nofun⟩

/-- The stored configuration with two peers. -/
def twoPeersStored : Configuration := ⟨twoPeers, by
  refine .obj (nodup_singleton _) ?_
  rw [twoPeers, forall_mem_singleton]
  refine .arr ?_
  simp only [forall_mem_cons]
  exact ⟨peer_proper _ _, peer_proper _ _, nofun⟩⟩

/-- A shown peer with its marker. -/
def shownPeer (id : Int) (token : Text) : Draft :=
  .obj [("id", .plain (.int id)), ("token", .secret (.str token))]

/-- The document after the other peer was deleted. -/
def onePeer (id : Int) (token : Text) : Draft := .obj [("peers", .arr [shownPeer id token])]

theorem shownPeers_objects : ∀ d ∈ [shownPeer 1 "a", shownPeer 2 "b"], d.IsObject := by
  simp [shownPeer, Draft.IsObject]

theorem delete_first : Relation.ReflTransGen Draft.Edit (.of asciiLower twoPeersStored.value) (onePeer 2 "b") :=
  .single (@Draft.Edit.member [] [] _ _ _ (@Draft.Edit.delete [] _ _ shownPeers_objects))

theorem delete_last : Relation.ReflTransGen Draft.Edit (.of asciiLower twoPeersStored.value) (onePeer 1 "a") :=
  .single (@Draft.Edit.member [] [] _ _ _ (@Draft.Edit.delete [shownPeer 1 "a"] _ _ shownPeers_objects))

/-- Without an edit the merge returns the stored configuration, and after the last peer was deleted the first one
    keeps its token. -/
theorem secrets_stay_two_peers :
    mergeSecrets asciiLower (of asciiLower twoPeersStored.value).incoming twoPeersStored.value
      = .ok twoPeersStored.value ∧
    SecretsKept asciiLower twoPeersStored.value (onePeer 1 "a") ∧
    mergeSecrets asciiLower (onePeer 1 "a").incoming twoPeersStored.value
      = .ok (.obj [("peers", .arr [peer 1 "a"])]) := by
  have hpeer : ∀ id token, Complete asciiLower (peer id token) := by
    intro id token
    refine ⟨?_, ?_, ?_, ?_, trivial⟩
    · rfl
    · trivial
    · rfl
    · exact nofun
  have hcomplete : Complete asciiLower twoPeersStored.value := by
    refine ⟨?_, ?_, trivial⟩
    · rfl
    · exact ⟨hpeer _ _, hpeer _ _, trivial⟩
  have haligned : (of asciiLower twoPeersStored.value).Aligned twoPeersStored.value :=
    aligned_of _ twoPeersStored.2
  have hedited : (onePeer 1 "a").Aligned twoPeersStored.value := ⟨⟨⟨trivial, rfl, trivial⟩, trivial⟩, trivial⟩
  have hunedited := (secrets_stay asciiLower twoPeersStored _ .refl).2.mpr ⟨.inr haligned, fun _ => hcomplete⟩
  have hdeleted := (secrets_stay asciiLower twoPeersStored _ delete_last).2.mpr ⟨.inr hedited, fun _ => hcomplete⟩
  exact ⟨hunedited.2 rfl, hdeleted.1, rfl⟩

/-- **A deletion moves a secret**: the second peer gets the token of the first. -/
theorem deletion_moves_secret : Relation.ReflTransGen Draft.Edit (.of asciiLower twoPeersStored.value) (onePeer 2 "b") ∧
    mergeSecrets asciiLower (onePeer 2 "b").incoming twoPeersStored.value
      = .ok (.obj [("peers", .arr [peer 2 "a"])]) ∧
    ¬ SecretsKept asciiLower twoPeersStored.value (onePeer 2 "b") := by
  have hmerge : mergeSecrets asciiLower (onePeer 2 "b").incoming twoPeersStored.value
      = .ok (.obj [("peers".toList, .arr [peer 2 "a".toList])]) := rfl
  refine ⟨delete_first, hmerge, fun hkept => ?_⟩
  obtain ⟨_, hobj, _, _, hpeers, hmatches, -⟩ := hkept _ hmerge
  cases hobj
  cases hpeers
  obtain ⟨_, harr, _, _, hsecond, hpeer, -⟩ := hmatches
  cases harr
  cases hsecond
  obtain ⟨_, hmembers, _, _, hid, -, hrest⟩ := hpeer
  cases hmembers
  cases hid
  obtain ⟨_, _, htoken, hown, -⟩ := hrest
  cases htoken
  -- the token of the first peer is not that of the second
  have hsame : "a".toList = "b".toList := Json.str.inj hown
  exact absurd hsame (by decide)

end Shadow6.Deployment
