import Shadow6.Deployment.ConfigStore

/-!
# `Deployment.ConfigView` — what a view of a configuration discloses

`view` of `Deployment/config_store.py`: the redacted document and the list of its changes against the stored one. A
secret is named by its path, the keys and indices that lead to it. Two pairs of documents that differ in the values of
secrets only, with the same secrets null and the same secrets changed, have the same view (`view_discloses_nothing`).
-/

namespace Shadow6.Deployment

open Library Json Portable List Python

/-! ## `view` -/

/-- An entry of `changes`. -/
inductive Change where
  | secret (field : Text)
  | changed (field : Text) (before after : Json)
  | removed (field : Text) (secret : Bool)

/-- `path + '/' + key.replace('~', '~0').replace('/', '~1')`. -/
def fieldName (path key : Text) : Text :=
  path ++ '/' :: ((key.flatMap fun c => if c = '~' then "~0" else [c]).flatMap
    fun c => if c = '/' then "~1" else [c])

/-- `value is None`. -/
def isNone : Json → Bool
  | .null => true
  | _ => false

/-- `isinstance(value, dict)`. -/
def isDict : Json → Bool
  | .obj _ => true
  | _ => false

/-- `sorted(old.keys() - document.keys())` for the keys of a dictionary. -/
def removedKeys (keys : List Text) : Json → List Text
  | .obj old => ((old.map Prod.fst).filter fun k => !keys.contains k).insertionSort
      fun a b => codePoints a ≤ codePoints b
  | _ => []

variable (lower : Text → Text)

mutual

/-- The changes that `view(document, old, path)` returns. -/
def viewChanges (path : Text) : Json → Json → List Change
  | .obj ms, old => viewMembers path ms old ++
      (removedKeys (ms.map Prod.fst) old).map fun k => .removed (fieldName path k) (secretKey lower k)
  | _, _ => []

/-- The loop over `document.items()`. -/
def viewMembers (path : Text) : Members → Json → List Change
  | [], _ => []
  | (key, value) :: ms, old =>
    (if isNone old || equal (member old key) value then []
      else if secretKey lower key then [.secret (fieldName path key)]
      else if isDict value && isDict (member old key) then viewChanges (fieldName path key) value (member old key)
      else [.changed (fieldName path key) (redact lower (member old key)) (redact lower value)]) ++
      viewMembers path ms old

end

/-- `view(document, old)`; what is not a dictionary has no `items()`. -/
def view (document old : Json) : Option (Json × List Change) :=
  if isDict document then some (redact lower document, viewChanges lower [] document old) else none

/-! ## Documents that differ in their secrets -/

/-- A step of a path. -/
inductive Place where
  | key (k : Text)
  | index (i : Nat)

/-- The value at a path, `None` if there is nothing. -/
def valueAt : Json → List Place → Json
  | v, [] => v
  | v, .key k :: path => valueAt (member v k) path
  | v, .index i :: path => valueAt (element v i) path

/-- The path leads to a secret, or else passes none. -/
def Reaches (secret : Bool) : List Place → Prop
  | [] => secret = false
  | .key k :: path => if secretKey lower k then secret = true ∧ path = [] else Reaches secret path
  | .index _ :: path => Reaches secret path

/-- Dictionaries with the same keys, lists of one length, or equal values. -/
inductive SameOutline : Json → Json → Prop where
  | obj {ms ns : Members} (hkeys : ns.map Prod.fst = ms.map Prod.fst) : SameOutline (.obj ms) (.obj ns)
  | arr {xs ys : List Json} (hlength : ys.length = xs.length) : SameOutline (.arr xs) (.arr ys)
  | null : SameOutline .null .null
  | bool (b : Bool) : SameOutline (.bool b) (.bool b)
  | int (n : Int) : SameOutline (.int n) (.int n)
  | str (s : Text) : SameOutline (.str s) (.str s)
  | foreign : SameOutline .foreign .foreign

/-- Equal but for the values of secrets, of which the same are null. -/
structure Alike (v w : Json) : Prop where
  shown : ∀ path, Reaches lower false path → SameOutline (valueAt v path) (valueAt w path)
  null : ∀ path, Reaches lower true path → isNone (valueAt v path) = isNone (valueAt w path)

/-- The same secrets have changed in both pairs of a document and the one before it. -/
def SameChanged (d o d' o' : Json) : Prop :=
  ∀ path, Reaches lower true path →
    equal (valueAt o path) (valueAt d path) = equal (valueAt o' path) (valueAt d' path)

variable {lower} {v w d o d' o' : Json} {k : Text} {ms ns : Members}

theorem Reaches.key {sec : Bool} {p : List Place} (h : Reaches lower sec p) (hk : ¬ secretKey lower k = true) :
    Reaches lower sec (.key k :: p) := by
  rwa [Reaches, if_neg hk]

theorem reaches_secret (hk : secretKey lower k = true) : Reaches lower true [.key k] := by
  rw [Reaches, if_pos hk]
  exact ⟨rfl, rfl⟩

theorem Alike.outline (h : Alike lower v w) : SameOutline v w := h.shown [] rfl

theorem Alike.key (h : Alike lower v w) (hk : ¬ secretKey lower k = true) : Alike lower (member v k) (member w k) :=
  ⟨fun p hpath => h.shown (.key k :: p) (hpath.key hk), fun p hpath => h.null (.key k :: p) (hpath.key hk)⟩

theorem Alike.index (h : Alike lower v w) (i : Nat) : Alike lower (element v i) (element w i) :=
  ⟨fun p => h.shown (.index i :: p), fun p => h.null (.index i :: p)⟩

theorem SameChanged.key (h : SameChanged lower d o d' o') (hk : ¬ secretKey lower k = true) :
    SameChanged lower (member d k) (member o k) (member d' k) (member o' k) :=
  fun p hpath => h (.key k :: p) (hpath.key hk)

theorem SameChanged.index (h : SameChanged lower d o d' o') (i : Nat) :
    SameChanged lower (element d i) (element o i) (element d' i) (element o' i) := fun p => h (.index i :: p)

/-! ## A document by its places -/

theorem forall_member {P : Json → Prop} (hnull : P .null) (h : ∀ m ∈ ms, P m.2) (k : Text) : P (member (.obj ms) k) := by
  rw [member]
  cases hlk : ms.lookup k with
  | none => exact hnull
  | some v => exact h _ (mem_of_lookup hlk)

theorem member_proper (h : Proper o) (k : Text) : Proper (member o k) := by
  cases h with
  | obj hnd hms => exact forall_member .null hms k
  | null | bool | int | str | arr => exact .null

/-- Induction over the values in a document. -/
theorem proper_induction {P : Json → Prop} (hnull : P .null)
    (hstep : ∀ v, Proper v → (∀ k, P (member v k)) → (∀ i, P (element v i)) → P v) (h : Proper v) : P v := by
  induction h with
  | obj hnd hms ih => exact hstep _ (.obj hnd hms) (forall_member hnull ih) fun _ => hnull
  | @arr xs hxs ih =>
    refine hstep _ (.arr hxs) (fun _ => hnull) fun i => ?_
    rw [element, getD_eq_getElem?_getD]
    cases hi : xs[i]? with
    | none => exact hnull
    | some x => exact ih x (mem_of_getElem? hi)
  | null => exact hnull
  | bool b => exact hstep _ (.bool b) (fun _ => hnull) fun _ => hnull
  | int n => exact hstep _ (.int n) (fun _ => hnull) fun _ => hnull
  | str s => exact hstep _ (.str s) (fun _ => hnull) fun _ => hnull

/-- A loop over the items of a dictionary is one over its keys. -/
theorem map_members {α : Type} (f : Text × Json → α) (h : (ms.map Prod.fst).Nodup) :
    ms.map f = (ms.map Prod.fst).map fun k => f (k, member (.obj ms) k) := by
  rw [map_map]
  refine map_congr_left fun m hm => ?_
  rw [Function.comp_apply, member, lookup_eq_of_mem h hm, Option.getD_some]

/-- So the same loop over two dictionaries with the same keys. -/
theorem map_alike {α : Type} {f g : Text × Json → α} (h : Proper (.obj ms)) (hkeys : ns.map Prod.fst = ms.map Prod.fst)
    (hfg : ∀ k, f (k, member (.obj ms) k) = g (k, member (.obj ns) k)) : ms.map f = ns.map g := by
  have hnd := Python.Proper.nodup h
  rw [map_members f hnd, map_members g (hkeys ▸ hnd), hkeys]
  exact map_congr_left fun k _ => hfg k

theorem redactMembers_eq : redactMembers lower ms
    = ms.map fun m => (m.1, if secretKey lower m.1 then redacted m.2 else redact lower m.2) := by
  induction ms with
  | nil => rfl
  | cons m ms ih => rw [redactMembers, ih, map_cons]

theorem redactAll_eq {xs : List Json} :
    redactAll lower xs = (range xs.length).map fun i => redact lower (element (.arr xs) i) := by
  induction xs with
  | nil => rfl
  | cons x xs ih =>
    rw [redactAll, ih, length_cons, range_succ_eq_map, map_cons, map_map]
    rfl

theorem isSome_lookup : (ms.lookup k).isSome = (ms.map Prod.fst).contains k := by
  induction ms with
  | nil => rfl
  | cons m ms ih =>
    rw [lookup_cons, map_cons, contains_cons]
    cases k == m.1 with
    | true => rfl
    | false => exact ih

theorem equalMembers_eq {os : Members} : equalMembers os ms
    = (os.map fun m => (ms.lookup m.1).isSome && equal m.2 (member (.obj ms) m.1)).all id := by
  induction os with
  | nil => rfl
  | cons m os ih =>
    rw [equalMembers, ih, map_cons, all_cons, member]
    cases ms.lookup m.1 with
    | none | some => rfl

theorem equalAll_eq {xs ys : List Json} : equalAll xs ys = (decide (xs.length = ys.length) &&
    (range xs.length).all fun i => equal (element (.arr xs) i) (element (.arr ys) i)) := by
  induction xs generalizing ys with
  | nil => cases ys <;> rfl
  | cons x xs ih =>
    cases ys with
    | nil => rfl
    | cons y ys =>
      rw [equalAll, ih, length_cons, range_succ_eq_map, all_cons, all_map]
      simp only [length_cons, Nat.succ.injEq]
      exact Bool.and_left_comm _ _ _

theorem viewMembers_eq {p : Text} : viewMembers lower p ms o = (ms.map fun m =>
    if isNone o || equal (member o m.1) m.2 then [] else if secretKey lower m.1 then [.secret (fieldName p m.1)]
    else if isDict m.2 && isDict (member o m.1) then viewChanges lower (fieldName p m.1) m.2 (member o m.1)
    else [.changed (fieldName p m.1) (redact lower (member o m.1)) (redact lower m.2)]).flatten := by
  induction ms with
  | nil => rfl
  | cons m ms ih => rw [viewMembers, ih, map_cons, flatten_cons]

/-! ## What the views have in common -/

theorem redacted_alike (h : isNone v = isNone w) : redacted v = redacted w := by
  cases v <;> cases w <;> first | rfl | cases h

/-- **Redacted documents that are alike are equal.** -/
theorem redact_alike (hv : Proper v) (h : Alike lower v w) : redact lower v = redact lower w := by
  refine proper_induction (P := fun v => ∀ w, Alike lower v w → redact lower v = redact lower w) ?_ ?_ hv w h
  · intro w h
    cases h.outline
    rfl
  intro v hv ihm ihe w h
  cases h.outline with
  | @obj ms ns hkeys =>
    rw [redact, redact, redactMembers_eq, redactMembers_eq]
    refine congrArg _ (map_alike hv hkeys fun k => ?_)
    by_cases hk : secretKey lower k = true
    · have hred : redacted (member (.obj ms) k) = redacted (member (.obj ns) k) :=
        redacted_alike (h.null [.key k] (reaches_secret hk))
      rw [if_pos hk, if_pos hk, hred]
    · rw [if_neg hk, if_neg hk, ihm k _ (h.key hk)]
  | arr hlen =>
    rw [redact, redact, redactAll_eq, redactAll_eq, hlen]
    exact congrArg _ (map_congr_left fun i _ => ihe i _ (h.index i))
  | null | bool | int | str | foreign => rfl

/-- **Whether a value has changed** is the same in both pairs. -/
theorem equal_alike (hprop : Proper o) (ho : Alike lower o o') (hd : Alike lower d d')
    (hchan : SameChanged lower d o d' o') : equal o d = equal o' d' := by
  refine proper_induction (P := fun o => ∀ o' d d', Alike lower o o' → Alike lower d d' → SameChanged lower d o d' o' →
    equal o d = equal o' d') ?_ ?_ hprop o' d d' ho hd hchan
  · intro o' d d' ho hd _
    cases ho.outline
    cases hd.outline <;> rfl
  intro o hprop ihm ihe o' d d' ho hd hchan
  cases ho.outline with
  | @obj os os' hkeys =>
    cases hd.outline with
    | @obj ms ns hkeys' =>
      have hlen : os'.length = os.length := by simpa using congrArg length hkeys
      have hlen' : ns.length = ms.length := by simpa using congrArg length hkeys'
      rw [equal, equal, equalMembers_eq, equalMembers_eq, hlen, hlen', map_alike hprop hkeys fun k => ?_]
      rw [isSome_lookup, isSome_lookup, hkeys']
      by_cases hk : secretKey lower k = true
      · have hequal : equal (member (.obj os) k) (member (.obj ms) k)
          = equal (member (.obj os') k) (member (.obj ns) k) := hchan [.key k] (reaches_secret hk)
        rw [hequal]
      · rw [ihm k _ _ _ (ho.key hk) (hd.key hk) (hchan.key hk)]
    | arr | null | bool | int | str | foreign => rfl
  | arr hlen =>
    cases hd.outline with
    | arr hlen' =>
      rw [equal, equal, equalAll_eq, equalAll_eq, hlen, hlen']
      have hsame := fun i => ihe i _ _ _ (ho.index i) (hd.index i) (hchan.index i)
      simp only [hsame]
    | obj | null | bool | int | str | foreign => rfl
  | null | bool | int | str | foreign => cases hd.outline <;> rfl

theorem removedKeys_alike (ks : List Text) (h : Alike lower o o') : removedKeys ks o = removedKeys ks o' := by
  cases h.outline with
  | obj hkeys => rw [removedKeys, removedKeys, hkeys]
  | arr | null | bool | int | str | foreign => rfl

theorem Alike.type (h : Alike lower v w) : isNone v = isNone w ∧ isDict v = isDict w := by
  cases h.outline with
  | obj | arr | null | bool | int | str | foreign => exact ⟨rfl, rfl⟩

theorem viewChanges_alike (hd : Proper d) (ho : Proper o) (hal : Alike lower d d') (hold : Alike lower o o')
    (hchan : SameChanged lower d o d' o') (p : Text) : viewChanges lower p d o = viewChanges lower p d' o' := by
  refine proper_induction (P := fun d => ∀ d' o o' p, Proper o → Alike lower d d' → Alike lower o o' →
    SameChanged lower d o d' o' → viewChanges lower p d o = viewChanges lower p d' o')
    ?_ ?_ hd d' o o' p ho hal hold hchan
  · intro d' o o' p _ hal _ _
    cases hal.outline
    rfl
  intro d hd ihm _ d' o o' p ho hal hold hchan
  cases hal.outline with
  | @obj ms ns hkeys =>
    rw [viewChanges, viewChanges, hkeys, removedKeys_alike _ hold, viewMembers_eq, viewMembers_eq,
      map_alike hd hkeys fun k => ?_]
    rw [hold.type.1]
    by_cases hk : secretKey lower k = true
    · have hequal : equal (member o k) (member (.obj ms) k)
        = equal (member o' k) (member (.obj ns) k) := hchan [.key k] (reaches_secret hk)
      rw [hequal, if_pos hk, if_pos hk]
    have hvl := hal.key hk
    have hbef := hold.key hk
    have hprop := member_proper ho k
    rw [equal_alike hprop hbef hvl (hchan.key hk), hvl.type.2, hbef.type.2,
      ihm k _ _ _ _ hprop hvl hbef (hchan.key hk), redact_alike hprop hbef,
      redact_alike (member_proper hd k) hvl]
  | arr | null | bool | int | str | foreign => rfl

/-- A value as `strict_json` returns it. -/
abbrev Document := { v : Json // Proper v }

/-- **A view discloses no secret.** Two pairs of a document and the one before it that are equal except for the values of
    secret keys, with the same secrets null and the same secrets changed, have the same view. -/
theorem view_discloses_nothing (lower : Text → Text) (d o d' o' : Document) (hd : Alike lower d.1 d'.1)
    (ho : Alike lower o.1 o'.1) (hchanged : SameChanged lower d.1 o.1 d'.1 o'.1) :
    view lower d.1 o.1 = view lower d'.1 o'.1 := by
  rw [view, view, hd.type.2, redact_alike d.2 hd, viewChanges_alike d.2 o.2 hd ho hchanged]

/-- A document with a token. -/
def tokenDocument (token : Text) : Document := ⟨.obj [("token", .str token)], by
  refine .obj (nodup_singleton _) ?_
  simp only [forall_mem_cons]
  exact ⟨.str token, nofun⟩⟩

theorem valueAt_null (pa : List Place) : valueAt .null pa = .null := by
  induction pa with
  | nil => rfl
  | cons p pa ih =>
    cases p with
    | key | index => exact ih

theorem view_discloses_nothing_token : view asciiLower (tokenDocument "a").1 (tokenDocument "b").1
      = view asciiLower (tokenDocument "c").1 (tokenDocument "d").1 := by
  have hkey : secretKey asciiLower "token" = true := by decide
  have hpaths : ∀ secret path, Reaches asciiLower secret path → (path = [] ∧ secret = false) ∨
      (path = [.key "token"] ∧ secret = true) ∨ ∀ t, valueAt (tokenDocument t).1 path = .null := by
    intro secret path hpath
    cases path with
    | nil => exact .inl ⟨rfl, hpath⟩
    | cons place path =>
      cases place with
      | index => exact .inr (.inr fun _ => valueAt_null path)
      | key k =>
        by_cases htoken : k = "token"
        · rw [Reaches, htoken, if_pos hkey] at hpath
          exact .inr (.inl ⟨by rw [htoken, hpath.2], hpath.1⟩)
        refine .inr (.inr fun t => ?_)
        have hnone : lookup k [("token", Json.str t)] = none := by
          rw [lookup_cons, beq_eq_false_iff_ne.mpr htoken]
          rfl
        rw [valueAt, tokenDocument, member, hnone]
        exact valueAt_null path
  have halike : ∀ s t, Alike asciiLower (tokenDocument s).1 (tokenDocument t).1 := by
    intro s t
    constructor
    · intro path hpath
      rcases hpaths _ _ hpath with ⟨rfl, -⟩ | ⟨-, ⟨⟩⟩ | hnone
      · exact .obj rfl
      · rw [hnone, hnone]
        exact .null
    · intro path hpath
      rcases hpaths _ _ hpath with ⟨-, ⟨⟩⟩ | ⟨rfl, -⟩ | hnone
      · rfl
      · rw [hnone, hnone]
  refine view_discloses_nothing asciiLower _ _ _ _ (halike _ _) (halike _ _) fun path hpath => ?_
  rcases hpaths _ _ hpath with ⟨-, ⟨⟩⟩ | ⟨rfl, -⟩ | hnone
  · rfl
  · simp only [hnone]

end Shadow6.Deployment
