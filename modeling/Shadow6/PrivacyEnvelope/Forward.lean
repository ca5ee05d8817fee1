import Shadow6.Library.Aead
import Shadow6.Library.Machine
import Shadow6.PrivacyEnvelope.ReplayStore

/-!
# `PrivacyEnvelope.Forward` — datagrams are unpacked at most once

Model of `pack` and `unpack` of `forward.ml`, and of a receiver that is restarted: each restart reads the replay state
that the last `commit` left. A packet carries the second in which it was packed and is fresh within 30 s of it; its
nonce hash is kept for 61 s from its acceptance, in memory and, rounded up, on disk. So a hash is kept as long as its
packet is fresh (`Remembered`), whatever was written, failed to be written or was restarted in between.

The network is an adversary: a call of `unpack` is given any bytes. That it cannot make ciphertexts is the condition
`Admissible` on runs, together with a clock that does not go back.
-/

namespace Shadow6.PrivacyEnvelope.Forward

open Library Library.Json ReplayStore List Dict

/-- The primitives, the key and the direction of a receiver. -/
structure Setup where
  aead : Aead
  derive : (salt material info : Bytes) → Bytes
  /-- `SHA256.digest_string |> to_hex`. -/
  digest : Bytes → Bytes
  key : Bytes
  direction : Bytes
  /-- The order in which a hash table is iterated. -/
  iterate : List (Bytes × Int) → List (Bytes × Int)
  hex_digest : ∀ b, hex (digest b) 64 = true
  iterate_perm : ∀ l, (iterate l).Perm l

/-- What `random_nonce` returns. -/
abbrev Random := { b : Bytes // b.length = 32 }

namespace Setup

variable (S : Setup)

/-! ## `pack` and `unpack` -/

def derived : Bytes := S.derive S.key S.direction (utf8 "S6EPE/3 datagram")

def datagramMagic : Bytes := utf8 "S6EP3D00"

/-- `int_of_float`. -/
def seconds (now : Instant) : Int := now.val / 1000000

/-- The header of a packet. -/
def datagramHeader (epoch : Epoch) (nonce : Bytes) (now : Instant) : Bytes :=
  datagramMagic ++ sprintf016x (seconds now) ++ sprintf016x epoch.val ++ nonce

def pack (epoch : Epoch) (payload : Bytes) (random : Random) (now : Instant) : Bytes :=
  let nonce := sub random.val 0 24
  let header := datagramHeader epoch nonce now
  header ++ S.aead.encrypt S.derived nonce (S.direction ++ header) payload

/-- The plain text of a packet, if it is authentic. -/
def openPacket (packet : Bytes) : Option Bytes :=
  S.aead.decrypt S.derived (sub packet 40 24) (S.direction ++ sub packet 0 64) (packet.drop 64)

def nonceId (packet : Bytes) : Bytes := S.digest (S.direction ++ sub packet 40 24)

/-- The instant in a packet. -/
def stampOf (packet : Bytes) : Option Int := (intOfHex (sub packet 8 16)).map (· * second)

end Setup

/-- A running receiver. -/
structure Receiver where
  epoch : Epoch
  cache : Cache

namespace Setup

variable (S : Setup)

/-- The checks of `unpack` up to the freshness of the packet. -/
def unpackChecks (epoch : Epoch) (packet : Bytes) (now : Instant) : Except Fault Bytes :=
  if packet.length < 80 ∨ sub packet 0 8 ≠ datagramMagic ∨ sub packet 24 16 ≠ sprintf016x epoch.val then .error .exit
  else
    match S.openPacket packet with
    | none => .error (.exn (.failure "capsule authentication failed"))
    | some payload =>
      match stampOf packet with
      | none => .error (.exn (.failure "int_of_string"))
      | some stamp => if |(now.val : Int) - stamp| > 30 * second then .error (.exn .replay) else .ok payload

/-- The cache without what has expired. -/
def expire (cache : Cache) (now : Instant) : Cache := cache.filter fun _ expiry => !decide (expiry < now.val)

/-- `unpack`: its answer, the cache and the file. -/
def unpack (receiver : Receiver) (file : Option File) (packet : Bytes) (now : Instant) (outcome : Outcome) :
    Except Fault Bytes × Cache × Option File :=
  match S.unpackChecks receiver.epoch packet now with
  | .error e => (.error e, receiver.cache, file)
  | .ok payload =>
    let cache := expire receiver.cache now
    if S.nonceId packet ∈ cache then (.error (.exn .replay), cache, file)
    else if cache.size ≥ 4096 then (.error (.exn .resourceLimit), cache, file)
    else
      let cache := cache.set (S.nonceId packet) (now.val + 61 * second)
      match commit receiver.epoch (S.iterate cache.entries) file outcome with
      | (.error e, file) => (.error e, cache, file)
      | (.ok _, file) => (.ok payload, cache, file)

end Setup

/-! ## Runs -/

/-- A receiver with its disk; for reference also what was packed and what `unpack` has returned, each a packet with its
    payload. -/
structure World where
  receiver : Option Receiver
  file : Option File
  clock : Instant
  packed : List (Bytes × Bytes)
  returned : List (Bytes × Bytes)

def World.start : World := ⟨none, none, 0, [], []⟩

inductive Activity where
  /-- The sender packs a payload; its clock is its own. -/
  | pack (epoch : Epoch) (payload : Bytes) (random : Random) (now : Instant)
  /-- The receiver is restarted; it does not run if `initialize` raises. -/
  | restart (epoch : Epoch) (now : Instant)
  | commit (outcome : Outcome)
  | unpack (packet : Bytes) (now : Instant) (outcome : Outcome)

/-- What was returned, with the answer to a packet. -/
def World.answered (w : World) (packet : Bytes) : Except Fault Bytes → List (Bytes × Bytes)
  | .error _ => w.returned
  | .ok payload => w.returned ++ [(packet, payload)]

namespace Setup

variable (S : Setup)

def step (w : World) : Activity → World
  | .pack epoch payload random now => { w with packed := w.packed ++ [(S.pack epoch payload random now, payload)] }
  | .restart epoch now =>
    match initializeStore (w.file.map File.text) epoch now with
    | .error _ => { w with receiver := none, clock := now }
    | .ok cache => { w with receiver := some ⟨epoch, cache⟩, clock := now }
  | .commit outcome =>
    match w.receiver with
    | none => w
    | some receiver => { w with file := (commit receiver.epoch (S.iterate receiver.cache.entries) w.file outcome).2 }
  | .unpack packet now outcome =>
    match w.receiver with
    | none => { w with clock := now }
    | some receiver =>
      let (answer, cache, file) := S.unpack receiver w.file packet now outcome
      { w with
        receiver := some { receiver with cache := cache }
        file := file
        clock := now
        returned := w.answered packet answer }

def after (run : List Activity) : World := run.foldl S.step .start

/-- The clock does not go back, and an authentic packet is one that was packed. -/
def Admissible (w : World) : Activity → Prop
  | .pack _ _ _ _ => True
  | .restart _ now => w.clock ≤ now
  | .commit _ => True
  | .unpack packet now _ => w.clock ≤ now ∧ (S.openPacket packet = none ∨ packet ∈ w.packed.map Prod.fst)

instance (w : World) : ∀ v, Decidable (S.Admissible w v)
  | .pack _ _ _ _ => inferInstanceAs (Decidable True)
  | .restart _ now => inferInstanceAs (Decidable (w.clock ≤ now))
  | .commit _ => inferInstanceAs (Decidable True)
  | .unpack packet now _ => inferInstanceAs (Decidable (w.clock ≤ now ∧ (S.openPacket packet = none ∨ _)))

/-! ## Packets -/

theorem openPacket_pack (epoch : Epoch) (payload : Bytes) (random : Random) (now : Instant) :
    S.openPacket (S.pack epoch payload random now) = some payload := by
  have hnon : (sub random.val 0 24).length = 24 := by
    simp [sub, random.property]
  unfold pack openPacket
  dsimp only
  generalize sub random.val 0 24 = nonce at hnon ⊢
  have hhdr : (datagramHeader epoch nonce now).length = 64 := by
    simp [datagramHeader, sprintf016x, hnon]
    rfl
  generalize hcip : S.aead.encrypt S.derived nonce (S.direction ++ datagramHeader epoch nonce now) payload = cipher
  have htake : sub (datagramHeader epoch nonce now ++ cipher) 0 64 = datagramHeader epoch nonce now := by
    rw [← hhdr]
    exact take_left
  have hdrop : (datagramHeader epoch nonce now ++ cipher).drop 64 = cipher := by
    rw [← hhdr]
    exact drop_left
  have hsub : sub (datagramHeader epoch nonce now ++ cipher) 40 24 = nonce := by
    show (drop 40 (_ ++ nonce ++ cipher)).take 24 = _
    have hall : (nonce ++ cipher).take nonce.length = nonce := take_left
    rw [hnon] at hall
    exact hall
  rw [htake, hdrop, hsub, ← hcip]
  exact S.aead.decrypt_encrypt _ _ _ _

/-- A hash is kept as long as its packet is fresh. -/
def Remembered (now : Int) (entries : List (Bytes × Int)) (packet : Bytes) : Prop :=
  ∃ stamp, stampOf packet = some stamp ∧
    ((∃ u, (S.nonceId packet, u) ∈ entries ∧ stamp + 31 * second ≤ u) ∨ stamp + 31 * second ≤ now)

/-- Entries that can be written and that remember what was returned. -/
structure Covers (now : Int) (epoch : Epoch) (entries : List (Bytes × Int)) (returned : List (Bytes × Bytes)) :
    Prop where
  writable : Writable now entries
  /-- Packets of lower epochs need not be remembered. -/
  remembers : ∀ r ∈ returned, ∃ ep : Epoch, sub r.1 24 16 = sprintf016x ep.val ∧ ep ≤ epoch ∧
    (ep = epoch → S.Remembered now entries r.1)

variable {S} {now now' : Int} {epoch epoch' : Epoch} {entries entries' : List (Bytes × Int)}
  {returned : List (Bytes × Bytes)} {cache : Cache}

/-! ## What keeps the memory -/

/-- What is remembered stays so in entries that keep what has not expired. -/
theorem Remembered.mono {packet : Bytes} (h : S.Remembered now entries packet) (hnow : now ≤ now')
    (hkeep : ∀ u, (S.nonceId packet, u) ∈ entries → u < now' ∨ ∃ v, u ≤ v ∧ (S.nonceId packet, v) ∈ entries') :
    S.Remembered now' entries' packet := by
  obtain ⟨stamp, hsmp, ⟨u, hu, hlate⟩ | hold⟩ := h
  · refine ⟨stamp, hsmp, ?_⟩
    rcases hkeep u hu with hexp | ⟨v, huv, hv⟩
    · exact .inr (hlate.trans hexp.le)
    · exact .inl ⟨v, hv, hlate.trans huv⟩
  · exact ⟨stamp, hsmp, .inr (hold.trans hnow)⟩

section

variable (h : S.Covers now epoch entries returned)
include h

theorem Covers.mono (hnow : now ≤ now') (hwrit : Writable now' entries')
    (hkeep : ∀ k u, (k, u) ∈ entries → u < now' ∨ ∃ v, u ≤ v ∧ (k, v) ∈ entries') :
    S.Covers now' epoch entries' returned where
  writable := hwrit
  remembers := by
    intro r hr
    obtain ⟨ep, htext, hle, hrem⟩ := h.remembers r hr
    exact ⟨ep, htext, hle, fun heq => (hrem heq).mono hnow (hkeep _)⟩

theorem Covers.later (hnow : now ≤ now') : S.Covers now' epoch entries returned :=
  h.mono hnow (h.writable.later hnow) fun _ u hu => .inr ⟨u, le_rfl, hu⟩

/-- The order in which the table is iterated does not matter. -/
theorem Covers.perm (hperm : entries'.Perm entries) : S.Covers now epoch entries' returned :=
  h.mono le_rfl (h.writable.perm hperm) fun _ u hu => .inr ⟨u, le_rfl, hperm.mem_iff.mpr hu⟩

omit h in
theorem Covers.expire {now' : Instant} (h : S.Covers now epoch cache.entries returned) (hnow : now ≤ now'.val) :
    S.Covers now'.val epoch (expire cache now').entries returned := by
  refine h.mono hnow ((h.writable.later hnow).sublist filter_sublist) ?_
  intro k u hu
  rcases lt_or_ge u now'.val with hexp | hkept
  · exact .inl hexp
  · refine .inr ⟨u, le_rfl, mem_filter.mpr ⟨hu, ?_⟩⟩
    simpa using hkept

omit h in
theorem Covers.set {k : Bytes} {u : Int} (h : S.Covers now epoch cache.entries returned) (hnew : k ∉ cache)
    (hwrit : Writable now (cache.set k u).entries) : S.Covers now epoch (cache.set k u).entries returned := by
  refine h.mono le_rfl hwrit ?_
  intro k' u' h'
  refine .inr ⟨u', le_rfl, ?_⟩
  rw [← find?_eq_some_iff] at h' ⊢
  exact find?_set_of_not_mem hnew h'

/-- One more packet of the epoch was returned. -/
theorem Covers.append {r : Bytes × Bytes} (htext : sub r.1 24 16 = sprintf016x epoch.val)
    (hrem : S.Remembered now entries r.1) : S.Covers now epoch entries (returned ++ [r]) where
  writable := h.writable
  remembers := forall_mem_append.mpr ⟨h.remembers, forall_mem_singleton.mpr ⟨epoch, htext, le_rfl, fun _ => hrem⟩⟩

end

/-- **A restart keeps the memory**: what is read from the file covers what the file covered. -/
theorem Covers.load {now : Instant} (h : S.Covers now.val epoch entries returned) (hep : epoch ≤ epoch') :
    ∃ c, initializeStore (some (render epoch entries)) epoch' now = .ok c ∧
      S.Covers now.val epoch' c.entries returned := by
  obtain ⟨c, hload, hsz, hfd⟩ := initializeStore_render h.writable hep
  refine ⟨c, hload, ?_, ?_⟩
  · refine ⟨c.nodup, hsz.trans h.writable.size, ?_, ?_, ?_⟩
    · intro k v hv
      obtain ⟨u, hu, -⟩ := (hfd k v).mp (find?_eq_some_iff.mpr hv)
      exact h.writable.named k u hu
    · intro k v hv
      obtain ⟨u, hu, -, hnow, rfl⟩ := (hfd k v).mp (find?_eq_some_iff.mpr hv)
      exact (Int.natCast_nonneg _).trans hnow
    · intro k v hv
      obtain ⟨u, hu, -, -, rfl⟩ := (hfd k v).mp (find?_eq_some_iff.mpr hv)
      rw [ceilSeconds_whole]
      exact h.writable.near k u hu
  intro r hr
  obtain ⟨ep, htext, hle, hrem⟩ := h.remembers r hr
  refine ⟨ep, htext, hle.trans hep, fun heq => ?_⟩
  have hsm : epoch = epoch' := le_antisymm hep (heq ▸ hle)
  refine (hrem (heq.trans hsm.symm)).mono le_rfl ?_
  intro u hu
  have hup := le_ceilSeconds u
  rcases lt_or_ge (ceilSeconds u * second) now.val with hexp | hkept
  · exact .inl (hup.trans_lt hexp)
  · exact .inr ⟨_, hup, find?_eq_some_iff.mp ((hfd _ _).mpr ⟨u, hu, hsm, hkept, rfl⟩)⟩

theorem sprintf016x_inj (h : sprintf016x epoch.val = sprintf016x epoch'.val) : epoch = epoch' := by
  have hbnd : ∀ e : Epoch, (e.val : Int) < 2 ^ 62 := by
    intro e
    omega
  rw [sprintf016x_eq (Int.natCast_nonneg _) (hbnd epoch), sprintf016x_eq (Int.natCast_nonneg _) (hbnd epoch')] at h
  have hsml : ∀ e : Epoch, (e.val : Int).toNat < 16 ^ 16 := by
    intro e
    omega
  have heq := toHex_inj (hsml epoch) (hsml epoch') h
  exact Subtype.ext (by omega)

/-- What the checks of `unpack` establish. -/
theorem unpackChecks_ok {p pl : Bytes} {now : Instant} (h : S.unpackChecks epoch p now = .ok pl) :
    sub p 24 16 = sprintf016x epoch.val ∧ S.openPacket p = some pl ∧
      ∃ stm, stampOf p = some stm ∧ now.val - 30 * second ≤ stm ∧ stm ≤ now.val + 30 * second := by
  unfold unpackChecks at h
  split at h
  · cases h
  rename_i hhdr
  rw [not_or, not_or, not_not, not_not] at hhdr
  split at h
  · cases h
  rename_i opened ho
  split at h
  · cases h
  rename_i stm hsmp
  split at h
  · cases h
  rename_i hfsh
  cases h
  rw [not_lt, abs_le] at hfsh
  exact ⟨hhdr.2.2, ho, stm, hsmp, by omega, by omega⟩

/-- **A packet that was returned is refused**: its hash is in the cache, expired entries or not. -/
theorem Covers.refuses {p pl : Bytes} {now' : Instant} (h : S.Covers now epoch cache.entries returned)
    (hnow : now ≤ now'.val) (hchk : S.unpackChecks epoch p now' = .ok pl)
    (hret : p ∈ returned.map Prod.fst) : S.nonceId p ∈ Setup.expire cache now' := by
  obtain ⟨htext, -, stamp, hsmp, hearly, -⟩ := unpackChecks_ok hchk
  obtain ⟨r, hr, rfl⟩ := mem_map.mp hret
  obtain ⟨ep, htext', -, hrem⟩ := (h.expire hnow).remembers r hr
  have heq : ep = epoch := sprintf016x_inj (htext'.symm.trans htext)
  obtain ⟨stamp', hsmp', ⟨u, hu, -⟩ | hold⟩ := hrem heq
  · exact mem_keys.mpr ⟨u, hu⟩
  rw [hsmp] at hsmp'
  cases hsmp'
  unfold second at hearly hold
  omega

/-! ## The invariant of a run -/

/-- What a receiver and its disk keep. -/
structure Good (S : Setup) (w : World) : Prop where
  file : ∀ f, w.file = some f → ∃ entries, f.text = render f.writer entries ∧
    S.Covers w.clock.val f.writer entries w.returned
  missing : w.file = none → w.returned = []
  receiver : ∀ p, w.receiver = some p → S.Covers w.clock.val p.epoch p.cache.entries w.returned ∧
    ∀ f, w.file = some f → f.writer ≤ p.epoch
  once : (w.returned.map Prod.fst).Nodup
  genuine : ∀ r ∈ w.returned, r ∈ w.packed
  authentic : ∀ r ∈ w.packed, S.openPacket r.1 = some r.2

variable {w : World}

theorem Good.start : S.Good World.start where
  file := nofun
  missing := fun _ => rfl
  receiver := nofun
  once := nodup_nil
  genuine := nofun
  authentic := nofun

/-- A commit leaves the old file or writes the new one; it writes it if it returns. -/
theorem commit_cases (epoch : Epoch) (entries : List (Bytes × Int)) (fl : Option File) (o : Outcome) :
    (commit epoch entries fl o).2 = some ⟨epoch, render epoch entries⟩ ∨
      ((commit epoch entries fl o).2 = fl ∧ ∃ e, (commit epoch entries fl o).1 = .error e) := by
  unfold commit
  split
  · exact .inr ⟨rfl, _, rfl⟩
  split
  · exact .inr ⟨rfl, _, rfl⟩
  cases o with
  | completed | failedAfter => exact .inl rfl
  | failedBefore => exact .inr ⟨rfl, _, rfl⟩

theorem Good.pack (h : S.Good w) (epoch : Epoch) (p : Bytes) (rnd : Random) (now : Instant) :
    S.Good (S.step w (.pack epoch p rnd now)) :=
  { h with
    genuine := fun r hr => mem_append_left _ (h.genuine r hr)
    authentic := forall_mem_append.mpr ⟨h.authentic, forall_mem_singleton.mpr (S.openPacket_pack epoch p rnd now)⟩ }

/-- A later clock, with another receiver or none. -/
theorem Good.tick {now : Instant} {r : Option Receiver} (h : S.Good w) (hnow : w.clock ≤ now)
    (hrcvr : ∀ p, r = some p → S.Covers now.val p.epoch p.cache.entries w.returned ∧
      ∀ f, w.file = some f → f.writer ≤ p.epoch) : S.Good { w with receiver := r, clock := now } :=
  { h with
    file := by
      intro f hf
      obtain ⟨entries, htext, hcov⟩ := h.file f hf
      exact ⟨entries, htext, hcov.later (Int.ofNat_le.mpr hnow)⟩
    receiver := hrcvr }

theorem step_restart_ok {epoch : Epoch} {now : Instant} {cache : Cache}
    (h : initializeStore (w.file.map File.text) epoch now = .ok cache) :
    S.step w (.restart epoch now) = { w with receiver := some ⟨epoch, cache⟩, clock := now } := by
  unfold Setup.step
  dsimp only
  rw [h]

/-- **A restart.** -/
theorem Good.restart (h : S.Good w) (epoch : Epoch) {now : Instant} (hnow : w.clock ≤ now) :
    S.Good (S.step w (.restart epoch now)) := by
  rcases hfile : w.file with _ | f
  · -- there is no file, and nothing was returned
    have hload : initializeStore (w.file.map File.text) epoch now = .ok .empty := by
      rw [hfile]
      rfl
    rw [step_restart_ok hload]
    refine h.tick hnow ?_
    rintro p ⟨⟩
    refine ⟨⟨⟨nodup_nil, Nat.zero_le _, nofun, nofun, nofun⟩, ?_⟩, ?_⟩
    · rw [h.missing hfile]
      exact nofun
    · intro f hf
      rw [hfile] at hf
      cases hf
  obtain ⟨entries, htext, hcov⟩ := h.file f hfile
  have hcov := hcov.later (Int.ofNat_le.mpr hnow)
  have hcon : w.file.map File.text = some (render f.writer entries) := by
    rw [hfile, ← htext]
    rfl
  by_cases hep : f.writer ≤ epoch
  · obtain ⟨c, hload, hc⟩ := hcov.load hep
    rw [← hcon] at hload
    rw [step_restart_ok hload]
    refine h.tick hnow ?_
    rintro p ⟨⟩
    refine ⟨hc, ?_⟩
    intro f' hf'
    rw [hfile] at hf'
    cases hf'
    exact hep
  have hload := initializeStore_rollback hcov.writable hep
  rw [← hcon] at hload
  dsimp only [Setup.step]
  rw [hload]
  exact h.tick hnow fun p hp => nomatch hp

/-- A receiver goes on with a cache that covers what was returned, and its file is the old one or has this cache. -/
theorem Good.proceed {p : Receiver} {now : Instant} {cache : Cache} {fl : Option File}
    {returned : List (Bytes × Bytes)} (h : S.Good w) (hnow : w.clock ≤ now) (hp : w.receiver = some p)
    (hcache : S.Covers now.val p.epoch cache.entries returned)
    (hfile : fl = some ⟨p.epoch, render p.epoch (S.iterate cache.entries)⟩ ∨ (fl = w.file ∧ returned = w.returned))
    (honce : (returned.map Prod.fst).Nodup) (hgen : ∀ r ∈ returned, r ∈ w.packed) :
    S.Good ⟨some { p with cache := cache }, fl, now, w.packed, returned⟩ where
  file := by
    intro f hf
    rcases hfile with hnew | ⟨hsm, hret⟩
    · rw [hnew] at hf
      cases hf
      exact ⟨_, rfl, hcache.perm (S.iterate_perm _)⟩
    obtain ⟨entries, htext, hcov⟩ := h.file f (hsm.symm.trans hf)
    refine ⟨entries, htext, ?_⟩
    rw [hret]
    exact hcov.later (Int.ofNat_le.mpr hnow)
  missing := by
    intro hnone
    rcases hfile with hnew | ⟨hsm, hret⟩
    · rw [hnew] at hnone
      cases hnone
    · exact hret.trans (h.missing (hsm.symm.trans hnone))
  receiver := by
    rintro p' ⟨⟩
    refine ⟨hcache, ?_⟩
    intro f hf
    rcases hfile with hnew | ⟨hsm, -⟩
    · rw [hnew] at hf
      cases hf
      exact le_rfl
    · exact (h.receiver p hp).2 f (hsm.symm.trans hf)
  once := honce
  genuine := hgen
  authentic := h.authentic

theorem Good.commit (h : S.Good w) (o : Outcome) : S.Good (S.step w (.commit o)) := by
  rcases hp : w.receiver with _ | p
  · have hstep : S.step w (.commit o) = w := by
      unfold Setup.step
      rw [hp]
    rw [hstep]
    exact h
  have hstep : S.step w (.commit o) = ⟨some { p with cache := p.cache },
      (ReplayStore.commit p.epoch (S.iterate p.cache.entries) w.file o).2, w.clock, w.packed, w.returned⟩ := by
    unfold Setup.step
    rw [hp]
  rw [hstep]
  refine h.proceed le_rfl hp (h.receiver p hp).1 ?_ h.once h.genuine
  rcases commit_cases p.epoch (S.iterate p.cache.entries) w.file o with hnew | ⟨hsm, -⟩
  · exact .inl hnew
  · exact .inr ⟨hsm, rfl⟩

/-- What a call of `unpack` can do: refuse the packet, fail to commit, or return its payload. -/
theorem unpack_cases (p : Receiver) (fl : Option File) (pk : Bytes) (now : Instant) (o : Outcome) :
    (∃ e cache, (cache = p.cache ∨ cache = expire p.cache now) ∧
      S.unpack p fl pk now o = (.error e, cache, fl)) ∨
    ∃ payload cache, S.unpackChecks p.epoch pk now = .ok payload ∧ S.nonceId pk ∉ expire p.cache now ∧
      (expire p.cache now).size < 4096 ∧ cache = (expire p.cache now).set (S.nonceId pk) (now.val + 61 * second) ∧
      ((∃ e, ∃ fl', (fl' = fl ∨ fl' = some ⟨p.epoch, render p.epoch (S.iterate cache.entries)⟩) ∧
        S.unpack p fl pk now o = (.error e, cache, fl')) ∨ S.unpack p fl pk now o =
        (.ok payload, cache, some ⟨p.epoch, render p.epoch (S.iterate cache.entries)⟩)) := by
  unfold Setup.unpack
  cases hchk : S.unpackChecks p.epoch pk now with
  | error e => exact .inl ⟨e, p.cache, .inl rfl, rfl⟩
  | ok payload =>
    dsimp only
    split
    · exact .inl ⟨_, _, .inr rfl, rfl⟩
    rename_i hnew
    split
    · exact .inl ⟨_, _, .inr rfl, rfl⟩
    rename_i hsz
    refine .inr ⟨payload, _, rfl, hnew, not_le.mp hsz, rfl, ?_⟩
    have hcom := commit_cases p.epoch
      (S.iterate ((expire p.cache now).set (S.nonceId pk) (now.val + 61 * second)).entries) fl o
    generalize ReplayStore.commit p.epoch
      (S.iterate ((expire p.cache now).set (S.nonceId pk) (now.val + 61 * second)).entries) fl o
        = result at hcom ⊢
    obtain ⟨answer, fl'⟩ := result
    rcases hcom with rfl | ⟨rfl, e, rfl⟩
    · cases answer with
      | error e => exact .inl ⟨e, _, .inr rfl, rfl⟩
      | ok u => exact .inr rfl
    · exact .inl ⟨e, _, .inl rfl, rfl⟩

/-- **A call of `unpack`.** -/
theorem Good.unpack (h : S.Good w) {packet : Bytes} {now : Instant} (outcome : Outcome) (hnow : w.clock ≤ now)
    (hpkt : S.openPacket packet = none ∨ packet ∈ w.packed.map Prod.fst) :
    S.Good (S.step w (.unpack packet now outcome)) := by
  rcases hp : w.receiver with _ | p
  · have hstep : S.step w (.unpack packet now outcome) = { w with receiver := none, clock := now } := by
      unfold Setup.step
      rw [hp]
    rw [hstep]
    exact h.tick hnow fun p hp => nomatch hp
  have hstep : S.step w (.unpack packet now outcome) =
      ⟨some { p with cache := (S.unpack p w.file packet now outcome).2.1 },
        (S.unpack p w.file packet now outcome).2.2, now, w.packed,
        w.answered packet (S.unpack p w.file packet now outcome).1⟩ := by
    unfold Setup.step
    rw [hp]
  have hle : (w.clock.val : Int) ≤ now.val := Int.ofNat_le.mpr hnow
  have hcov := (h.receiver p hp).1
  rw [hstep]
  rcases S.unpack_cases p w.file packet now outcome with
    ⟨e, cache, hcache, heq⟩ | ⟨payload, cache, hchk, hnew, hsz, rfl, hrs⟩
  · -- refused: at most expired entries are gone
    rw [heq]
    refine h.proceed hnow hp ?_ (.inr ⟨rfl, rfl⟩) h.once h.genuine
    rcases hcache with rfl | rfl
    · exact hcov.later hle
    · exact hcov.expire hle
  obtain ⟨htext, ho, stamp, hsmp, hearly, hlate⟩ := unpackChecks_ok hchk
  have hexp := hcov.expire hle
  have hwrit : Writable now.val ((expire p.cache now).set (S.nonceId packet) (now.val + 61 * second)).entries := by
    refine hexp.writable.set hnew hsz (S.hex_digest _) ?_ ?_
    · omega
    · have hup := ceilSeconds_lt (now.val + 61 * second)
      omega
  have hset := hexp.set hnew hwrit
  rcases hrs with ⟨e, file', hfile', heq⟩ | heq
  · rw [heq]
    refine h.proceed hnow hp hset ?_ h.once h.genuine
    rcases hfile' with rfl | rfl
    · exact .inr ⟨rfl, rfl⟩
    · exact .inl rfl
  rw [heq]
  -- the packet is returned: it is new, and it is remembered from now on
  have hrem : S.Remembered now.val
      ((expire p.cache now).set (S.nonceId packet) (now.val + 61 * second)).entries packet := by
    refine ⟨stamp, hsmp, .inl ⟨_, find?_eq_some_iff.mp (find?_set_self _ _ _), ?_⟩⟩
    omega
  refine h.proceed hnow hp (hset.append htext hrem) (.inl rfl) ?_ ?_
  · show ((w.returned ++ [(packet, payload)]).map Prod.fst).Nodup
    rw [map_append, nodup_append]
    refine ⟨h.once, nodup_singleton _, ?_⟩
    rintro a ha b hb rfl
    rw [map_singleton, mem_singleton] at hb
    subst hb
    exact hnew (hcov.refuses hle hchk ha)
  refine forall_mem_append.mpr ⟨h.genuine, forall_mem_singleton.mpr ?_⟩
  rcases hpkt with hnone | hpac
  · rw [ho] at hnone
    cases hnone
  obtain ⟨⟨q, plain⟩, hq, rfl⟩ := mem_map.mp hpac
  have hpl := h.authentic _ hq
  rw [ho] at hpl
  cases hpl
  exact hq

theorem Good.step (h : S.Good w) (v : Activity) (hv : S.Admissible w v) : S.Good (S.step w v) := by
  cases v with
  | pack epoch payload r now => exact h.pack epoch payload r now
  | restart epoch now => exact h.restart epoch hv
  | commit o => exact h.commit o
  | unpack packet now o => exact h.unpack o hv.1 hv.2

/-- What a receiver guarantees across restarts. -/
structure AtMostOnce (w : World) : Prop where
  /-- No packet is unpacked twice. -/
  once : (w.returned.map Prod.fst).Nodup
  /-- What `unpack` returns is the payload of a packet that was packed. -/
  genuine : ∀ r ∈ w.returned, r ∈ w.packed
  /-- The file that was written last is accepted by every later `initialize` of its epoch or a higher one. -/
  accepted : ∀ f, w.file = some f → ∀ epoch now, f.writer ≤ epoch → w.clock ≤ now →
    ∃ cache, initializeStore (some f.text) epoch now = .ok cache

/-- **Datagrams are unpacked at most once**, across any restarts, and no file that was written is refused. -/
theorem unpack_at_most_once (S : Setup) (run : List Activity) (h : Along S.step S.Admissible World.start run) :
    AtMostOnce (S.after run) := by
  have hgood : S.Good (S.after run) := h.invariant (I := S.Good) (fun _ v hw hv => hw.step v hv) .start
  refine ⟨hgood.once, hgood.genuine, ?_⟩
  intro f hf epoch now hepoch hnow
  obtain ⟨entries, htext, hcovers⟩ := hgood.file f hf
  obtain ⟨c, hload, -⟩ := (hcovers.later (Int.ofNat_le.mpr hnow)).load hepoch
  rw [htext]
  exact ⟨c, hload⟩

def sample : Setup where
  aead := Aead.checksum
  derive := fun salt material info => salt ++ material ++ info
  digest := fun b => toHex 64 (ofBE b)
  key := [5]
  direction := utf8 "S6EPE/3 request"
  iterate := id
  hex_digest := by
    intro b
    unfold hex
    rw [Bool.and_eq_true, decide_eq_true_eq, all_eq_true]
    exact ⟨length_toHex _ _, isHexDigit_toHex _ _⟩
  iterate_perm := fun l => List.Perm.refl l

/-- A packet that was packed at noon. -/
def noonPacket : Bytes := sample.pack ⟨1, by decide⟩ [7, 8] ⟨replicate 32 3, rfl⟩ 43200000000

/-- It arrives twice, the receiver is restarted, and it arrives again. -/
def replayed : List Activity :=
  [.restart ⟨1, by decide⟩ 43200000000, .pack ⟨1, by decide⟩ [7, 8] ⟨replicate 32 3, rfl⟩ 43200000000,
    .unpack noonPacket 43201500000 .completed, .unpack noonPacket 43202000000 .completed,
    .restart ⟨1, by decide⟩ 43220000000, .unpack noonPacket 43229000000 .completed]

theorem unpack_at_most_once_replayed : Along sample.step sample.Admissible World.start replayed ∧
    (sample.after replayed).returned = [(noonPacket, [7, 8])] ∧ AtMostOnce (sample.after replayed) :=
  have hrun : Along sample.step sample.Admissible World.start replayed := by decide +kernel
  ⟨hrun, by decide +kernel, unpack_at_most_once sample replayed hrun⟩

end Setup

end Shadow6.PrivacyEnvelope.Forward
