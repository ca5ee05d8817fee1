import Shadow6.PrivacyEnvelope.Records

/-!
# `PrivacyEnvelope.Sealing` — one record from `seal` to `open_record`

A record that was sealed by one context is given to another one with the same settings. Its header is read back field
by field, so the checks before decryption come down to the window and the final counts (`openChecks_carried`). If the
receiver arrives at the key that the record was sealed with, it decrypts the plain text and reads the frame back
(`decode_carried`).

An `Entry` is a sealed record with the context it was sealed in, before the call.
-/

namespace Shadow6.PrivacyEnvelope

open Library Library.Json List

/-- What `random_nonce` returns. -/
abbrev RandomNonce := { b : Bytes // b.length = 32 }

/-- What is assumed of the cipher. -/
structure Crypto.Lawful (C : Crypto) : Prop where
  opens : ∀ key nonce ad plain, C.openCapsule key nonce ad (C.sealed key nonce ad plain) = .ok plain
  length_sealed : ∀ key nonce ad plain, (C.sealed key nonce ad plain).length = plain.length + 16

/-- `m'` is `m` as a carrier hands it over: the send context is not transported. -/
structure Message.Carries (m m' : Message) : Prop where
  channel : m'.channel = m.channel
  ppid : m'.ppid = m.ppid
  payload : m'.payload = m.payload

instance (m m' : Message) : Decidable (m.Carries m') :=
  decidable_of_iff (m'.channel = m.channel ∧ m'.ppid = m.ppid ∧ m'.payload = m.payload)
    ⟨fun h => ⟨h.1, h.2.1, h.2.2⟩, fun h => ⟨h.channel, h.ppid, h.payload⟩⟩

namespace MessageSecurity

variable {C : Crypto} {t before : MessageSecurity} {ch : Channel} {s r : ChannelState} {frm : Frame}

/-! ## The header -/

theorem length_magic : (utf8 "S6EP3M00").length = 8 := by decide

theorem length_header (t : MessageSecurity) (sq : Int) (rnd : RandomNonce) : (t.header sq rnd.val).length = 44 := by
  unfold header
  rw [length_append, length_append, length_append, length_magic, length_putInt, length_putInt,
    length_take, rnd.property]
  rfl

theorem header_magic (sq : Int) (rnd rs : Bytes) : sub (t.header sq rnd ++ rs) 0 8 = utf8 "S6EP3M00" := by
  have hfld := sub_field [] (utf8 "S6EP3M00") (putInt 4 t.keyEpoch ++ (putInt 8 sq ++ (rnd.take 24 ++ rs)))
  rw [length_magic] at hfld
  unfold header
  simpa using hfld

theorem header_keyEpoch (sq : Int) (rnd rs : Bytes) :
    getInt32 (t.header sq rnd ++ rs) 8 = signed 32 (t.keyEpoch % 2 ^ 32).toNat := by
  have hfld := sub_field (utf8 "S6EP3M00") (putInt 4 t.keyEpoch) (putInt 8 sq ++ (rnd.take 24 ++ rs))
  rw [length_magic, length_putInt] at hfld
  have hsub : sub (t.header sq rnd ++ rs) 8 4 = putInt 4 t.keyEpoch := by
    unfold header
    simpa using hfld
  have hlt : (t.keyEpoch % 256 ^ 4).toNat < 256 ^ 4 := by omega
  unfold getInt32
  rw [hsub, putInt, ofBE_toBE_of_lt hlt]
  norm_num

theorem header_sequence {sequence : Int} (h : 0 ≤ sequence ∧ sequence < 1000000) (random rest : Bytes) :
    getInt64 (t.header sequence random ++ rest) 12 = sequence := by
  have hfld := getInt64_putInt (utf8 "S6EP3M00" ++ putInt 4 t.keyEpoch) (random.take 24 ++ rest) h.1 (by omega)
  rw [length_append, length_magic, length_putInt] at hfld
  unfold header
  simpa using hfld

/-! ## `seal` -/

/-- The record that `seal` makes of a plain text. -/
def record (C : Crypto) (t : MessageSecurity) (random : Bytes) (channel : Channel) (body : Bytes) (s : ChannelState) :
    Message :=
  let header := t.header s.sent random
  let plain := body ++ replicate (t.paddedLength body.length - body.length).toNat 0
  ⟨channel, t.wirePpid, s.sent,
    header ++ C.sealed (s.stepTx C).tx.key (sub header 20 24) (authenticated channel header) plain⟩

/-- The context after a record was sealed. -/
def sealedRecord (C : Crypto) (t : MessageSecurity) (frame : Frame) (channel : Channel) (body : Bytes)
    (s : ChannelState) : MessageSecurity :=
  { t.setState channel.id { s.stepTx C with sent := s.sent + 1 } with
    budget := t.budget - t.overheadOf frame body.length
    overhead := t.overhead + t.overheadOf frame body.length }.sealedFrame frame

theorem stepTx_sent (C : Crypto) (s : ChannelState) : (s.stepTx C).sent = s.sent := by
  unfold ChannelState.stepTx
  split <;> rfl

theorem sealRecord_prepared {rnd body : Bytes} (hprep : t.prepare frm = .ok (ch, body, s)) :
    t.sealRecord C frm rnd =
      if t.overheadOf frm body.length > t.budget then (.error .resourceLimit, t.setState ch.id (s.stepTx C))
      else (.ok (record C t rnd ch body s), sealedRecord C t frm ch body s) := by
  unfold sealRecord
  rw [hprep]
  dsimp only
  rw [stepTx_sent]
  rfl

/-- **What a call of `seal` does.** It is refused and changes nothing; or it is refused for its overhead, with the
    sending ratchet moved already; or it seals the record. -/
theorem sealRecord_cases (C : Crypto) (t : MessageSecurity) (fra : Frame) (rnd : Bytes) :
    (∃ e, t.sealRecord C fra rnd = (.error e, t)) ∨ ∃ ch body s, Prepared t fra ch body s ∧
      (t.sealRecord C fra rnd = (.error .resourceLimit, t.setState ch.id (s.stepTx C)) ∨
        t.sealRecord C fra rnd =
          (.ok (record C t rnd ch body s), sealedRecord C t fra ch body s)) := by
  cases hprep : t.prepare fra with
  | error e =>
    refine .inl ⟨e, ?_⟩
    unfold sealRecord
    rw [hprep]
  | ok p =>
    obtain ⟨channel, body, s⟩ := p
    refine .inr ⟨channel, body, s, prepare_eq_ok hprep, ?_⟩
    rw [sealRecord_prepared hprep]
    split_ifs
    · exact .inl rfl
    · exact .inr rfl

/-- The conditions under which a frame may be sealed, and the channel it goes to. -/
def Admits (t : MessageSecurity) (channel : Channel) : Frame → Prop
  | .data message => channel = message.channel ∧ ∃ s, t.channels.find? message.channel.id = some s ∧
      s.txClosed = false ∧ message.channel.reliability = s.policy
  | .reset r => channel = control ∧ ∀ id ∈ t.resetIds r, id ∈ t.channels
  | .channelClose id => channel = control ∧ ∃ s, t.channels.find? id = some s ∧ s.txClosed = false
  | .final => channel = control
  | .cover => channel = control
  | .discard id n => channel = control ∧ ∃ s, t.channels.find? id = some s ∧ s.policy ≠ .reliable ∧ 0 ≤ n ∧ n < s.sent
  | .resetConfirmed _ _ => False
  | .channelCloseConfirmed _ _ => False

theorem Prepared.admits {body : Bytes} (h : Prepared t frm ch body s) : t.Admits ch frm ∧ body ≠ [] := by
  have hwr := h.written
  cases frm with
  | data message =>
    obtain ⟨_, -, hwr⟩ := bind_eq_ok.mp hwr
    obtain ⟨s', hst, hwr⟩ := bind_eq_ok.mp hwr
    obtain ⟨_, hpol, hwr⟩ := bind_eq_ok.mp hwr
    cases hwr
    obtain ⟨ho, hpol⟩ := not_or.mp (raiseIf_eq_ok.mp hpol)
    exact ⟨⟨rfl, s', state_eq_ok.mp hst, Bool.eq_false_iff.mpr ho, not_not.mp hpol⟩, cons_ne_nil _ _⟩
  | reset r =>
    obtain ⟨_, -, hwr⟩ := bind_eq_ok.mp hwr
    obtain ⟨_, -, hwr⟩ := bind_eq_ok.mp hwr
    obtain ⟨targets, htgt, hwr⟩ := bind_eq_ok.mp hwr
    cases hwr
    exact ⟨⟨rfl, (putTargets_eq_ok htgt).2⟩, cons_ne_nil _ _⟩
  | channelClose id =>
    obtain ⟨s', hst, hwr⟩ := bind_eq_ok.mp hwr
    obtain ⟨_, ho, hwr⟩ := bind_eq_ok.mp hwr
    cases hwr
    exact ⟨⟨rfl, s', state_eq_ok.mp hst, Bool.eq_false_iff.mpr (raiseIf_eq_ok.mp ho)⟩, cons_ne_nil _ _⟩
  | final =>
    obtain ⟨_, -, hwr⟩ := bind_eq_ok.mp hwr
    cases hwr
    exact ⟨rfl, cons_ne_nil _ _⟩
  | cover =>
    cases hwr
    exact ⟨rfl, cons_ne_nil _ _⟩
  | discard id n =>
    obtain ⟨s', hst, hwr⟩ := bind_eq_ok.mp hwr
    obtain ⟨_, hev, hwr⟩ := bind_eq_ok.mp hwr
    cases hwr
    obtain ⟨hpol, hrg⟩ := not_or.mp (raiseIf_eq_ok.mp hev)
    exact ⟨⟨rfl, s', state_eq_ok.mp hst, hpol, by omega, by omega⟩, cons_ne_nil _ _⟩
  | resetConfirmed r ts | channelCloseConfirmed id count => cases hwr

theorem Prepared.policy {body : Bytes} (h : Prepared t frm ch body s) (hbdd : t.Bounded) :
    ch.reliability = s.policy := by
  have hctl : ch = control → ch.reliability = s.policy := by
    rintro rfl
    obtain ⟨s', hs', hpol⟩ := hbdd.control
    have hsm : some s = some s' := h.found.symm.trans hs'
    cases hsm
    exact hpol.symm
  have hadm := h.admits.1
  cases frm with
  | data message =>
    obtain ⟨rfl, s', hs', -, hpol⟩ := hadm
    have hsm : some s = some s' := h.found.symm.trans hs'
    cases hsm
    exact hpol
  | reset r | channelClose id | discard id n => exact hctl hadm.1
  | final | cover => exact hctl hadm
  | resetConfirmed r ts | channelCloseConfirmed id count => exact hadm.elim

end MessageSecurity

/-! ## Entries -/

/-- A record that was sealed, with the context before the call. -/
structure Entry where
  before : MessageSecurity
  frame : Frame
  random : RandomNonce
  message : Message

namespace Entry

open MessageSecurity

/-- The channel of the record. -/
def id (e : Entry) : Int := e.message.channel.id

/-- The sequence number of the record. -/
def number (e : Entry) : Int := sequenceOf e.message

/-- The key that the record was sealed with. -/
def key (C : Crypto) (e : Entry) : Option Bytes := (e.before.channels.find? e.id).map fun s => (s.stepTx C).tx.key

/-- The record was sealed in its context, with this plain text and this state of its channel. -/
structure Made (C : Crypto) (e : Entry) (body : Bytes) (s : ChannelState) : Prop where
  prepared : Prepared e.before e.frame e.message.channel body s
  message : e.message = record C e.before e.random.val e.message.channel body s
  bounded : e.before.Bounded

variable {C : Crypto} {e : Entry} {bd : Bytes} {s : ChannelState}

theorem Made.found (h : e.Made C bd s) : e.before.channels.find? e.id = some s := h.prepared.found

theorem Made.sent_range (h : e.Made C bd s) : 0 ≤ s.sent ∧ s.sent < 1000000 :=
  ⟨(h.bounded.sent _ _ h.found).1, h.prepared.room⟩

theorem Made.number (h : e.Made C bd s) : e.number = s.sent := by
  unfold Entry.number sequenceOf
  rw [h.message]
  exact header_sequence h.sent_range _ _

theorem Made.key (h : e.Made C bd s) : e.key C = some (s.stepTx C).tx.key := by
  unfold Entry.key
  rw [h.found]
  rfl

end Entry

/-! ## `open_record` on a sealed record -/

/-- Contexts with the same settings and channels. -/
structure MessageSecurity.Alike (t t' : MessageSecurity) : Prop where
  skeleton : t'.skeleton = t.skeleton
  maximum : t'.maximum = t.maximum
  keyEpoch : t'.keyEpoch = t.keyEpoch
  wirePpid : t'.wirePpid = t.wirePpid

namespace Entry

open MessageSecurity

variable {C : Crypto} {e : Entry} {bo : Bytes} {s r : ChannelState} {m : Message} {t : MessageSecurity}

theorem Made.receiver (h : e.Made C bo s) (hal : e.before.Alike t) :
    ∃ r, t.channels.find? e.id = some r ∧ r.policy = s.policy := policy_of_skeleton hal.skeleton h.found

theorem Made.sequenceOf_carried (h : e.message.Carries m) : sequenceOf m = e.number := by
  unfold Entry.number sequenceOf
  rw [h.payload]

/-- The bytes of a record. -/
theorem Made.payload (h : e.Made C bo s) (hlaw : C.Lawful) (hcar : e.message.Carries m) :
    ∃ cipher plain k, m.payload = e.before.header s.sent e.random.val ++ cipher ∧
      plain = bo ++ replicate k 0 ∧ cipher.length = plain.length + 16 ∧
      C.openCapsule (s.stepTx C).tx.key (sub (e.before.header s.sent e.random.val) 20 24)
        (authenticated e.message.channel (e.before.header s.sent e.random.val)) cipher = .ok plain := by
  have hpay : m.payload = (record C e.before e.random.val e.message.channel bo s).payload := by
    rw [hcar.payload, ← h.message]
  exact ⟨_, _, _, hpay, rfl, hlaw.length_sealed _ _ _ _, hlaw.opens _ _ _ _⟩

/-- **The checks before decryption**, for a record that was sealed: the window and the final counts. -/
theorem Made.openChecks_carried (h : e.Made C bo s) (hlaw : C.Lawful) (hal : e.before.Alike t)
    (hcar : e.message.Carries m) (hr : t.channels.find? e.id = some r) : t.openChecks m = (do
      t.check
      validateMessage 73728 m
      raiseIf (e.number ≤ r.highest - window ∨ e.number ∈ r.seen ∨ e.number < r.frontier) .replay
      raiseIf (e.number > r.frontier + window) .resourceLimit
      t.withinFinal e.id e.number
      return r) := by
  have hst : t.state m.channel.id = .ok r := by
    rw [hcar.channel]
    exact state_eq_ok.mpr hr
  have hbin : ¬ (m.channel.reliability ≠ r.policy ∨ m.ppid ≠ t.wirePpid) := by
    obtain ⟨r', hr', hpol⟩ := h.receiver hal
    rw [hr] at hr'
    cases hr'
    have hppid : e.message.ppid = e.before.wirePpid := by
      rw [h.message]
      rfl
    rw [hcar.channel, hcar.ppid, h.prepared.policy h.bounded, hpol, hppid, hal.wirePpid]
    tauto
  have hsch : ¬ (m.payload.length < 61 ∨ sub m.payload 0 8 ≠ utf8 "S6EP3M00" ∨
      getInt32 m.payload 8 ≠ signed 32 (t.keyEpoch % 2 ^ 32).toNat) := by
    obtain ⟨cipher, plain, k, hpay, hpl, hlen, -⟩ := h.payload hlaw hcar
    have hbody := length_pos_of_ne_nil h.prepared.admits.2
    have hhdr := length_header e.before s.sent e.random
    have hwidth : plain.length = bo.length + k := by
      rw [hpl, length_append, length_replicate]
    rw [hpay, header_magic, header_keyEpoch, hal.keyEpoch, length_append]
    rintro (hsh | hmagic | hep)
    · omega
    · exact hmagic rfl
    · exact hep rfl
  have hseq := Made.sequenceOf_carried hcar
  have hrg : ¬ (e.number < 0 ∨ e.number ≥ 1000000) := by
    have hsn := h.sent_range
    rw [h.number]
    omega
  unfold openChecks
  rw [hst, ok_bind, raiseIf_neg hbin, ok_bind]
  dsimp only
  rw [raiseIf_neg hsch, ok_bind, hseq, raiseIf_neg hrg, ok_bind, hcar.channel]
  rfl

/-- **A sealed record is decrypted and read back**, if the receiver arrives at its key. -/
theorem Made.decode_carried {key : Bytes} {dr : List (Int × Bytes)} (h : e.Made C bo s) (hlaw : C.Lawful)
    (hal : e.before.Alike t) (hcar : e.message.Carries m)
    (hkey : receiveKey C r.rx (e.number / 4096) = .ok (key, dr)) (hsm : e.key C = some key) :
    t.decode C r m = (readBack e.before t e.frame >>= fun p => .ok (p.1, p.2, key, dr)) := by
  obtain ⟨cipher, plain, k, hpay, hpl, -, hopens⟩ := h.payload hlaw hcar
  have hhdr := length_header e.before s.sent e.random
  have hnon : sub m.payload 20 24 = sub (e.before.header s.sent e.random.val) 20 24 := by
    unfold sub
    rw [hpay, drop_append_of_le_length (by omega), take_append_of_le_length (by simp [hhdr])]
  have hfro : sub m.payload 0 44 = e.before.header s.sent e.random.val := by
    unfold sub
    rw [hpay, drop_zero, take_left' hhdr]
  have hcip : m.payload.drop 44 = cipher := by
    rw [hpay, drop_left' hhdr]
  have hkey' : (s.stepTx C).tx.key = key := Option.some.inj (h.key.symm.trans hsm)
  have hprs := parse_body h.prepared hal.skeleton h.bounded hal.maximum k
  unfold decode
  dsimp only
  rw [Made.sequenceOf_carried hcar, hkey, ok_bind]
  rw [hnon, hfro, hcip, hcar.channel, ← hkey', hopens, ok_bind, h.number, hpl, hprs]
  rfl

end Entry

end Shadow6.PrivacyEnvelope
