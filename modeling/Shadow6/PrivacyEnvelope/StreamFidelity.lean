import Shadow6.PrivacyEnvelope.Session

/-!
# `PrivacyEnvelope.StreamFidelity` — bridges copy streams faithfully

What one bridge puts on the carrier is the stream of the records it has framed (`Sends`), and what the other one has
taken from it is the stream of the records it has delivered with a part of the next one (`Hears`). Every part of a
round keeps both, whatever the reads and writes take; what the local sockets see follows (`bridge_faithful`).
-/

namespace Shadow6.PrivacyEnvelope.Session

open Library Library.Json List Bridge Session.Frame SecretStream

variable {C : SecretStream Tag} {shape : Shape} {pol : Policy} {b : Bridge C} {s : C.Push} {f : Frame}

/-! ## Records -/

/-- The payload bytes of some records. -/
def payloads (frames : List Frame) : Bytes := frames.flatMap payload

/-- Records as the cipher sees them. -/
def Frame.record (shape : Shape) (f : Frame) : Bytes × Tag := (f.body shape, f.tag)

def streamOf (shape : Shape) (s : C.Push) (frames : List Frame) : Bytes :=
  C.stream ad s (frames.map (record shape))

def stateAfter (shape : Shape) (s : C.Push) (frames : List Frame) : C.Push :=
  C.pushed ad s (frames.map (record shape))

/-- A record that a bridge frames. -/
structure Frame.Fits (shape : Shape) (f : Frame) : Prop where
  bounded : f.payload.length ≤ shape.maxFrame
  covered : f.cover = true → f.payload = []
  ending : f.tag = .final → f.payload = [] ∧ f.cover = false

theorem Shape.padded_le (shape : Shape) (sz : Nat) : shape.padded sz ≤ sz + 4096 := by
  unfold Shape.padded
  split
  · exact Nat.le_add_right _ _
  have hbnd := shape.padding_bound
  have hle := Nat.div_mul_le_self (sz + shape.paddingBlock - 1) shape.paddingBlock
  omega

theorem Frame.length_body (hf : f.Fits shape) : (f.body shape).length ≤ shape.maxFrame + 5 + 4096 := by
  unfold body
  split
  · exact Nat.zero_le _
  have hhigh := shape.padded_le (f.payload.length + 5)
  have hbnd := hf.bounded
  simp only [length_cons, length_append, length_toBE, length_replicate]
  omega

theorem getInt32_toBE {n : Nat} {frn rest : Bytes} (h : n < 2 ^ 31) :
    getInt32 (frn ++ (toBE 4 n ++ rest)) frn.length = n := by
  have hsub : sub (frn ++ (toBE 4 n ++ rest)) frn.length 4 = toBE 4 n := by
    unfold sub
    have htake : (toBE 4 n ++ rest).take (toBE 4 n).length = toBE 4 n := take_left
    rw [length_toBE] at htake
    rw [drop_left, htake]
  unfold getInt32 signed
  rw [hsub, ofBE_toBE_of_lt (h.trans (by norm_num)), if_pos h]

/-! ## Sending -/

/-- What a bridge keeps about the records it frames; `base` is what it was. -/
structure Sends (shape : Shape) (policy : Policy) (s : C.Push) (base b : Bridge C) : Prop where
  /-- What was sent and what waits is the stream of the records. -/
  stream : b.sent ++ b.wire = streamOf shape s b.frames
  state : b.sending = stateAfter shape s b.frames
  fits : ∀ f ∈ b.frames, f.Fits shape
  counted : b.frames.length ≤ b.txRecords
  records : b.frames.length ≤ 1000000
  covers : b.frames.countP cover = b.covers
  coverLimit : b.covers ≤ policy.coverLimit
  /-- The payloads are what was read, but for a chunk that could not be framed. -/
  front : payloads b.frames <+: b.input
  whole : b.raised = none → b.input = payloads b.frames
  closed : (∃ f ∈ b.frames, f.tag = .final) → b.outbound = false ∧ b.input = payloads b.frames
  /-- Nothing follows a final record. -/
  last : ∀ f ∈ b.frames.dropLast, f.tag ≠ .final
  active : b.outbound = true → b.sendActive = true
  onward : base.frames <+: b.frames
  ahead : base.sent.length ≤ b.sent.length

theorem Sends.rebase {base : Bridge C} (h : Sends shape pol s base b) : Sends shape pol s b b :=
  { h with onward := prefix_rfl, ahead := le_rfl }

/-- `frame` makes a record or raises, for a reason of the sender. -/
theorem frame_cases (b : Bridge C) (f : Frame) : (∃ r bd, r.ofRecord = false ∧
      b.frame shape f =
        { b with txRecords := b.txRecords + 1, shapingRemaining := bd, raised := some r }) ∨
    (b.txRecords + 1 ≤ 1000000 ∧ ∃ bd,
      b.frame shape f =
        { b with
          txRecords := b.txRecords + 1
          shapingRemaining := bd
          wire := framed (C.push b.sending ad (f.body shape) f.tag).1
          sending := (C.push b.sending ad (f.body shape) f.tag).2
          sendActive := decide (f.tag ≠ .final)
          frames := b.frames ++ [f] }) := by
  unfold Bridge.frame
  dsimp only
  split
  · exact .inl ⟨.txRecords, b.shapingRemaining, rfl, rfl⟩
  rename_i hrecs
  split
  · exact .inl ⟨.shaping, b.shapingRemaining, rfl, rfl⟩
  split
  · exact .inl ⟨.sendInactive, _, rfl, rfl⟩
  · exact .inr ⟨not_lt.mp hrecs, _, rfl⟩

theorem streamOf_concat (shape : Shape) (s : C.Push) (fs : List Frame) (f : Frame) :
    streamOf shape s (fs ++ [f]) = streamOf shape s fs ++
      framed (C.push (stateAfter shape s fs) ad (f.body shape) f.tag).1 := by
  unfold streamOf stateAfter
  rw [map_append, stream_append]
  exact congrArg _ (append_nil _)

theorem stateAfter_concat (shape : Shape) (s : C.Push) (fs : List Frame) (f : Frame) :
    stateAfter shape s (fs ++ [f]) = (C.push (stateAfter shape s fs) ad (f.body shape) f.tag).2 := by
  unfold stateAfter
  rw [map_append, pushed_append]
  rfl

theorem payloads_concat (fs : List Frame) (f : Frame) : payloads (fs ++ [f]) = payloads fs ++ f.payload := by
  simp [payloads]

theorem countP_concat (fs : List Frame) (f : Frame) : (fs ++ [f]).countP cover = fs.countP cover + f.cover.toNat := by
  rw [countP_append, countP_singleton]
  cases f.cover <;> rfl

/-- **One more record**: what `frame` changes, with the bytes it was made for. -/
theorem Sends.record {base b' : Bridge C} (h : Sends shape pol s base b) (hwire : b.wire = [])
    (hinput : b.input = payloads b.frames) (ho : ∀ g ∈ b.frames, g.tag ≠ .final) (hfits : f.Fits shape)
    (hrecs : b.txRecords + 1 ≤ 1000000) (hfrs : b'.frames = b.frames ++ [f]) (hsn : b'.sent = b.sent)
    (hwire' : b'.wire = framed (C.push b.sending ad (f.body shape) f.tag).1)
    (hsen : b'.sending = (C.push b.sending ad (f.body shape) f.tag).2) (htx : b'.txRecords = b.txRecords + 1)
    (hcov : b'.covers = b.covers + f.cover.toNat) (hlim : b'.covers ≤ pol.coverLimit)
    (hinput' : b'.input = b.input ++ f.payload) (hcl : f.tag = .final → b'.outbound = false)
    (hact : b'.outbound = true → b'.sendActive = true) : Sends shape pol s base b' where
  stream := by
    have hstr := h.stream
    rw [hwire, append_nil] at hstr
    rw [hsn, hwire', hfrs, streamOf_concat, hstr, h.state]
  state := by rw [hsen, hfrs, stateAfter_concat, h.state]
  fits := by
    rw [hfrs]
    exact forall_mem_append.mpr ⟨h.fits, forall_mem_singleton.mpr hfits⟩
  counted := by
    rw [hfrs, htx, length_append]
    exact Nat.succ_le_succ h.counted
  records := by
    have hcoun := h.counted
    rw [hfrs, length_append, length_singleton]
    omega
  covers := by rw [hfrs, countP_concat, h.covers, hcov]
  coverLimit := hlim
  front := by
    rw [hfrs, payloads_concat, hinput', hinput]
  whole := by
    intro _
    rw [hfrs, payloads_concat, hinput', hinput]
  closed := by
    rintro ⟨g, hg, hfin⟩
    rw [hfrs] at hg
    rcases mem_append.mp hg with hg | hg
    · exact absurd hfin (ho g hg)
    rw [mem_singleton.mp hg] at hfin
    rw [hfrs, payloads_concat, hinput', hinput]
    exact ⟨hcl hfin, rfl⟩
  last := by
    rw [hfrs, dropLast_concat]
    exact ho
  active := hact
  onward := by
    rw [hfrs]
    exact h.onward.trans (prefix_append _ _)
  ahead := by
    rw [hsn]
    exact h.ahead

section

variable {bs : Bridge C} (h : Sends shape pol s bs b)
include h

/-- A bridge that still reads its local socket has not framed a final record. -/
theorem Sends.opened (hout : b.outbound = true) : ∀ f ∈ b.frames, f.tag ≠ .final := by
  intro f hf hfin
  rw [(h.closed ⟨f, hf, hfin⟩).1] at hout
  cases hout

theorem Sends.readLocal (now : Int) (ch : Bytes) (hexc : b.raised = none) (hout : b.outbound = true)
    (hwire : b.wire = []) : Sends shape pol s bs (b.readLocal shape now ch) := by
  have ho := h.opened hout
  have hinput := h.whole hexc
  unfold Bridge.readLocal
  dsimp only
  split
  · -- the end of the local stream: a final record
    rcases frame_cases { b with outbound := false } ⟨false, [], .final⟩ with ⟨r, bd, -, heq⟩ | ⟨hrecs, bd, heq⟩
    · rw [heq]
      exact { h with
        counted := Nat.le_succ_of_le h.counted
        whole := nofun
        closed := fun ⟨f, hf, hfin⟩ => absurd hfin (ho f hf)
        active := nofun }
    rw [heq]
    exact h.record hwire hinput ho ⟨Nat.zero_le _, fun _ => rfl, fun _ => ⟨rfl, rfl⟩⟩ hrecs rfl rfl rfl rfl rfl
      rfl h.coverLimit (append_nil _).symm (fun _ => rfl) nofun
  generalize htag : (if (b.txRecords + 1) % 4096 = 0 then Tag.rekey else Tag.message) = tag
  have htag : tag ≠ .final := by
    rw [← htag]
    split <;> nofun
  rcases frame_cases { b with input := b.input ++ ch.take shape.maxFrame } ⟨false, ch.take shape.maxFrame, tag⟩
    with ⟨r, bd, -, heq⟩ | ⟨hrecs, bd, heq⟩
  · rw [heq]
    exact { h with
      counted := Nat.le_succ_of_le h.counted
      front := h.front.trans (prefix_append _ _)
      whole := nofun
      closed := fun ⟨f, hf, hfin⟩ => absurd hfin (ho f hf) }
  rw [heq]
  refine h.record hwire hinput ho ⟨length_take_le _ _, (absurd · Bool.false_ne_true), (absurd · htag)⟩ hrecs
    rfl rfl rfl rfl rfl rfl h.coverLimit rfl (absurd · htag) fun _ => decide_eq_true htag

theorem Sends.cover (now : Int) (hexc : b.raised = none) : Sends shape pol s bs (b.cover shape pol now) := by
  unfold Bridge.cover
  split
  · rename_i hdue
    obtain ⟨hout, hwire, -, hcov, -⟩ := hdue
    have ho := h.opened hout
    rcases frame_cases b ⟨true, [], .message⟩ with ⟨r, bd, -, heq⟩ | ⟨hrecs, bd, heq⟩
    · rw [heq]
      exact { h with
        counted := Nat.le_succ_of_le h.counted
        whole := nofun }
    rw [heq]
    rw [hexc]
    have htag : Tag.message ≠ .final := by decide
    exact h.record hwire (h.whole hexc) ho ⟨Nat.zero_le _, fun _ => rfl, (absurd · htag)⟩ hrecs rfl rfl rfl
      rfl rfl rfl hcov (append_nil _).symm (absurd · htag) fun _ => rfl
  · exact h

theorem Sends.writeCarrier (now : Int) (cnt : Nat) : Sends shape pol s bs (b.writeCarrier now cnt) := by
  unfold Bridge.writeCarrier
  split
  · exact { h with whole := nofun }
  exact { h with
    stream := by
      rw [append_assoc, take_append_drop]
      exact h.stream
    ahead := by
      rw [length_append]
      exact Nat.le_add_right_of_le h.ahead }

end

/-! ## Receiving -/

/-- What a bridge keeps about the records `frames` of its peer, of whose stream `reach` bytes were sent. -/
structure Hears (shape : Shape) (s : C.Push) (frames : List Frame) (reach : Nat) (b : Bridge C) : Prop where
  heard : b.rxRecords ≤ frames.length
  paired : C.Paired (stateAfter shape s (frames.take b.rxRecords)) b.receiving
  reached : b.taken ≤ reach
  /-- What was taken is the stream of the records that were delivered and a part of the next one. -/
  parsed : (streamOf shape s frames).take b.taken =
    streamOf shape s (frames.take b.rxRecords) ++ (b.header ++ b.body)
  reading : (b.header.length < 4 ∧ b.length = 0 ∧ b.body = []) ∨
    (b.header.length = 4 ∧ 17 ≤ b.length ∧ b.body.length < b.length ∧ getInt32 b.header 0 = b.length)
  delivered : b.output ++ b.plain = payloads (frames.take b.rxRecords)
  opened : b.inbound = true → b.receiveActive = true
  ended : b.inbound = false → ∃ f ∈ frames.take b.rxRecords, f.tag = .final
  covers : b.rxCovers = (frames.take b.rxRecords).countP cover
  shut : b.localShutdown = true → b.inbound = false ∧ b.plain = []
  /-- No record was refused. -/
  clean : ∀ r, b.raised = some r → r.ofRecord = false

/-- The records of a peer that honours its limits. -/
structure Honest (shape : Shape) (frames : List Frame) : Prop where
  fits : ∀ f ∈ frames, f.Fits shape
  records : frames.length ≤ 1000000
  covers : frames.countP cover ≤ 64

theorem Sends.honest {base : Bridge C} (h : Sends shape pol s base b) : Honest shape b.frames where
  fits := h.fits
  records := h.records
  covers := by
    rw [h.covers]
    exact h.coverLimit.trans pol.cover_bound

variable {frs : List Frame} {rc : Nat}

/-- The peer goes on. -/
theorem Hears.more {frs' : List Frame} {rc' : Nat} (h : Hears shape s frs rc b)
    (hleng : rc ≤ (streamOf shape s frs).length) (hfrs : frs <+: frs') (hreach : rc ≤ rc') :
    Hears shape s frs' rc' b := by
  obtain ⟨l, rfl⟩ := hfrs
  have htake : (frs ++ l).take b.rxRecords = frs.take b.rxRecords := take_append_of_le_length h.heard
  have hstr : (streamOf shape s (frs ++ l)).take b.taken = (streamOf shape s frs).take b.taken := by
    unfold streamOf
    rw [map_append, stream_append]
    exact take_append_of_le_length (h.reached.trans hleng)
  refine ⟨?_, ?_, h.reached.trans hreach, ?_, h.reading, ?_, h.opened, ?_, ?_, h.shut, h.clean⟩
  · rw [length_append]
    exact Nat.le_add_right_of_le h.heard
  · rw [htake]
    exact h.paired
  · rw [hstr, htake]
    exact h.parsed
  · rw [htake]
    exact h.delivered
  · rw [htake]
    exact h.ended
  · rw [htake]
    exact h.covers

theorem deliver_body (hfits : f.Fits shape) (hrecs : b.rxRecords + 1 ≤ 1000000)
    (hcov : b.rxCovers + f.cover.toNat ≤ 64) (hpl : b.plain = []) : b.deliver shape (f.body shape) f.tag =
      { b with
        rxRecords := b.rxRecords + 1
        inbound := b.inbound && decide (f.tag ≠ .final)
        plain := f.payload
        rxCovers := b.rxCovers + f.cover.toNat } := by
  unfold deliver
  rw [if_neg (not_lt.mpr hrecs)]
  by_cases hfin : f.tag = .final
  · obtain ⟨hpay, hcover⟩ := hfits.ending hfin
    have hbody : f.body shape = [] := if_pos hfin
    rw [if_pos hfin, hbody, if_neg (not_not.mpr rfl), hpay, hcover, hfin, ← hpl]
    simp
  have hbnd := hfits.bounded
  have hmax := shape.frame_bounds.2
  generalize hzeros : replicate (shape.padded (f.payload.length + 5) - (f.payload.length + 5)) (0 : UInt8) = zeros
  have hbody : f.body shape = [if f.cover then 1 else 0] ++ (toBE 4 f.payload.length ++ (f.payload ++ zeros)) := by
    unfold Frame.body
    rw [if_neg hfin, hzeros, append_assoc]
    rfl
  have hleng : (f.body shape).length = f.payload.length + zeros.length + 5 := by
    rw [hbody]
    simp
    omega
  have hsz : getInt32 (f.body shape) 1 = f.payload.length := by
    rw [hbody]
    exact getInt32_toBE (by omega)
  have hpay : sub (f.body shape) 5 f.payload.length = f.payload := by
    have hdrop : (f.body shape).drop 5 = f.payload ++ zeros := by
      rw [hbody]
      simp
    unfold sub
    rw [hdrop]
    exact take_left
  rw [if_neg hfin, if_neg (by omega), hsz, if_neg (by omega), decide_eq_true hfin, Bool.and_true, Int.toNat_natCast,
    hpay]
  cases hcover : f.cover with
  | false =>
    have htype : getUint8 (f.body shape) 0 = 0 := by
      rw [hbody, hcover]
      rfl
    rw [if_pos htype]
    rfl
  | true =>
    have htype : getUint8 (f.body shape) 0 = 1 := by
      rw [hbody, hcover]
      rfl
    have hlim : b.rxCovers + 1 ≤ 64 := by
      rw [hcover] at hcov
      exact hcov
    rw [htype, if_neg Nat.one_ne_zero, hfits.covered hcover, if_pos ⟨rfl, rfl⟩, if_neg (not_lt.mpr hlim), ← hpl]
    rfl

theorem streamOf_split (shape : Shape) (s : C.Push) (fs : List Frame) (k : Nat) :
    streamOf shape s fs = streamOf shape s (fs.take k) ++
      streamOf shape (stateAfter shape s (fs.take k)) (fs.drop k) := by
  unfold streamOf stateAfter
  rw [← stream_append, ← map_append, take_append_drop]

variable {bytes : Bytes}

/-- The bytes at hand and the next ones are the front of the records that were not delivered. -/
theorem Hears.next (h : Hears shape s frs rc b) (hnx : bytes <+: (streamOf shape s frs).drop b.taken) :
    (streamOf shape s frs).take (b.taken + bytes.length) =
        streamOf shape s (frs.take b.rxRecords) ++ (b.header ++ b.body ++ bytes) ∧ b.header ++ b.body ++ bytes <+:
        streamOf shape (stateAfter shape s (frs.take b.rxRecords)) (frs.drop b.rxRecords) := by
  obtain ⟨rest, hrs⟩ := hnx
  have htake : (streamOf shape s frs).take (b.taken + bytes.length) =
      streamOf shape s (frs.take b.rxRecords) ++ (b.header ++ b.body ++ bytes) := by
    rw [take_add, h.parsed, ← hrs, take_left, append_assoc]
  refine ⟨htake, ?_⟩
  have hrd := take_prefix (b.taken + bytes.length) (streamOf shape s frs)
  rw [htake, streamOf_split shape s frs b.rxRecords] at hrd
  exact (prefix_append_right_inj _).mp hrd

/-- The record that is next in the stream. -/
theorem header_next {k : Nat} {header rest : Bytes} (hleng : header.length = 4)
    (h : header ++ rest <+: streamOf shape (stateAfter shape s (frs.take k)) (frs.drop k)) :
    ∃ f, frs[k]? = some f ∧
      header = toBE 4 (C.push (stateAfter shape s (frs.take k)) ad (f.body shape) f.tag).1.length ∧
      ∃ more, rest <+: (C.push (stateAfter shape s (frs.take k)) ad (f.body shape) f.tag).1 ++ more := by
  obtain ⟨g, gs, hlist, hhdr, hrs⟩ := stream_header h hleng
  obtain ⟨f, fs, hdrop, rfl, rfl⟩ := map_eq_cons_iff.mp hlist
  refine ⟨f, ?_, hhdr, _, hrs⟩
  have hfst : (frs.drop k)[0]? = some f := by
    rw [hdrop]
    rfl
  rw [getElem?_drop] at hfst
  exact hfst

/-- A header that was read is the length of a record that fits. -/
theorem length_header (shape : Shape) {n : Nat} (hlow : 17 ≤ n) (hhigh : n ≤ shape.maxFrame + 5 + 4096 + 17) :
    getInt32 (toBE 4 n) 0 = n ∧
      ¬ ((n : Int) < 17 ∨ (n : Int) > shape.maxFrame + 5 + max 4096 shape.paddingBlock + 17) := by
  have hmax := shape.frame_bounds.2
  have hrd : getInt32 ([] ++ (toBE 4 n ++ [])) ([] : Bytes).length = n := getInt32_toBE (by omega)
  exact ⟨hrd, by omega⟩

theorem pullRecord_body {t : C.Push} (hleng : 0 < b.length) (hcmp : b.body.length = b.length)
    (hact : b.receiveActive = true) (hexc : b.raised = none) (hpair : C.Paired t b.receiving)
    (hbody : b.body = (C.push t ad (f.body shape) f.tag).1) (hfits : f.Fits shape)
    (hrecs : b.rxRecords + 1 ≤ 1000000) (hcov : b.rxCovers + f.cover.toNat ≤ 64) (hpl : b.plain = []) :
    ∃ receiving, C.Paired (C.push t ad (f.body shape) f.tag).2 receiving ∧
      b.pullRecord shape =
        { b with
          receiving := receiving
          receiveActive := decide (f.tag ≠ .final)
          rxRecords := b.rxRecords + 1
          inbound := b.inbound && decide (f.tag ≠ .final)
          plain := f.payload
          rxCovers := b.rxCovers + f.cover.toNat
          header := []
          body := []
          length := 0 } := by
  obtain ⟨receiving, hpull, hpair'⟩ := C.pull_push t b.receiving ad (f.body shape) f.tag hpair
  rw [← hbody] at hpull
  refine ⟨receiving, hpair', ?_⟩
  have hdlv := deliver_body (b := { b with receiving := receiving, receiveActive := decide (f.tag ≠ .final) })
    hfits hrecs hcov hpl
  unfold pullRecord
  rw [if_pos ⟨hleng, hcmp⟩, if_neg (not_not.mpr hact), hpull]
  dsimp only
  rw [hdlv]
  rw [hexc]
  rfl

variable (now : Int)

theorem readCarrier_partHeader (hexc : b.raised = none) (hleng : b.length = 0)
    (hlt : b.header.length < 4) (hpart : (b.header ++ bytes).length ≠ 4) : b.readCarrier shape now bytes =
      { b with taken := b.taken + bytes.length, last := now, header := b.header ++ bytes } := by
  unfold readCarrier checkLength pullRecord
  simp only [hlt, hpart, hexc, hleng, if_true, if_false, false_and, gt_iff_lt, lt_irrefl, Option.isSome_none,
    Bool.false_eq_true]

theorem readCarrier_wholeHeader {n : Nat} (hexc : b.raised = none) (hleng : b.length = 0)
    (hbody : b.body = []) (hlt : b.header.length < 4) (hwh : (b.header ++ bytes).length = 4)
    (hrd : getInt32 (b.header ++ bytes) 0 = n) (hlow : 17 ≤ n)
    (hacc : ¬ ((n : Int) < 17 ∨ (n : Int) > shape.maxFrame + 5 + max 4096 shape.paddingBlock + 17)) :
    b.readCarrier shape now bytes =
      { b with taken := b.taken + bytes.length, last := now, header := b.header ++ bytes, length := n } := by
  have hne : ¬ 0 = n := by omega
  unfold readCarrier checkLength pullRecord
  simp only [hlt, hwh, hleng, hrd, hacc, hexc, hbody, hne, if_true, if_false, and_self, and_false,
    Option.isSome_none, Bool.false_eq_true, Int.toNat_natCast, length_nil]

theorem readCarrier_partBody (hexc : b.raised = none) (hleng : 17 ≤ b.length)
    (hfour : b.header.length = 4) (hpart : (b.body ++ bytes).length ≠ b.length) : b.readCarrier shape now bytes =
      { b with taken := b.taken + bytes.length, last := now, body := b.body ++ bytes } := by
  have hne : ¬ b.length = 0 := by omega
  unfold readCarrier checkLength pullRecord
  simp only [hfour, hpart, hexc, hne, lt_irrefl, if_false, and_false, Option.isSome_none, Bool.false_eq_true]

theorem readCarrier_wholeBody (hexc : b.raised = none) (hleng : 17 ≤ b.length)
    (hfour : b.header.length = 4) : b.readCarrier shape now bytes =
      ({ b with taken := b.taken + bytes.length, last := now, body := b.body ++ bytes } : Bridge C).pullRecord shape := by
  have hne : ¬ b.length = 0 := by omega
  unfold readCarrier checkLength
  simp only [hfour, hexc, hne, lt_irrefl, if_false, and_false, Option.isSome_none, Bool.false_eq_true]

/-- The ciphertext of a record that fits has a length that the check of a header admits. -/
theorem Frame.Fits.length_push (hf : f.Fits shape) (s : C.Push) :
    17 ≤ (C.push s ad (f.body shape) f.tag).1.length ∧
      (C.push s ad (f.body shape) f.tag).1.length ≤ shape.maxFrame + 5 + 4096 + 17 := by
  rw [C.length_push]
  have hbody := length_body hf
  omega

section

variable (h : Hears shape s frs rc b) (hexc : b.raised = none) (hpeer : Honest shape frs)
  (hnx : bytes <+: (streamOf shape s frs).drop b.taken) (hreach : b.taken + bytes.length ≤ rc)
include h hexc hpeer hnx hreach

/-- **Bytes of a header**: the length in front of the next record is not refused. -/
theorem Hears.readHeader (hhdr : b.header.length < 4) (hleng : b.length = 0) (hbody : b.body = [])
    (hroom : bytes.length ≤ 4 - b.header.length) : Hears shape s frs rc (b.readCarrier shape now bytes) := by
  obtain ⟨hparsed, hfront⟩ := h.next hnx
  rw [hbody, append_nil] at hparsed hfront
  have hparsed : (streamOf shape s frs).take (b.taken + bytes.length) =
      streamOf shape s (frs.take b.rxRecords) ++ (b.header ++ bytes ++ b.body) := by
    rw [hbody, append_nil]
    exact hparsed
  by_cases hfull : (b.header ++ bytes).length = 4
  · obtain ⟨f, hf, heq, -⟩ := header_next hfull (by rw [append_nil]; exact hfront)
    obtain ⟨hlow, hhigh⟩ := (hpeer.fits f (mem_of_getElem? hf)).length_push (stateAfter shape s (frs.take b.rxRecords))
    obtain ⟨hint, hacc⟩ := length_header shape hlow hhigh
    rw [← heq] at hint
    have hnil : b.body.length = 0 := congrArg List.length hbody
    rw [readCarrier_wholeHeader now hexc hleng hbody hhdr hfull hint hlow hacc]
    exact { h with
      reached := hreach
      parsed := hparsed
      reading := .inr ⟨hfull, hlow, hnil.trans_lt (lt_of_lt_of_le (Nat.zero_lt_succ 16) hlow), hint⟩ }
  have hless : (b.header ++ bytes).length < 4 := by
    rw [length_append] at hfull ⊢
    omega
  rw [readCarrier_partHeader now hexc hleng hhdr hfull]
  exact { h with
    reached := hreach
    parsed := hparsed
    reading := .inl ⟨hless, hleng, hbody⟩ }

/-- **The last bytes of a record**: it is the next one of the peer, and it is delivered. -/
theorem Hears.readRecord (hinb : b.inbound = true) (hpl : b.plain = []) (hhdr : b.header.length = 4)
    (hleng : 17 ≤ b.length) (hcmp : (b.body ++ bytes).length = b.length) (hf : frs[b.rxRecords]? = some f)
    (heq : b.header = toBE 4 (C.push (stateAfter shape s (frs.take b.rxRecords)) ad (f.body shape) f.tag).1.length)
    (hwh : b.body ++ bytes = (C.push (stateAfter shape s (frs.take b.rxRecords)) ad (f.body shape) f.tag).1) :
    Hears shape s frs rc (b.readCarrier shape now bytes) := by
  obtain ⟨hparsed, -⟩ := h.next hnx
  have htake : frs.take (b.rxRecords + 1) = frs.take b.rxRecords ++ [f] := by
    rw [take_add_one, hf]
    rfl
  have hlt := (List.getElem?_eq_some_iff.mp hf).1
  have hcov : b.rxCovers + f.cover.toNat ≤ 64 := by
    have hsub := (take_sublist (b.rxRecords + 1) frs).countP_le (p := cover)
    rw [htake, countP_concat, ← h.covers] at hsub
    exact hsub.trans hpeer.covers
  obtain ⟨receiving, hpair, hpull⟩ := pullRecord_body
    (b := { b with taken := b.taken + bytes.length, last := now, body := b.body ++ bytes })
    (Nat.zero_lt_of_lt hleng) hcmp (h.opened hinb) hexc h.paired hwh (hpeer.fits f (mem_of_getElem? hf))
    (le_trans hlt hpeer.records) hcov hpl
  rw [readCarrier_wholeBody now hexc hleng hhdr, hpull]
  refine ⟨hlt, ?_, hreach, ?_, .inl ⟨Nat.zero_lt_succ 3, rfl, rfl⟩, ?_, ?_, ?_, ?_, ?_, h.clean⟩
  · rw [htake, stateAfter_concat]
    exact hpair
  · rw [append_assoc, hwh, heq] at hparsed
    rw [htake, streamOf_concat, append_nil, append_nil]
    exact hparsed
  · rw [htake, payloads_concat, ← h.delivered, hpl, append_nil]
  · intro hin
    have hin : (b.inbound && decide (f.tag ≠ .final)) = true := hin
    rw [hinb, Bool.true_and] at hin
    exact hin
  · intro hend
    have hend : (b.inbound && decide (f.tag ≠ .final)) = false := hend
    rw [hinb, Bool.true_and, decide_eq_false_iff_not, not_not] at hend
    rw [htake]
    exact ⟨f, mem_append_right _ (mem_singleton_self f), hend⟩
  · rw [htake, countP_concat, h.covers]
  · intro hshut
    rw [(h.shut hshut).1] at hinb
    cases hinb

/-- **Bytes of the carrier**: they complete a header, a record or neither, and none of it is refused. -/
theorem Hears.readCarrier (hinb : b.inbound = true) (hpl : b.plain = []) (hroom : bytes.length ≤ b.room) :
    Hears shape s frs rc (b.readCarrier shape now bytes) := by
  unfold room at hroom
  rcases h.reading with ⟨hhdr, hleng, hbody⟩ | ⟨hhdr, hleng, hbody, hrd⟩
  · rw [if_pos hhdr] at hroom
    exact h.readHeader now hexc hpeer hnx hreach hhdr hleng hbody hroom
  -- the body is being read
  rw [if_neg (by omega)] at hroom
  obtain ⟨hparsed, hfront⟩ := h.next hnx
  rw [append_assoc] at hparsed hfront
  obtain ⟨f, hf, heq, more, hcip⟩ := header_next hhdr hfront
  obtain ⟨hlow, hhigh⟩ := (hpeer.fits f (mem_of_getElem? hf)).length_push (stateAfter shape s (frs.take b.rxRecords))
  obtain ⟨hint, -⟩ := length_header shape hlow hhigh
  rw [heq, hint] at hrd
  have hlen : (b.body ++ bytes).length = b.body.length + bytes.length := length_append
  by_cases hcmp : (b.body ++ bytes).length = b.length
  · exact h.readRecord now hexc hpeer hnx hreach hinb hpl hhdr hleng hcmp hf heq (stream_cipher hcip (by omega))
  rw [readCarrier_partBody now hexc hleng hhdr hcmp]
  exact { h with
    reached := hreach
    parsed := hparsed
    reading := .inr ⟨hhdr, hleng, by dsimp only; omega, by rw [heq, hint, hrd]⟩ }

end

/-! ## The parts of a round -/

/-- Two bridges that have framed, sent and read the same. -/
structure SameSending (b b' : Bridge C) : Prop where
  sent : b'.sent = b.sent
  wire : b'.wire = b.wire
  frames : b'.frames = b.frames
  sending : b'.sending = b.sending
  sendActive : b'.sendActive = b.sendActive
  txRecords : b'.txRecords = b.txRecords
  covers : b'.covers = b.covers
  input : b'.input = b.input
  outbound : b'.outbound = b.outbound

theorem SameSending.trans {b₁ b₂ b₃ : Bridge C} (h : SameSending b₁ b₂) (h' : SameSending b₂ b₃) : SameSending b₁ b₃ :=
  ⟨h'.sent.trans h.sent, h'.wire.trans h.wire, h'.frames.trans h.frames, h'.sending.trans h.sending,
    h'.sendActive.trans h.sendActive, h'.txRecords.trans h.txRecords, h'.covers.trans h.covers,
    h'.input.trans h.input, h'.outbound.trans h.outbound⟩

theorem Sends.same {base b' : Bridge C} (h : Sends shape pol s base b) (hexc : b.raised = none)
    (hsm : SameSending b b') : Sends shape pol s base b' := by
  have hwh := h.whole hexc
  obtain ⟨hsn, hwire, hfrs, hsen, hact, htx, hcov, hinput, hout⟩ := hsm
  cases b
  cases b'
  dsimp only at hsn hwire hfrs hsen hact htx hcov hinput hout
  subst hsn hwire hfrs hsen hact htx hcov hinput hout
  exact { h with whole := fun _ => hwh }

variable (shape b)

theorem sameSending_deliver (p : Bytes) (tag : Tag) : SameSending b (b.deliver shape p tag) := by
  unfold deliver
  dsimp only
  repeat' split
  all_goals constructor <;> rfl

theorem sameSending_checkLength : SameSending b (b.checkLength shape) := by
  unfold checkLength
  dsimp only
  repeat' split
  all_goals constructor <;> rfl

theorem sameSending_pullRecord : SameSending b (b.pullRecord shape) := by
  unfold pullRecord
  split
  · split
    · constructor <;> rfl
    split
    · constructor <;> rfl
    rename_i payload tag receiving _
    have hdlv := sameSending_deliver shape
      { b with receiving := receiving, receiveActive := decide (tag ≠ .final) } payload tag
    dsimp only
    split
    · exact { hdlv with }
    · exact { hdlv with }
  · constructor <;> rfl

theorem sameSending_readCarrier (bytes : Bytes) : SameSending b (b.readCarrier shape now bytes) := by
  unfold readCarrier
  dsimp only
  have htook : SameSending b (if b.header.length < 4 then
        { b with taken := b.taken + bytes.length, last := now, header := b.header ++ bytes }
      else { b with taken := b.taken + bytes.length, last := now, body := b.body ++ bytes }) := by
    split <;> constructor <;> rfl
  have hchec := htook.trans (sameSending_checkLength shape _)
  generalize checkLength shape _ = c at hchec ⊢
  split
  · exact hchec
  · exact hchec.trans (sameSending_pullRecord shape _)

theorem sameSending_pollCarrier (av : Bytes) (cl : Bool) (cnt : Nat) :
    SameSending b (b.pollCarrier shape now av cl cnt) := by
  unfold pollCarrier
  dsimp only
  split
  · exact sameSending_readCarrier shape b now _
  · split <;> constructor <;> rfl

variable {shape}

theorem sameSending_writeLocal (cnt : Nat) : SameSending b (b.writeLocal now cnt) := by
  unfold writeLocal
  split <;> constructor <;> rfl

theorem sameSending_shutdowns : SameSending b b.shutdowns := by
  unfold shutdowns
  dsimp only
  repeat' split
  all_goals constructor <;> rfl

variable {b}

section

variable (h : Hears shape s frs rc b)
include h

/-- An exception of the sending side. -/
theorem Hears.raise {r : Raised} (hr : r.ofRecord = false) : Hears shape s frs rc { b with raised := some r } :=
  { h with
    clean := by
      rintro _ ⟨⟩
      exact hr }

theorem Hears.frame (f : Frame) : Hears shape s frs rc (b.frame shape f) := by
  rcases frame_cases b f with ⟨r, bd, hr, heq⟩ | ⟨-, bd, heq⟩
  · rw [heq]
    exact { h.raise hr with }
  · rw [heq]
    exact { h with }

theorem Hears.readLocal (ch : Bytes) : Hears shape s frs rc (b.readLocal shape now ch) := by
  unfold Bridge.readLocal
  dsimp only
  split
  · have hend : Hears shape s frs rc { b with outbound := false } := { h with }
    exact { hend.frame _ with }
  · have hmore : Hears shape s frs rc { b with input := b.input ++ ch.take shape.maxFrame } := { h with }
    exact { hmore.frame _ with }

theorem Hears.cover : Hears shape s frs rc (b.cover shape pol now) := by
  unfold Bridge.cover
  split
  · have hfram := h.frame ⟨true, [], .message⟩
    dsimp only
    split
    · exact hfram
    · exact { hfram with }
  · exact h

theorem Hears.writeCarrier (cnt : Nat) : Hears shape s frs rc (b.writeCarrier now cnt) := by
  unfold Bridge.writeCarrier
  split
  · exact h.raise rfl
  · exact { h with }

theorem Hears.writeLocal (cnt : Nat) : Hears shape s frs rc (b.writeLocal now cnt) := by
  unfold Bridge.writeLocal
  split
  · exact h.raise rfl
  rename_i hcnt
  exact { h with
    delivered := by
      rw [append_assoc, take_append_drop]
      exact h.delivered
    shut := by
      intro hshut
      rw [(h.shut hshut).2] at hcnt
      exact absurd (Nat.min_zero cnt) hcnt }

theorem Hears.shutdowns : Hears shape s frs rc b.shutdowns := by
  unfold Bridge.shutdowns
  have hloc : Hears shape s frs rc
      (if ¬ b.inbound ∧ b.plain = [] ∧ ¬ b.localShutdown then { b with localShutdown := true } else b) := by
    split
    · rename_i hdone
      exact { h with shut := fun _ => ⟨Bool.eq_false_iff.mpr hdone.1, hdone.2.1⟩ }
    · exact h
  dsimp only
  generalize (if ¬ b.inbound ∧ b.plain = [] ∧ ¬ b.localShutdown then { b with localShutdown := true } else b) = c
    at hloc ⊢
  split
  · exact { hloc with }
  · exact hloc

end

/-- **A read of the carrier** on which the peer has put the front `sent` of its stream. -/
theorem Hears.pollCarrier {sent rest : Bytes} (cl : Bool) (cnt : Nat)
    (h : Hears shape s frs sent.length b) (hstr : sent ++ rest = streamOf shape s frs)
    (hexc : b.raised = none) (hpeer : Honest shape frs) (hinb : b.inbound = true) (hpl : b.plain = []) :
    Hears shape s frs sent.length (b.pollCarrier shape now (sent.drop b.taken) cl cnt) := by
  unfold Bridge.pollCarrier
  dsimp only
  split
  · have hleng : ((sent.drop b.taken).take (min cnt b.room)).length
        = min (min cnt b.room) (sent.length - b.taken) := by
      rw [length_take, length_drop]
    have hrch := h.reached
    refine h.readCarrier now hexc hpeer ?_ (by omega) hinb hpl (by omega)
    rw [← hstr, drop_append_of_le_length hrch]
    exact ( take_prefix _ _).trans (prefix_append _ _)
  split
  · exact h.raise rfl
  · exact h

theorem readLocal_same (shape : Shape) (b : Bridge C) (now : Int) (ch : Bytes) :
    (b.readLocal shape now ch).taken = b.taken ∧ (b.readLocal shape now ch).plain = b.plain ∧
      (b.readLocal shape now ch).inbound = b.inbound := by
  have hfr : ∀ (c : Bridge C) (f : Frame), (c.frame shape f).taken = c.taken ∧ (c.frame shape f).plain = c.plain ∧
      (c.frame shape f).inbound = c.inbound := by
    intro c f
    rcases frame_cases c f with ⟨r, bd, -, heq⟩ | ⟨-, bd, heq⟩
    · rw [heq]
      exact ⟨rfl, rfl, rfl⟩
    · rw [heq]
      exact ⟨rfl, rfl, rfl⟩
  unfold readLocal
  dsimp only
  split
  · exact hfr _ _
  · exact hfr _ _

/-- A bridge with both sides of it. -/
structure Keeps (shape : Shape) (policy : Policy) (s s' : C.Push) (base : Bridge C) (frames : List Frame) (sent : Bytes)
    (b : Bridge C) : Prop where
  sends : Sends shape policy s base b
  hears : Hears shape s' frames sent.length b

variable {s' : C.Push} {ba : Bridge C} {sn r : Bytes}

section

variable (h : Keeps shape pol s s' ba frs sn b)
include h

theorem Keeps.andThen (f : Bridge C → Bridge C)
    (hf : b.raised = none → Keeps shape pol s s' ba frs sn (f b)) :
    Keeps shape pol s s' ba frs sn (b.andThen f) := by
  unfold Bridge.andThen
  cases hexc : b.raised with
  | some r => exact h
  | none => exact hf hexc

/-- The calls of a round that do not read, and the cover record at its end. -/
theorem Keeps.localWrite (t : Turn) (p : Bridge C) (hexc : b.raised = none) :
    Keeps shape pol s s' ba frs sn (b.localWrite t p) := by
  unfold Bridge.localWrite
  split
  · rename_i count _
    split
    · exact ⟨h.sends.same hexc (sameSending_writeLocal b t.now count), h.hears.writeLocal t.now count⟩
    · exact h
  · exact h

theorem Keeps.carrierWrite (t : Turn) (p : Bridge C) : Keeps shape pol s s' ba frs sn (b.carrierWrite t p) := by
  unfold Bridge.carrierWrite
  split
  · rename_i count _
    split
    · exact ⟨h.sends.writeCarrier t.now count, h.hears.writeCarrier t.now count⟩
    · exact h
  · exact h

/-- **The part of a round after the poll.** -/
theorem Keeps.work {t : Turn} {cl : Bool} (hexc : b.raised = none) (hpeer : Honest shape frs)
    (hstr : sn ++ r = streamOf shape s' frs) :
    Keeps shape pol s s' ba frs sn (b.work shape pol t (sn.drop b.taken) cl) := by
  have hrd : Keeps shape pol s s' ba frs sn (b.localRead shape t b) ∧
      (b.localRead shape t b).taken = b.taken ∧ (b.localRead shape t b).plain = b.plain ∧
      (b.localRead shape t b).inbound = b.inbound := by
    unfold localRead
    split
    · rename_i chunk _
      split
      · rename_i hpol
        exact ⟨⟨h.sends.readLocal t.now chunk hexc hpol.1 hpol.2, h.hears.readLocal t.now chunk⟩,
          readLocal_same shape b t.now chunk⟩
      · exact ⟨h, rfl, rfl, rfl⟩
    · exact ⟨h, rfl, rfl, rfl⟩
  unfold Bridge.work
  obtain ⟨hrd, htk, hpl, hinb⟩ := hrd
  generalize b.localRead shape t b = c at hrd htk hpl hinb ⊢
  have hcar : Keeps shape pol s s' ba frs sn
      (c.andThen fun c => c.carrierRead shape t b (sn.drop b.taken) cl) := by
    refine hrd.andThen _ fun hc => ?_
    unfold carrierRead
    split
    · rename_i count _
      split
      · -- bytes of the carrier are taken only while nothing waits for the local socket
        rename_i hpol
        rw [← htk]
        refine ⟨hrd.sends.same hc (sameSending_pollCarrier shape c t.now _ cl count), ?_⟩
        exact hrd.hears.pollCarrier t.now cl count hstr hc hpeer (hinb.trans hpol.1) (hpl.trans hpol.2)
      · exact hrd
    · exact hrd
  have hwr := hcar.andThen (fun c => c.localWrite t b) (hcar.localWrite t b)
  have hput := hwr.andThen (fun c => c.carrierWrite t b) fun _ => hwr.carrierWrite t b
  exact hput.andThen _ fun hnone => ⟨hput.sends.cover t.now hnone, hput.hears.cover t.now⟩

/-- **One call of `loop`** keeps both. -/
theorem Keeps.turn (t : Turn) (cl : Bool) (hpeer : Honest shape frs)
    (hstr : sn ++ r = streamOf shape s' frs) :
    Keeps shape pol s s' ba frs sn (b.turn shape pol t (sn.drop b.taken) cl) := by
  refine h.andThen _ fun hexc => ?_
  have hshut : Keeps shape pol s s' ba frs sn b.shutdowns :=
    ⟨h.sends.same hexc (sameSending_shutdowns b), h.hears.shutdowns⟩
  have hsm : b.shutdowns.raised = b.raised ∧ b.shutdowns.taken = b.taken := by
    unfold shutdowns
    dsimp only
    repeat' split
    all_goals exact ⟨rfl, rfl⟩
  rw [hexc] at hsm
  dsimp only
  rw [← hsm.2]
  split
  · split
    · exact ⟨{ hshut.sends with whole := nofun }, hshut.hears.raise rfl⟩
    · exact hshut.work hsm.1 hpeer hstr
  · exact hshut

end

/-! ## Two bridges -/

namespace Pair

variable {P : Pair} {x : Side → Bridge P.stream}

/-- Each bridge sends its own stream and hears the other one's. -/
def Joined (P : Pair) (x : Side → Bridge P.stream) : Prop :=
  ∀ e, Keeps P.shape (P.policy e) (P.sending e) (P.sending e.other) (x e) (x e.other).frames (x e.other).sent (x e)

theorem joined_init (P : Pair) : Joined P P.init := by
  intro e
  have hpair := P.paired e.other
  rw [Side.other_other] at hpair
  constructor
  · exact
      { stream := rfl
        state := rfl
        fits := nofun
        counted := le_rfl
        records := Nat.zero_le _
        covers := rfl
        coverLimit := Nat.zero_le _
        front := prefix_rfl
        whole := fun _ => rfl
        closed := nofun
        last := nofun
        active := fun _ => rfl
        onward := prefix_rfl
        ahead := le_rfl }
  exact
    { heard := le_rfl
      paired := hpair
      reached := le_rfl
      parsed := rfl
      reading := .inl ⟨Nat.zero_lt_succ 3, rfl, rfl⟩
      delivered := rfl
      opened := fun _ => rfl
      ended := nofun
      covers := rfl
      shut := nofun
      clean := nofun }

/-- **A round of one bridge.** -/
theorem Joined.step (h : Joined P x) (v : Side × Turn) : Joined P (P.step x v) := by
  obtain ⟨e, t⟩ := v
  have hpeer := (h e.other).sends
  have hturn := (h e).turn t (x e.other).remoteShutdown hpeer.honest hpeer.stream
  have hself : P.step x (e, t) e = (x e).turn P.shape (P.policy e) t ((x e.other).sent.drop (x e).taken)
      (x e.other).remoteShutdown := Function.update_self _ _ _
  have hoth : P.step x (e, t) e.other = x e.other := Function.update_of_ne e.other_ne _ _
  intro e'
  by_cases heq : e' = e
  · subst heq
    rw [hoth, hself]
    exact ⟨hturn.sends.rebase, hturn.hears⟩
  -- the other bridge stands still while its peer's stream grows
  have heq : e' = e.other := by
    cases e <;> cases e' <;> first | rfl | exact absurd rfl heq
  subst heq
  rw [Side.other_other, hoth, hself]
  have hhears := (h e.other).hears
  rw [Side.other_other] at hhears
  have hleng : (x e).sent.length ≤ (streamOf P.shape (P.sending e) (x e).frames).length := by
    rw [← (h e).sends.stream, length_append]
    exact Nat.le_add_right _ _
  exact ⟨hpeer, hhears.more hleng hturn.sends.onward hturn.sends.ahead⟩

/-- Each bridge sends its own stream and hears the other one's in every run. -/
theorem joined_after (P : Pair) (run : List (Side × Turn)) : Joined P (P.after run) :=
  foldl_invariant (fun _ v h => h.step v) (joined_init P) run

/-- What one side's local socket gets of what the other one's gave. -/
structure Faithful {C : SecretStream Tag} (receiver sender : Bridge C) : Prop where
  /-- The bytes written are the front of the bytes read. -/
  front : receiver.output <+: sender.input
  /-- The socket is shut down only after the end of the other one was read and all was written. -/
  shutdown : receiver.localShutdown = true → sender.outbound = false ∧ receiver.output = sender.input
  /-- No check on a record has failed. -/
  accepted : ∀ r, receiver.raised = some r → r.ofRecord = false

/-- **Bridges copy streams faithfully.** Whatever the reads and writes of the four sockets take, whenever each bridge
    has its rounds and wherever cover records go in between: what a bridge writes to its local socket is the front of
    what the other one has read from its own, all of it once that end was reached and the socket is shut down, and no
    record of the other one is refused. -/
theorem bridge_faithful (P : Pair) (run : List (Side × Turn)) (e : Side) :
    Faithful (P.after run e) (P.after run e.other) := by
  have hjoined := P.joined_after run
  generalize P.after run = x at hjoined
  have hsends := (hjoined e.other).sends
  have hhears := (hjoined e).hears
  have hread : (x e).output ++ (x e).plain <+: payloads (x e.other).frames := by
    rw [hhears.delivered]
    exact ( take_prefix _ _).flatMap _
  refine ⟨(prefix_append _ _).trans (hread.trans hsends.front), ?_, hhears.clean⟩
  intro hshut
  obtain ⟨hinbound, hplain⟩ := hhears.shut hshut
  obtain ⟨f, hf, hfinal⟩ := hhears.ended hinbound
  obtain ⟨houtbound, hinput⟩ := hsends.closed ⟨f, mem_of_mem_take hf, hfinal⟩
  -- the final record is the last one, so every record was delivered
  have hall : (x e.other).frames.length ≤ (x e).rxRecords := by
    by_contra hlt
    have hle : (x e).rxRecords ≤ (x e.other).frames.length - 1 := by omega
    rw [← min_eq_left hle, ← take_take, ← dropLast_eq_take] at hf
    exact hsends.last f (mem_of_mem_take hf) hfinal
  have hdelivered := hhears.delivered
  rw [hplain, append_nil, take_of_length_le hall] at hdelivered
  exact ⟨houtbound, hdelivered.trans hinput.symm⟩

/-- The codes of `sodium.ml`. -/
def tagCode : Tag → UInt8
  | .message => 0
  | .rekey => 2
  | .final => 3

def tagOfCode (c : UInt8) : Option Tag :=
  if c = 0 then some .message else if c = 2 then some .rekey else if c = 3 then some .final else none

def samplePair : Pair where
  stream := .numbered tagCode tagOfCode (by rintro ⟨⟩ <;> rfl)
  shape := ⟨256, 16, by decide, by decide⟩
  policy _ := ⟨5, 2, 1000, 60, 600, by decide⟩
  sending _ := (0 : Nat)
  receiving _ := (0 : Nat)
  started _ := 0
  paired _ := rfl

def idle : Turn := ⟨1, none, none, none, none⟩

/-- Both sides send; the carrier and the sockets take pieces, a call would block, the server sends a cover record and
    then reaches its end. -/
def sampleRun : List (Side × Turn) :=
  [(.server, { idle with localRead := some (some [1, 2, 3]) }),
   (.client, { idle with localRead := some (some [9, 8]) }),
   (.server, { idle with carrierWrite := some (some 3) }),
   (.client, { idle with carrierRead := some (some 10), carrierWrite := some (some 100) }),
   (.server, { idle with localRead := some none, carrierRead := some (some 4), carrierWrite := some (some 100) }),
   (.client, { idle with carrierRead := some (some 1) }),
   (.client, { idle with carrierRead := some (some 100) }),
   (.client, { idle with localWrite := some (some 2) }),
   (.server, { idle with now := 6000000, carrierRead := some (some 100) }),
   (.server, { idle with localWrite := some (some 2), carrierWrite := some (some 100) }),
   (.client, { idle with localWrite := some (some 2) }),
   (.server, { idle with localRead := some (some []) }),
   (.server, { idle with carrierWrite := some (some 100) })] ++
  replicate 4 (.client, { idle with carrierRead := some (some 100) }) ++ [(.client, idle)]

theorem bridge_faithful_sample :
    (samplePair.after sampleRun .client).output = [1, 2, 3] ∧ (samplePair.after sampleRun .server).output = [9, 8] ∧
    (samplePair.after sampleRun .client).rxCovers = 1 ∧ (samplePair.after sampleRun .client).localShutdown = true ∧
    Faithful (samplePair.after sampleRun .client) (samplePair.after sampleRun .server) ∧
    Faithful (samplePair.after sampleRun .server) (samplePair.after sampleRun .client) :=
  ⟨by decide +kernel, by decide +kernel, by decide +kernel, by decide +kernel,
    bridge_faithful samplePair sampleRun .client, bridge_faithful samplePair sampleRun .server⟩

end Pair

end Shadow6.PrivacyEnvelope.Session
