import Shadow6.Library.Ring
import Shadow6.NetworkAdapter.Node
import Shadow6.NetworkAdapter.Replay

/-!
# `NetworkAdapter.Equivalence` — the two backends side by side

The Python and the Node.js adapter, built from the same arguments and driven by the same calls, answer
alike: the same calls are refused, and the others return the same frames, acknowledgements and messages
(`backends_agree`). The proof is a simulation. `Matches` relates the two states field by field (the array
with a head to the deque, the ring to the list of completed identities), and every operation keeps it, up to
the first frame that runs out of attempts: there Python has already dropped the overdue reassembly states
and Node.js has not.
-/

namespace Shadow6.NetworkAdapter

open Library ReliableAdapter List Function Setup

variable {τ : Type}

/-- The two answers to one call agree: the same value, or both refuse, and both or neither because a frame
    ran out of attempts. -/
inductive Agree {α : Type} : Except PyError α → Except JsError α → Prop where
  | ok (v : α) : Agree (.ok v) (.ok v)
  | refused {e : PyError} {e' : JsError}
      (hretry : e.kind = .adapterRetryLimit ↔ e'.code = some .retryExhausted) : Agree (.error e) (.error e')

variable {α : Type} {e : PyError}

/-- Two refusals that are not about attempts agree. -/
theorem Agree.plain {e' : JsError} (h : e.kind ≠ .adapterRetryLimit) (h' : e'.code ≠ some .retryExhausted) :
    Agree (.error e : Except PyError α) (.error e') :=
  .refused ⟨fun hk => absurd hk h, fun hc => absurd hc h'⟩

/-- A `ValueError` against an `Error` without a code. -/
theorem Agree.value (t t' : String) : Agree (.error (.value t) : Except PyError α) (.error (.plain t')) :=
  .plain (by simp [PyError.value]) (by simp [JsError.plain])

/-- Two programs that branch on equivalent conditions are related if their branches are. -/
theorem rel_ite {α β : Type*} {R : α → β → Prop} {p q : Prop} [Decidable p] [Decidable q] {x x' : α} {y y' : β}
    (h : p ↔ q) (ht : p → R x y) (hf : ¬ p → R x' y') : R (if p then x else x') (if q then y else y') := by
  by_cases hp : p
  · rw [if_pos hp, if_pos (h.mp hp)]
    exact ht hp
  · rw [if_neg hp, if_neg (fun hq => hp (h.mpr hq))]
    exact hf hp

variable {y : Except JsError α}

theorem Agree.of_ok {v : α} (h : Agree (.ok v) y) : y = .ok v := by
  cases h
  rfl

theorem Agree.of_error (h : Agree (.error e) y) :
    ∃ e' : JsError, y = .error e' ∧ (e.kind = .adapterRetryLimit ↔ e'.code = some .retryExhausted) := by
  cases h with
  | refused hrty => exact ⟨_, rfl, hrty⟩

theorem Agree.map {β : Type} {x : Except PyError α} (h : Agree x y) (f : α → β) : Agree (x.map f) (y.map f) := by
  cases h with
  | ok v => exact .ok (f v)
  | refused h => exact .refused h

/-! ## Codec -/

theorem Node.header_eq (f : Frame) : Node.header f = f.header := by
  simp [Node.header, Node.writeAt, Frame.header, Frame.fields, toBE, magic]

theorem encode_agree (c : Codec) (f : Frame) : Agree (c.encode f) (Node.encode c f) := by
  refine rel_ite (by omega) (fun _ => .value _ _) fun _ => ?_
  refine rel_ite (by omega) (fun _ => .value _ _) fun _ => ?_
  rw [Node.header_eq]
  exact .ok _

/-- The body and the tag together are what follows the header. -/
theorem Node.body_append_tag {wr : Bytes} (h : headerSize + tagBytes ≤ wr.length) :
    (wr.drop headerSize).take (wr.length - headerSize - tagBytes) ++ wr.drop (wr.length - tagBytes)
      = wr.drop headerSize := by
  have htag : wr.drop (wr.length - tagBytes)
      = (wr.drop headerSize).drop (wr.length - headerSize - tagBytes) := by
    rw [drop_drop]
    congr 1
    omega
  rw [htag, take_append_drop]

/-- The header fields at their offsets. -/
theorem splitWidths_header (h : Bytes) : splitWidths headerWidths h =
    [h.take 4, (h.drop 4).take 1, (h.drop 5).take 1, (h.drop 6).take 2, (h.drop 8).take 8, (h.drop 16).take 8,
      (h.drop 24).take 2, (h.drop 26).take 2, (h.drop 28).take 4] := by
  simp [splitWidths, headerWidths, drop_drop]

theorem decode_agree (c : Codec) (wr : Bytes) : Agree (c.decode wr) (Node.decode c wr) := by
  refine rel_ite (by omega) (fun _ => .value _ _) fun hsz => ?_
  have hlen : headerSize + tagBytes ≤ wr.length := (not_not.mp hsz).1
  have hleng : ∀ n : Nat, (n : Int) ≠ (wr.drop headerSize).length - tagBytes ↔
      n ≠ wr.length - headerSize - tagBytes := by
    intro n
    rw [length_drop]
    omega
  dsimp only
  rw [splitWidths_header, Node.body_append_tag hlen]
  generalize wr.take headerSize = h
  dsimp only
  rw [show Node.readAt h 5 1 = ofBE ((h.drop 5).take 1) from rfl]
  cases Kind.ofCode (ofBE ((h.drop 5).take 1)) with
  | none => exact .value _ _
  | some kind =>
    unfold Node.readAt
    -- Python checks the header and the fields one after the other, Node.js at once
    simp only [hleng]
    by_cases hhdr : h.take 4 ≠ magic ∨ ofBE ((h.drop 4).take 1) ≠ 1 ∨ ofBE ((h.drop 6).take 2) ≠ 0 ∨
        ofBE ((h.drop 28).take 4) ≠ wr.length - headerSize - tagBytes
    · rw [if_pos hhdr, if_pos (by tauto)]
      exact .value _ _
    rw [if_neg hhdr]
    refine rel_ite (by tauto) (fun _ => .value _ _) fun _ => ?_
    rw [show Node.nonce c.crypto h = c.nonce h from rfl]
    cases c.crypto.decrypt c.rx (c.nonce h) (wr.drop headerSize) h with
    | none => exact .value _ _
    | some payload => exact rel_ite Iff.rfl (fun _ => .value _ _) fun _ => .ok _

/-! ## Construction -/

theorem profiles_agree (core : Core) : Node.profiles core = profiles core := by cases core <;> rfl

theorem profileName_agree {core profile profile' : Core} {transport : Option Transport}
    (h : profileName core transport = .ok profile) (h' : Node.profileName core transport = .ok profile') :
    profile' = profile := by
  cases transport with
  | none =>
    cases h
    cases h'
    rfl
  | some transport =>
    unfold profileName at h
    unfold Node.profileName at h'
    dsimp only at h h'
    split_ifs at h h' <;> (cases h; cases h'; rfl)

theorem createCodec_agree {C : Crypto} {key : Bytes} {pl sd ms : Nat} {c c' : Codec}
    (h : Codec.create C key pl sd ms = .ok c)
    (h' : Node.createCodec C key pl sd ms = .ok c') : c' = c := by
  obtain ⟨hcry, htx, hrx, hpay, hstr⟩ := Codec.create_ok h
  obtain ⟨hcry', htx', hrx', hpay', hstr'⟩ := Node.createCodec_ok h'
  obtain ⟨_, _, _, _, _, _, _⟩ := c
  obtain ⟨_, _, _, _, _, _, _⟩ := c'
  dsimp only at *
  subst hcry htx hrx hpay hstr hcry' htx' hrx' hpay' hstr'
  rfl

/-- Constructors that both succeed on the same arguments agree on the configuration. -/
theorem create_agree {C : Crypto} {core : Core} {key : Bytes} {side : Nat} {extensions : List Text}
    {timing : Timing τ} {limits : Limits} {transport : Option Transport} {nfc : Text → Text} {S N : Setup τ}
    (h : create C core key side extensions timing limits transport nfc = .ok S)
    (h' : Node.create C core key side extensions timing limits transport nfc = .ok N) : N = S := by
  unfold create at h
  unfold Node.create at h'
  split at h
  · cases h
  rename_i profile hprof
  split at h'
  · cases h'
  rename_i profile' hprof'
  obtain rfl := profileName_agree hprof hprof'
  dsimp only at h h'
  split at h
  · cases h
  split at h'
  · cases h'
  split at h
  · cases h
  rename_i codec hcodec
  split at h'
  · cases h'
  rename_i codec' hcodec'
  rw [profiles_agree] at hcodec'
  obtain rfl := createCodec_agree hcodec hcodec'
  split at h
  · cases h
  split at h'
  · cases h'
  cases h
  cases h'
  simp only [profiles_agree]

/-! ## Matching states -/

/-- **The simulation relation.** The two states hold the same things; `activeStreams` from its head on is the
    deque, and while the adapter is open the ring holds the completed identities in their order. -/
structure Matches (a : ReliableAdapter τ) (b : Node.ReliableAdapter τ) : Prop where
  next : b.next = a.nextMessage
  next_le : ∀ s, a.nextMessage s ≤ 2 ^ 64 - 1
  pending : b.pending = a.pending
  outgoing : b.outgoing = a.outgoing
  queues : b.queues = a.queues
  head_le : b.activeHead ≤ b.activeStreams.length
  active : b.activeStreams.drop b.activeHead = a.activeStreams
  incoming : b.incoming = a.incoming
  incomingBytes : b.incomingBytes = a.incomingBytes
  completed : b.completed = a.completed
  ring : a.closed = false → Ring 4096 b.order b.orderHead a.completedOrder
  buffered : b.buffered = a.buffered
  estimator : b.estimator = a.estimator
  closed : b.closed = a.closed

/-- Both answers and both states agree. -/
structure Alike {α : Type} (p : Outcome τ α) (q : Node.Outcome τ α) : Prop where
  answer : Agree p.1 q.1
  state : Matches p.2 q.2

variable {log : List Identity}

section

variable {S : Setup τ} {a : ReliableAdapter τ} {b : Node.ReliableAdapter τ}

theorem Matches.init : Matches S.init (Node.init S) where
  next := rfl
  next_le := fun _ => Nat.zero_le _
  pending := rfl
  outgoing := rfl
  queues := rfl
  head_le := le_refl _
  active := rfl
  incoming := rfl
  incomingBytes := rfl
  completed := rfl
  ring := fun _ => Ring.empty (by decide)
  buffered := rfl
  estimator := rfl
  closed := rfl

section

variable (h : Matches a b)
include h

/-- The history variable of the Python model has no counterpart. -/
theorem Matches.note (f : Frame) : Matches (a.note f) b := { h with }

theorem Matches.refuse {e' : JsError} (he : e.kind ≠ .adapterRetryLimit) (he' : e'.code ≠ some .retryExhausted)
    : Alike ((.error e : Except PyError α), a) (.error e', b) :=
  ⟨.plain he he', h⟩

theorem Matches.refuseClosed : Alike ((.error adapterClosed : Except PyError α), a) (.error Node.closedError, b) :=
  h.refuse (by decide) (by decide)

theorem Matches.refuseValue (t t' : String) :
    Alike ((.error (.value t) : Except PyError α), a) (.error (.plain t'), b) :=
  ⟨.value t t', h⟩

theorem Matches.refuseBackpressure (t : String) :
    Alike ((.error ⟨.adapterBackpressure, t⟩ : Except PyError α), a) (.error Node.backpressure, b) :=
  h.refuse (by simp) (by decide)

/-! ## Sending -/

/-- A round of the loop: the same chunk goes out. -/
theorem Matches.transmit (hacc : Accounted S a) (now : τ) (hact : a.activeStreams ≠ []) :
    Alike (transmit S a now) (b.transmit S now) := by
  obtain ⟨stream, rest, item, it, hcons, hqu, hadm, hpyt⟩ := transmit_eq now hacc hact
  have hencd := encode_agree S.codec (chunkFrame S stream item)
  rw [Codec.encode_of_admits hadm] at hencd
  have hdrop : b.activeStreams.drop b.activeHead = stream :: rest := h.active.trans hcons
  have hget : b.activeStreams[b.activeHead]? = some stream := by
    rw [← head?_drop, hdrop]
    rfl
  have hrs : b.activeStreams.drop (b.activeHead + 1) = rest := by
    rw [← tail_drop, hdrop]
    rfl
  have hlt : b.activeHead < b.activeStreams.length := (List.getElem?_eq_some_iff.mp hget).1
  have hnode : b.transmit S now = (.ok (S.codec.sealed (chunkFrame S stream item)), { b with
        activeHead := b.activeHead + 1
        pending := b.pending.set (stream, item.message, item.index)
          { wire := S.codec.sealed (chunkFrame S stream item)
            deadline := S.timing.firstDeadline now b.estimator.rto, attempts := 0
            size := (chunkFrame S stream item).payload.length, sent := now, retried := false }
        queues := update b.queues stream (advance item it)
        activeStreams :=
          if (advance item it).length ≠ 0 then b.activeStreams ++ [stream] else b.activeStreams }) := by
    unfold Node.ReliableAdapter.transmit
    simp only [hget, h.queues, hqu]
    have henc : Node.encode S.codec ⟨.data, stream, item.message, item.index, item.count,
        (item.data.drop (item.index * S.codec.payload)).take S.codec.payload⟩
        = .ok (S.codec.sealed (chunkFrame S stream item)) := hencd.of_ok
    rw [henc]
    simp only [update_idem]
    rfl
  -- the stream goes back to the end of the line unless its queue is empty
  have hact' : (if (advance item it).length ≠ 0 then b.activeStreams ++ [stream]
      else b.activeStreams).drop (b.activeHead + 1)
      = if (advance item it).isEmpty then rest else rest ++ [stream] := by
    cases advance item it with
    | nil => simpa using hrs
    | cons x xs => simp [drop_append_of_le_length hlt, hrs]
  have hlen : b.activeHead + 1 ≤ (if (advance item it).length ≠ 0 then b.activeStreams ++ [stream]
      else b.activeStreams).length := by
    split_ifs
    · exact hlt.trans (by simp)
    · exact hlt
  rw [hpyt, hnode]
  exact
    { answer := .ok _
      state := { h with
        pending := by
          show b.pending.set _ _ = a.pending.set _ _
          rw [h.pending, h.estimator]
        queues := congrArg (update · stream (advance item it)) h.queues
        head_le := hlen
        active := hact' } }

theorem Matches.outboundLoop (hacc : Accounted S a) (hopen : a.closed = false) (now : τ) (k : Nat) (out : List Bytes) :
    ∃ wires a' b', outboundLoop S now k a = (.ok wires, a') ∧
      b.outboundLoop S now k out = (.ok (out ++ wires), b') ∧ Matches a' b' := by
  induction k generalizing a b out with
  | zero => exact ⟨[], a, b, rfl, by rw [append_nil]; rfl, h⟩
  | succ k ih =>
    have hgo : a.pending.size < S.window ∧ a.activeStreams ≠ [] ↔
        b.pending.size < S.window ∧ b.activeHead < b.activeStreams.length := by
      rw [h.pending, ← h.active, ne_eq, drop_eq_nil_iff, not_le]
    unfold outboundLoop Node.ReliableAdapter.outboundLoop
    by_cases hcond : a.pending.size < S.window ∧ a.activeStreams ≠ []
    · rw [if_pos hcond, if_pos (hgo.mp hcond)]
      obtain ⟨f, a', hok, hstep, hopen', -⟩ := transmit_step now hacc hopen hcond.1 hcond.2
      have hal := h.transmit hacc now hcond.2
      rw [hok] at hal ⊢
      generalize b.transmit S now = q at hal
      obtain ⟨y, b'⟩ := q
      obtain ⟨hans, hst⟩ := hal
      obtain rfl := hans.of_ok
      obtain ⟨wires, a'', b'', hpy, hjs, hend⟩ := ih hst (hacc.step hstep) hopen' (out ++ [S.codec.sealed f])
      dsimp only
      rw [hpy, hjs]
      exact ⟨S.codec.sealed f :: wires, a'', b'', rfl, by rw [append_assoc]; rfl, hend⟩
    · rw [if_neg hcond, if_neg (fun hc => hcond (hgo.mpr hc))]
      exact ⟨[], a, b, rfl, by rw [append_nil], h⟩

/-- Dropping the consumed part of the array changes nothing. -/
theorem Matches.compact : Matches a b.compact := by
  unfold Node.ReliableAdapter.compact
  split_ifs with hend hlong
  · have hnil : a.activeStreams = [] := by
      rw [← h.active, hend, drop_length]
    exact { h with head_le := le_refl _, active := hnil.symm }
  · exact { h with head_le := Nat.zero_le _, active := h.active }
  · exact h

theorem Matches.outbound (hacc : Accounted S a) (now : τ) : Alike (outbound S a now) (b.outbound S now) := by
  unfold ReliableAdapter.outbound Node.ReliableAdapter.outbound
  rw [h.closed, h.pending]
  cases hopen : a.closed with
  | true => exact h.refuseClosed
  | false =>
    obtain ⟨wires, a', b', hpy, hjs, hend⟩ := h.outboundLoop hacc hopen now (S.window - a.pending.size) []
    simp only [Bool.false_eq_true, if_false, hpy, hjs, nil_append]
    exact ⟨.ok _, hend.compact⟩

omit h in
theorem ceilDiv_eq {len size : Nat} (h : 0 < size) : Node.ReliableAdapter.ceilDiv len size = chunkCount len size := by
  have hdiv := Nat.div_add_mod len size
  have hmod := Nat.mod_lt len h
  unfold Node.ReliableAdapter.ceilDiv chunkCount
  generalize len / size = q at hdiv ⊢
  generalize len % size = r at hdiv hmod ⊢
  subst hdiv
  rw [mul_comm]
  split_ifs with hr
  · exact (Nat.div_eq_of_lt_le (by omega) (by rw [Nat.succ_mul]; omega)).symm
  · exact (Nat.div_eq_of_lt_le (by rw [Nat.succ_mul]; omega) (by rw [Nat.succ_mul, Nat.succ_mul]; omega)).symm

theorem Matches.enqueue (stream : Nat) (data : Bytes) (hnx : a.nextMessage stream < 2 ^ 64 - 1) :
    Matches (a.enqueue S stream data) (b.enqueue S stream data) := by
  have hpos : 0 < S.codec.payload := by have := S.codec.payload_bounds; omega
  have hact : (if (b.queues stream).length = 0 then b.activeStreams ++ [stream]
      else b.activeStreams).drop b.activeHead
      = if (a.queues stream).isEmpty then a.activeStreams ++ [stream] else a.activeStreams := by
    rw [h.queues, ← h.active]
    cases a.queues stream with
    | nil => simp [drop_append_of_le_length h.head_le]
    | cons x xs => simp
  have hlen : b.activeHead ≤ (if (b.queues stream).length = 0 then b.activeStreams ++ [stream]
      else b.activeStreams).length := by
    split_ifs
    · exact h.head_le.trans (by simp)
    · exact h.head_le
  exact { h with
    next := by simp only [Node.ReliableAdapter.enqueue, ReliableAdapter.enqueue, h.next]
    next_le := by
      intro s
      by_cases hs : s = stream
      · simp only [ReliableAdapter.enqueue, hs, update_self]
        omega
      · simpa only [ReliableAdapter.enqueue, update_of_ne hs] using h.next_le s
    outgoing := by simp only [Node.ReliableAdapter.enqueue, ReliableAdapter.enqueue, h.outgoing, h.next, ceilDiv_eq hpos]
    queues := by simp only [Node.ReliableAdapter.enqueue, ReliableAdapter.enqueue, h.queues, h.next, ceilDiv_eq hpos]
    head_le := hlen
    active := hact
    buffered := by simp only [Node.ReliableAdapter.enqueue, ReliableAdapter.enqueue, h.buffered] }

/-- What `send` checks, in the order of Python. -/
def Acceptable (S : Setup τ) (a : ReliableAdapter τ) (stream : Int) (data : Bytes) : Prop :=
  (0 ≤ stream ∧ stream < S.limits.maxStreams) ∧ ¬ (data = [] ∨ S.limits.maxMessage < data.length) ∧
    chunkCount data.length S.codec.payload ≤ 65535 ∧
    ¬ ((S.limits.maxInflight : Int) < a.buffered + data.length ∨ 4096 ≤ a.outgoing.size) ∧
    ¬ 2 ^ 64 - 1 ≤ a.nextMessage stream.toNat

/-- Node.js refuses what does not pass these checks, in whatever order it makes them. -/
theorem Matches.send_refuses (hopen : a.closed = false) {stream : Int} {data : Bytes} (now : τ)
    (hbad : ¬ Acceptable S a stream data) : ∃ e : JsError, e.code ≠ some .retryExhausted ∧
      b.send S stream data now = (.error e, b) := by
  unfold Acceptable at hbad
  have hpos : 0 < S.codec.payload := by have := S.codec.payload_bounds; omega
  have hnx := h.next_le stream.toNat
  unfold Node.ReliableAdapter.send
  rw [h.closed, hopen, h.buffered, h.outgoing, h.next, ceilDiv_eq hpos]
  simp only [Bool.false_eq_true, if_false]
  split_ifs with hargs hroom hnum hcnt
  · exact ⟨_, by simp [JsError.plain], rfl⟩
  · exact ⟨_, by decide, rfl⟩
  · exact ⟨_, by simp [JsError.plain], rfl⟩
  · exact ⟨_, by simp [JsError.plain], rfl⟩
  have hnil : data = [] ↔ data.length = 0 := length_eq_zero_iff.symm
  rw [hnil] at hbad
  omega

theorem Matches.send (hacc : Accounted S a) (stream : Int) (data : Bytes) (now : τ) :
    Alike (send S a stream data now) (b.send S stream data now) := by
  cases hcl : a.closed with
  | true =>
    unfold ReliableAdapter.send Node.ReliableAdapter.send
    rw [h.closed, hcl]
    exact h.refuseClosed
  | false =>
    by_cases hgood : Acceptable S a stream data
    · obtain ⟨hstrm, hdt, hcnt, hroom, hnum⟩ := hgood
      have hpos : 0 < S.codec.payload := by have := S.codec.payload_bounds; omega
      have hlen : data.length ≠ 0 := fun hz => hdt (.inl (length_eq_zero_iff.mp hz))
      have hstep : Step S a (.accepted stream.toNat (a.nextMessage stream.toNat) data)
          (a.enqueue S stream.toNat data) :=
        .accept hcl (by omega) (fun hz => hdt (.inl hz)) hcnt (by omega) (by omega)
      have hpyt : a.send S stream data now = (a.enqueue S stream.toNat data).outbound S now := by
        unfold ReliableAdapter.send
        rw [hcl, if_neg (by decide), if_neg (not_not.mpr hstrm), if_neg hdt, if_neg (by omega),
          if_neg hroom, if_neg hnum]
      have hnode : b.send S stream data now = (b.enqueue S stream.toNat data).outbound S now := by
        unfold Node.ReliableAdapter.send
        rw [h.closed, hcl, h.buffered, h.outgoing, h.next, ceilDiv_eq hpos, if_neg (by decide),
          if_neg (by omega), if_neg hroom, if_neg (by omega), if_neg (by omega)]
      rw [hpyt, hnode]
      exact (h.enqueue _ _ (by omega)).outbound (hacc.step hstep) now
    obtain ⟨e', he', hnode⟩ := h.send_refuses hcl now hgood
    rw [hnode]
    unfold ReliableAdapter.send
    rw [hcl, if_neg (by decide)]
    split_ifs
    all_goals first
      | exact h.refuse (by simp [PyError.value]) he'
      | exact absurd ⟨by tauto, by tauto, by omega, by tauto, by tauto⟩ hgood

theorem Matches.applicationCredit : b.applicationCredit S = a.applicationCredit S := by
  unfold Node.ReliableAdapter.applicationCredit ReliableAdapter.applicationCredit
  rw [h.closed, h.outgoing]

theorem Matches.sendFlowControlled (hacc : Accounted S a) (stream : Int) (dt : Bytes) (now : τ) :
    Alike (sendFlowControlled S a stream dt now) (b.sendFlowControlled S stream dt now) := by
  have hpos : 0 < S.codec.payload := by have := S.codec.payload_bounds; omega
  have hnil : dt = [] ↔ dt.length = 0 := length_eq_zero_iff.symm
  unfold ReliableAdapter.sendFlowControlled Node.ReliableAdapter.sendFlowControlled
  rw [h.closed, h.applicationCredit, ceilDiv_eq hpos]
  refine rel_ite Iff.rfl (fun _ => h.refuseClosed) fun _ => ?_
  refine rel_ite (by omega) (fun _ => h.refuseValue _ _) fun _ => ?_
  refine rel_ite (by rw [hnil]) (fun _ => h.refuseValue _ _) fun _ => ?_
  refine rel_ite Iff.rfl (fun _ => h.refuseValue _ _) fun _ => ?_
  refine rel_ite Iff.rfl (fun _ => h.refuseBackpressure _) fun _ => ?_
  exact h.send hacc stream dt now

/-! ## Receiving -/

omit h in
theorem remember_room {key : Identity} (hroom : a.completedOrder.length < 4096) :
    a.remember key = { a with completed := insert key a.completed, completedOrder := a.completedOrder ++ [key] } := by
  unfold remember
  split
  · rename_i oldest rest heq
    rw [if_neg (by rw [← heq, length_append, length_singleton]; omega), heq]
  · rename_i heq
    simp at heq

omit h in
theorem remember_full {key o : Identity} {rest : List Identity} (hqu : a.completedOrder = o :: rest)
    (hfull : 4096 ≤ a.completedOrder.length) : a.remember key
      = { a with completed := (insert key a.completed).erase o, completedOrder := rest ++ [key] } := by
  have hlen : 4096 < (o :: (rest ++ [key])).length := by
    rw [← cons_append, ← hqu, length_append, length_singleton]
    omega
  unfold remember
  rw [hqu, cons_append]
  exact if_pos hlen

/-- Overwriting a slot of the ring is dropping the oldest identity of the deque. -/
theorem Matches.remember (log : List Identity) {key : Identity} (hlog : Remembers log a) (hopen : a.closed = false)
    (hfsh : key ∉ a.completed) : Matches (a.remember key) (b.remember key) := by
  have hring := h.ring hopen
  have hlen := hring.length_eq
  unfold Node.ReliableAdapter.remember
  rw [if_neg (h.completed.symm ▸ hfsh)]
  by_cases hroom : b.order.length < 4096
  · rw [if_pos hroom, remember_room (by omega)]
    exact { h with
      completed := congrArg (insert key) h.completed
      ring := fun _ => hring.push hroom key }
  obtain ⟨oldest, rest, hqu, hslot, hring'⟩ := hring.replace hroom key
  have hold : oldest ∈ a.completed := by
    rw [hlog.completed hopen, hqu, mem_toFinset]
    exact mem_cons_self
  have hne : key ≠ oldest := fun heq => hfsh (heq ▸ hold)
  rw [if_neg hroom, remember_full hqu (by omega)]
  simp only [hslot]
  exact { h with
    completed := by
      rw [h.completed, Finset.erase_insert_of_ne hne]
    ring := fun _ => hring' }

theorem Matches.release (id : Identity) (o : Outgoing) : Matches (a.release id o) (b.release id o) := by
  refine rel_ite Iff.rfl (fun _ => ?_) fun _ => ?_
  · exact { h with buffered := congrArg (· - (o.bytes : Int)) h.buffered, outgoing := congrArg (·.erase id) h.outgoing }
  · exact { h with
      outgoing := by
        rw [h.outgoing] }

theorem Matches.receiveAck (f : Frame) (now : τ) : Alike (receiveAck S a f now) (b.receiveAck S f now) := by
  unfold ReliableAdapter.receiveAck Node.ReliableAdapter.receiveAck
  rw [h.pending]
  cases a.pending.find? (f.stream, f.message, f.index) with
  | none => exact ⟨.ok _, h⟩
  | some p =>
    have heras : Matches { a with pending := a.pending.erase (f.stream, f.message, f.index) }
        { b with pending := a.pending.erase (f.stream, f.message, f.index), outgoing := a.outgoing } :=
      { h with pending := rfl, outgoing := rfl }
    dsimp only
    rw [h.outgoing]
    cases a.outgoing.find? (f.stream, f.message) with
    | none => exact ⟨.plain (by simp) (by simp [JsError.plain]), heras⟩
    | some o =>
      have hrel := heras.release (f.stream, f.message) o
      refine ⟨.ok _, ?_⟩
      unfold sampled
      cases p.retried with
      | true => exact hrel
      | false =>
        exact { hrel with estimator := congrArg (S.timing.sample · now p.sent) hrel.estimator }

/-- The end of the `DATA` branch. -/
theorem Matches.settle (hlog : Remembers log a) (hopen : a.closed = false) {f : Frame}
    (hfsh : (f.stream, f.message) ∉ a.completed) (ack : Bytes) {r : Reassembly τ} (hcnt : r.count = f.count) :
    Alike (settle S a f ack r) (b.settle S f ack r) := by
  have hstor : Matches (a.stored (f.stream, f.message) r)
      { b with incoming := b.incoming.set (f.stream, f.message) r } :=
    { h with
      incoming := by
        show b.incoming.set _ _ = a.incoming.set _ _
        rw [h.incoming] }
  have hjoin : Node.ReliableAdapter.concatParts f.count r.parts = r.join := by
    rw [← hcnt]
    rfl
  refine rel_ite Iff.rfl (fun _ => ?_) fun _ => ⟨.ok _, hstor⟩
  rw [hjoin]
  cases r.join with
  | none => exact ⟨.plain (by simp) (by simp [JsError.plain]), hstor⟩
  | some data =>
    refine rel_ite Iff.rfl (fun _ => hstor.refuseValue _ _) fun _ => ⟨.ok _, ?_⟩
    refine Matches.remember ?_ log { hlog with } hopen hfsh
    exact { hstor with
      incoming := congrArg (·.erase (f.stream, f.message)) hstor.incoming
      incomingBytes := congrArg (· - (r.bytes : Int)) h.incomingBytes }

theorem Matches.stateFor (now : τ) (f : Frame) : b.stateFor S now f = (a.incoming.find? (f.stream, f.message)).getD
      ⟨f.count, .empty, 0, S.timing.reassemblyDeadline now S.limits.reassemblySeconds⟩ := by
  unfold Node.ReliableAdapter.stateFor
  rw [h.incoming]
  cases a.incoming.find? (f.stream, f.message) <;> rfl

theorem Matches.receiveData (hlog : Remembers log a) (hopen : a.closed = false) (f : Frame) (ack : Bytes) (now : τ) :
    Alike (receiveData S a f ack now) (b.receiveData S f ack now) := by
  have hnil : f.payload = [] ↔ f.payload.length = 0 := length_eq_zero_iff.symm
  refine rel_ite (by rw [h.completed]) (fun _ => ⟨.ok _, h⟩) fun hfsh => ?_
  refine rel_ite hnil (fun _ => h.refuseValue _ _) fun _ => ?_
  refine rel_ite (by rw [h.incoming, Option.isNone_iff_eq_none, ← Dict.not_mem_iff_find?])
    (fun _ => h.refuseBackpressure _) fun _ => ?_
  rw [h.stateFor]
  generalize (a.incoming.find? (f.stream, f.message)).getD _ = r
  refine rel_ite Iff.rfl (fun _ => h.refuseValue _ _) fun hcnt => ?_
  have hcnt' : r.count = f.count := not_not.mp hcnt
  by_cases hpart : f.index ∈ r.parts
  · -- the chunk is there already
    obtain ⟨bytes, hby⟩ := Dict.mem_iff_find?.mp hpart
    rw [if_pos (by rw [hby]; rfl), if_neg (not_not.mpr hpart)]
    exact h.settle hlog hopen hfsh ack hcnt'
  rw [if_neg (by rw [Dict.not_mem_iff_find?.mp hpart]; decide), if_pos hpart]
  refine rel_ite (by rw [h.incomingBytes]) (fun _ => h.refuseBackpressure _) fun _ => ?_
  refine rel_ite Iff.rfl (fun _ => h.refuseValue _ _) fun _ => ?_
  have hgrown : Matches { a with incomingBytes := a.incomingBytes + f.payload.length }
      { b with incomingBytes := b.incomingBytes + f.payload.length } :=
    { h with incomingBytes := congrArg (· + (f.payload.length : Int)) h.incomingBytes }
  exact hgrown.settle { hlog with } hopen hfsh ack hcnt'

/-- Does a received record carry an extension? -/
def CarriesExtension (S : Setup τ) (wire : Bytes) : Prop := ∃ f, S.codec.decode wire = .ok f ∧ f.kind = .extension

theorem Matches.receive (hlog : Remembers log a) {wr : Bytes} (hpl : ¬ CarriesExtension S wr) (now : τ) :
    Alike (receive S a wr now) (b.receive S wr now) := by
  unfold ReliableAdapter.receive Node.ReliableAdapter.receive
  rw [h.closed]
  refine rel_ite Iff.rfl (fun _ => h.refuseClosed) fun hcl => ?_
  have hopen : a.closed = false := by simpa using hcl
  have hdec := decode_agree S.codec wr
  cases hwire : S.codec.decode wr with
  | error e =>
    rw [hwire] at hdec
    obtain ⟨e', hnode, hrty⟩ := hdec.of_error
    rw [hnode]
    exact ⟨.refused hrty, h⟩
  | ok f =>
    rw [hwire] at hdec
    rw [hdec.of_ok]
    refine rel_ite Iff.rfl (fun _ => h.receiveAck f now) fun _ => ?_
    have hencd : Agree (S.codec.encode (ackFrame f))
        (Node.encode S.codec ⟨.ack, f.stream, f.message, f.index, f.count, []⟩) :=
      encode_agree S.codec (ackFrame f)
    cases hack : S.codec.encode (ackFrame f) with
    | error e =>
      rw [hack] at hencd
      obtain ⟨e', hnode, hrty⟩ := hencd.of_error
      rw [hnode]
      exact ⟨.refused hrty, h⟩
    | ok ack =>
      rw [hack] at hencd
      rw [hencd.of_ok]
      have hdt : f.kind ≠ .extension := fun hkd => hpl ⟨f, hwire, hkd⟩
      dsimp only
      rw [if_neg hdt, if_neg hdt]
      exact (h.note (ackFrame f)).receiveData { hlog with } hopen f ack now

/-! ## Retransmission -/

omit h in
/-- The loops differ only in that Node.js collects the frames on the way. -/
theorem resendLoop_agree (T : Timing τ) (now rto : τ) (l : List (ChunkKey × Pending τ)) (out : List Bytes) :
    Node.ReliableAdapter.resendLoop T now rto l out
      = ((resendLoop T now rto l).1,
        (resendLoop T now rto l).2.map (out ++ ·)) := by
  induction l generalizing out with
  | nil => simp [Node.ReliableAdapter.resendLoop, resendLoop, Except.map]
  | cons e es ih =>
    obtain ⟨key, p⟩ := e
    unfold Node.ReliableAdapter.resendLoop resendLoop
    split_ifs
    · rw [ih]
    · rfl
    rw [ih]
    rcases ReliableAdapter.resendLoop T now rto es with ⟨rest, result⟩
    cases result <;> simp [Except.map]

theorem Matches.expire (now : τ) : Matches (a.expire S now) (b.expire S now) := { h with
  incoming := by simp only [Node.ReliableAdapter.expire, ReliableAdapter.expire, h.incoming]
  incomingBytes := by
    simp only [Node.ReliableAdapter.expire, ReliableAdapter.expire, h.incoming, h.incomingBytes] }

theorem Matches.resent (now : τ) : Matches (a.resent S now) (b.resent S now) := by
  refine { h with pending := Dict.ext ?_ }
  simp only [Node.ReliableAdapter.resent, ReliableAdapter.resent, h.pending, h.estimator, resendLoop_agree]

end

/-- The call failed because a frame ran out of attempts. -/
def Exhausted {α : Type} : Except PyError α → Prop
  | .error e => e.kind = .adapterRetryLimit
  | .ok _ => False

/-- The two cases of a retransmission of the Node.js backend, which resends before it expires. -/
theorem retransmit_exhausted_node (hopen : b.closed = false) {now : τ} {key : ChunkKey}
    (h : (Node.ReliableAdapter.resendLoop S.timing now b.estimator.rto b.pending.entries []).2 = .error key) :
    b.retransmit S now = (.error (Node.ReliableAdapter.retryExhausted key), b.resent S now) := by
  simp [Node.ReliableAdapter.retransmit, hopen, h]

theorem retransmit_resent_node (hopen : b.closed = false) {now : τ} {out : List Bytes}
    (h : (Node.ReliableAdapter.resendLoop S.timing now b.estimator.rto b.pending.entries []).2 = .ok out) :
    b.retransmit S now = (((b.resent S now).expire S now).outbound S now).map (Except.map (out ++ ·)) id := by
  simp only [Node.ReliableAdapter.retransmit, hopen, h]
  rcases ((b.resent S now).expire S now).outbound S now with ⟨_ | _, _⟩ <;> rfl

/-- A retransmission answers alike; unless a frame ran out of attempts it also leaves matching states. -/
theorem Matches.retransmit (h : Matches a b) (hacc : Accounted S a) (now : τ) :
    Agree (retransmit S a now).1 (b.retransmit S now).1 ∧ (¬ Exhausted (retransmit S a now).1 →
      Matches (retransmit S a now).2 (b.retransmit S now).2) := by
  cases hcl : a.closed with
  | true =>
    have hal : Alike (ReliableAdapter.retransmit S a now) (b.retransmit S now) := by
      unfold ReliableAdapter.retransmit Node.ReliableAdapter.retransmit
      rw [h.closed, hcl]
      exact h.refuseClosed
    exact ⟨hal.answer, fun _ => hal.state⟩
  | false =>
    have hcl' : b.closed = false := h.closed.trans hcl
    -- both resend the same frames, from the same table and the same timeout
    have hloop : (Node.ReliableAdapter.resendLoop S.timing now b.estimator.rto b.pending.entries []).2 =
        (resendLoop S.timing now a.estimator.rto a.pending.entries).2 := by
      rw [h.pending, h.estimator, resendLoop_agree]
      cases (resendLoop S.timing now a.estimator.rto a.pending.entries).2 <;> rfl
    cases hres : (resendLoop S.timing now a.estimator.rto a.pending.entries).2 with
    | error key =>
      rw [retransmit_exhausted hcl hres, retransmit_exhausted_node hcl' (hloop.trans hres)]
      exact ⟨.refused ⟨fun _ => rfl, fun _ => rfl⟩, fun hne => absurd rfl hne⟩
    | ok frames =>
      have hsend : Alike (((a.expire S now).resent S now).outbound S now)
          (((b.resent S now).expire S now).outbound S now) :=
        ((h.resent now).expire now).outbound (hacc.resent hcl now) now
      rw [retransmit_resent hcl hres, retransmit_resent_node hcl' (hloop.trans hres)]
      exact ⟨hsend.answer.map _, fun _ => hsend.state⟩

theorem Matches.close (h : Matches a b) : Matches a.close b.close := by
  unfold ReliableAdapter.close Node.ReliableAdapter.close
  rw [h.closed]
  refine rel_ite Iff.rfl (fun _ => h) fun _ => ?_
  exact { h with
    pending := rfl
    outgoing := rfl
    queues := rfl
    head_le := le_refl _
    active := rfl
    incoming := rfl
    incomingBytes := rfl
    completed := rfl
    ring := (nomatch ·)
    buffered := rfl
    closed := rfl }

/-! ## Every call, every run -/

/-- The calls the two backends are compared on: everything but extensions. -/
def Plain (S : Setup τ) : Op τ → Prop
  | .extension _ _ _ => False
  | .receive wire _ => ¬ CarriesExtension S wire
  | .send _ _ _ | .sendFlowControlled _ _ _ | .outbound _ | .retransmit _ | .close => True

theorem Alike.mapped {p : Outcome τ α} {q : Node.Outcome τ α} (h : Alike p q) (f : α → Reply) :
    Agree (p.map (Except.map f) id).1 (q.map (Except.map f) id).1 ∧
    (¬ Exhausted (p.map (Except.map f) id).1 → Matches (p.map (Except.map f) id).2 (q.map (Except.map f) id).2) :=
  ⟨h.answer.map f, fun _ => h.state⟩

/-- One call: the answers agree, and the states match until a frame runs out of attempts. -/
theorem Matches.apply (h : Matches a b) (hacc : Accounted S a) (hlog : Remembers log a) {op : Op τ}
    (hpl : Plain S op) : Agree (S.apply a op).1 (Node.apply S b op).1 ∧
    (¬ Exhausted (S.apply a op).1 → Matches (S.apply a op).2 (Node.apply S b op).2) := by
  cases op with
  | send stream data now => exact (h.send hacc stream data now).mapped .frames
  | sendFlowControlled stream data now => exact (h.sendFlowControlled hacc stream data now).mapped .frames
  | extension stream name value => exact hpl.elim
  | outbound now => exact (h.outbound hacc now).mapped .frames
  | receive wire now => exact (h.receive hlog hpl now).mapped .received
  | retransmit now =>
    obtain ⟨hans, hst⟩ := h.retransmit hacc now
    refine ⟨hans.map Reply.frames, fun hne => hst fun hex => hne ?_⟩
    show Exhausted ((ReliableAdapter.retransmit S a now).1.map Reply.frames)
    generalize (ReliableAdapter.retransmit S a now).1 = x at hex
    cases x with
    | error e | ok v => exact hex
  | close => exact ⟨.ok _, fun _ => h.close⟩

end

/-- The answers to a sequence of calls. -/
def Setup.replies (S : Setup τ) : ReliableAdapter τ → List (Op τ) → List (Except PyError Reply)
  | _, [] => []
  | a, op :: ops => (S.apply a op).1 :: S.replies (S.apply a op).2 ops

/-- The answers of the Node.js backend to a sequence of calls. -/
def Node.replies (S : Setup τ) : Node.ReliableAdapter τ → List (Op τ) → List (Except JsError Reply)
  | _, [] => []
  | b, op :: ops => (Node.apply S b op).1 :: Node.replies S (Node.apply S b op).2 ops

/-- Two sequences of answers agree, one by one, up to the first that reports a frame out of attempts (that one
    included). -/
inductive AgreeUntilExhausted : List (Except PyError Reply) → List (Except JsError Reply) → Prop where
  | nil : AgreeUntilExhausted [] []
  | cons {x : Except PyError Reply} {y : Except JsError Reply} {xs : List (Except PyError Reply)}
      {ys : List (Except JsError Reply)} (hagree : Agree x y) (hrest : ¬ Exhausted x → AgreeUntilExhausted xs ys) :
      AgreeUntilExhausted (x :: xs) (y :: ys)

theorem Matches.replies {S : Setup τ} {a : ReliableAdapter τ} {b : Node.ReliableAdapter τ} (h : Matches a b)
    (hacc : Accounted S a) (hlog : Remembers log a) {ops : List (Op τ)} (hpl : ∀ op ∈ ops, Plain S op) :
    AgreeUntilExhausted (S.replies a ops) (Node.replies S b ops) := by
  induction ops generalizing a b log with
  | nil => exact .nil
  | cons op ops ih =>
    obtain ⟨hans, hst⟩ := h.apply hacc hlog (hpl op mem_cons_self)
    obtain ⟨notes, -, hsts⟩ := apply_served hacc op
    refine .cons hans fun hne => ?_
    exact ih (hst hne) (hacc.apply op) (hlog.steps hsts) fun o ho => hpl o (mem_cons_of_mem op ho)

/-- **Backend equivalence.** Built from the same arguments and given the same calls at the same instants, the
    Python and the Node.js adapter refuse the same calls and otherwise return the same frames,
    acknowledgements and messages, up to the first frame that runs out of attempts. -/
theorem backends_agree {C : Crypto} {core : Core} {key : Bytes} {side : Nat} {extensions : List Text}
    {timing : Timing τ} {limits : Limits} {transport : Option Transport} {nfc : Text → Text} {S N : Setup τ}
    (hpython : create C core key side extensions timing limits transport nfc = .ok S)
    (hnode : Node.create C core key side extensions timing limits transport nfc = .ok N) {ops : List (Op τ)}
    (hplain : ∀ op ∈ ops, Plain S op) :
    AgreeUntilExhausted (S.replies S.init ops) (Node.replies N (Node.init N) ops) := by
  rw [create_agree hpython hnode]
  exact Matches.init.replies Accounted.init Remembers.init hplain

/-- The peer's acknowledgement of the first chunk of message 0. -/
def firstAck : Frame := { kind := .ack, stream := 0, message := 0, index := 0, count := 2, payload := [] }

/-- A message of two chunks, one of them acknowledged and the other one resent; then noise and the end. -/
def comparedCalls : List (Op ℚ) :=
  [.send 0 (replicate 100 1) 0, .receive ((small 1).codec.sealed firstAck) 1, .retransmit 2,
    .receive [] 3, .close, .outbound 4]

theorem backends_agree_small : AgreeUntilExhausted ((small 0).replies (small 0).init comparedCalls)
      (Node.replies (small 0) (Node.init (small 0)) comparedCalls) := by
  have hack : (small 0).codec.decode ((small 1).codec.sealed firstAck) = .ok firstAck :=
    Codec.decode_encode (c := (small 1).codec) (d := (small 0).codec) Crypto.checksum_lawful
      rfl rfl rfl rfl ⟨by decide, by decide, by decide, by decide, by decide, by decide⟩ fun _ => rfl
  have hnode : Node.create .checksum .ada (replicate 32 7) 0 [] .seconds .small none id
      = .ok (small 0) := rfl
  refine backends_agree (create_small (.inl rfl)) hnode ?_
  intro op hop
  simp only [comparedCalls, mem_cons, not_mem_nil, or_false] at hop
  rcases hop with rfl | rfl | rfl | rfl | rfl | rfl
  · trivial
  · rintro ⟨f, hf, hkind⟩
    rw [hack] at hf
    cases hf
    cases hkind
  · trivial
  · rintro ⟨f, hf, -⟩
    cases hf
  · trivial
  · trivial

end Shadow6.NetworkAdapter
