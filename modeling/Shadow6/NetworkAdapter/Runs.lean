import Shadow6.NetworkAdapter.Accounting

/-!
# `NetworkAdapter.Runs` — operations as sequences of steps

`Served` lists what each operation can answer, with the notes of the steps behind the answer. The main
lemma, `apply_served`, says that from a state with balanced books every operation is such a sequence of
`Step`s; in particular the lookups that would raise `KeyError` or `IndexError` succeed. Invariants proved
for `Step` thus hold along every run (`run_invariant`).
-/

namespace Shadow6.NetworkAdapter

open Library ReliableAdapter List Dict ReliableAdapter

variable {τ : Type} {r : Reassembly τ}

/-! ## Joining the parts of a message -/

theorem mapM_find?_of_forall {ν : Type} {d : Dict Nat ν} {v : Nat → ν} {l : List Nat}
    (h : ∀ i ∈ l, d.find? i = some (v i)) : (l.mapM fun i => d.find? i) = some (l.map v) := by
  induction l with
  | nil => rfl
  | cons i is ih =>
    have hi := h i mem_cons_self
    have his := ih fun j hj => h j (mem_cons_of_mem i hj)
    simp [hi, his]

theorem Reassembly.join_eq {v : Nat → Bytes} (h : ∀ i < r.count, r.parts.find? i = some (v i)) :
    r.join = some ((range r.count).flatMap v) := by
  unfold Reassembly.join
  rw [mapM_find?_of_forall fun i hi => h i (mem_range.mp hi), Option.map_some, flatMap]

/-- A full reassembly state joins to as many bytes as it has stored. -/
theorem Reassembly.join_full (hsz : r.parts.size = r.count) (hlt : ∀ i ∈ r.parts, i < r.count)
    (hby : (r.bytes : Int) = r.parts.sumOf fun _ p => (p.length : Int)) :
    ∃ data, r.join = some data ∧ data.length = r.bytes := by
  have hfind : ∀ i < r.count, r.parts.find? i = some ((r.parts.find? i).getD []) := by
    intro i hi
    obtain ⟨p, hp⟩ := mem_iff_find?.mp (mem_of_lt hsz hlt hi)
    rw [hp, Option.getD_some]
  refine ⟨_, Reassembly.join_eq hfind, ?_⟩
  have hsum := sumOf_eq_sum_range hsz hlt fun p => ((p.getD []).length : Int)
  simp only [Option.getD_some] at hsum
  rw [hsum] at hby
  rw [length_flatMap]
  apply Int.natCast_inj.mp
  rw [hby, Nat.cast_list_sum, map_map]
  rfl

/-! ## What an operation answers -/

/-- Exceptions other than a failed container lookup. -/
def Deliberate (e : PyError) : Prop := e.kind ≠ .keyError ∧ e.kind ≠ .indexError

/-- What a confirmed frame completed, as `receive` returns it. -/
inductive Completes (f : Frame) :
    Option (Option Bytes) → List (Nat × Bytes) → List (Nat × Text × Json) → Prop where
  | nothing : Completes f none [] []
  | event (name : Text) (value : Json) : Completes f (some none) [] [(f.stream, name, value)]
  | message (data : Bytes) : Completes f (some (some data)) [(f.stream, data)] []

/-- The answers of an operation called in state `a`, with the notes of its steps. -/
inductive Served (S : Setup τ) (a : ReliableAdapter τ) :
    Op τ → Except PyError Reply → List Note → Prop where
  /-- refused, and nothing changed -/
  | refuse {op : Op τ} {e : PyError} (he : Deliberate e) : Served S a op (.error e) []
  /-- refused after the acknowledgement had been sealed -/
  | refuseFrame {wire : Bytes} {now : τ} {e : PyError} (he : Deliberate e) :
      Served S a (.receive wire now) (.error e) [.quiet]
  /-- refused after the message number had been taken -/
  | refuseExtension {stream : Int} {name : Text} {value : Json} {e : PyError} (he : Deliberate e) :
      Served S a (.extension stream name value) (.error e) [.quiet]
  | send {stream : Int} {data : Bytes} {now : τ} {frames : List Frame} (hstream : 0 ≤ stream) :
      Served S a (.send stream data now) (.ok (.frames (frames.map S.codec.sealed)))
        (.accepted stream.toNat (a.nextMessage stream.toNat) data :: frames.map .emitted)
  | sendFlowControlled {stream : Int} {data : Bytes} {now : τ} {frames : List Frame} (hstream : 0 ≤ stream) :
      Served S a (.sendFlowControlled stream data now) (.ok (.frames (frames.map S.codec.sealed)))
        (.accepted stream.toNat (a.nextMessage stream.toNat) data :: frames.map .emitted)
  | extension {stream : Int} {name : Text} {value : Json} {f : Frame} (hkind : f.kind = .extension) :
      Served S a (.extension stream name value) (.ok (.frames [S.codec.sealed f])) [.emitted f]
  | outbound {now : τ} {frames : List Frame} :
      Served S a (.outbound now) (.ok (.frames (frames.map S.codec.sealed))) (frames.map .emitted)
  /-- an acknowledgement of a frame that is not in flight -/
  | stale {wire : Bytes} {now : τ} {f : Frame} (hdecode : S.codec.decode wire = .ok f)
      (hkind : f.kind = .ack) : Served S a (.receive wire now) (.ok (.received ⟨[], [], []⟩)) []
  | release {wire : Bytes} {now : τ} {f : Frame} (hdecode : S.codec.decode wire = .ok f)
      (hkind : f.kind = .ack) :
      Served S a (.receive wire now) (.ok (.received ⟨[], [], []⟩)) [.released (f.stream, f.message, f.index)]
  | confirm {wire : Bytes} {now : τ} {f : Frame} {done : Option (Option Bytes)}
      {messages : List (Nat × Bytes)} {events : List (Nat × Text × Json)}
      (hdecode : S.codec.decode wire = .ok f) (hkind : f.kind ≠ .ack)
      (hdone : Completes f done messages events) :
      Served S a (.receive wire now) (.ok (.received ⟨[S.codec.sealed (ackFrame f)], messages, events⟩))
        [.quiet, .confirmed f done]
  | retransmit {now : τ} {wires : List Bytes} {frames : List Frame}
      (hwires : ∀ w ∈ wires, ∃ key p, a.pending.find? key = some p ∧ p.wire = w) :
      Served S a (.retransmit now) (.ok (.frames (wires ++ frames.map S.codec.sealed)))
        (.expired (a.overdue S now) :: .quiet :: frames.map .emitted)
  | exhaust {now : τ} {key : ChunkKey} :
      Served S a (.retransmit now) (.error (retryLimit key)) [.expired (a.overdue S now), .quiet]
  | close : Served S a .close (.ok .none) [.quiet]

section

variable {S : Setup τ} {a : ReliableAdapter τ} {f : Frame} {e : PyError}

/-! ## Outbound -/

theorem length_chunkFrame (stream : Nat) (it : Item) : (chunkFrame S stream it).payload.length ≤ S.codec.payload :=
  length_chunk_le _ _ _

theorem Sending.chunk_admits (h : Sending S a) {stream : Nat} {it : Item}
    (hit : it ∈ a.queues stream) : S.codec.Admits (chunkFrame S stream it) := by
  obtain ⟨hstr, hidx, hcnt, hout⟩ := h.queued stream it hit
  obtain ⟨hlt, hnx⟩ := h.numbered _ hout
  refine ⟨?_, lt_trans hlt hnx, length_chunkFrame stream it, ?_, hcnt, hidx⟩
  · rw [S.codec_streams]
    exact hstr
  · exact Nat.lt_of_le_of_lt (Nat.zero_le _) hidx

/-- The chunk that goes out is the front one of the next stream. -/
theorem transmit_eq (now : τ) (h : Accounted S a) (hact : a.activeStreams ≠ []) :
    ∃ stream rest item it, a.activeStreams = stream :: rest ∧ a.queues stream = item :: it ∧
      S.codec.Admits (chunkFrame S stream item) ∧ transmit S a now
        = (.ok (S.codec.sealed (chunkFrame S stream item)), a.transmitted S now stream rest item it) := by
  obtain ⟨stream, rest, hcons⟩ := exists_cons_of_ne_nil hact
  have hne : a.queues stream ≠ [] := (h.sending.active.mem stream).mp (hcons ▸ mem_cons_self)
  obtain ⟨item, it, hqu⟩ := exists_cons_of_ne_nil hne
  have hadm := h.sending.chunk_admits (hqu ▸ mem_cons_self)
  refine ⟨stream, rest, item, it, hcons, hqu, hadm, ?_⟩
  unfold transmit
  simp only [hcons, hqu, Codec.encode_of_admits hadm]

/-- One round of the loop is a step that emits, and leaves what is in flight. -/
theorem transmit_step (now : τ) (h : Accounted S a) (hopen : a.closed = false)
    (hwin : a.pending.size < S.window) (hact : a.activeStreams ≠ []) :
    ∃ f b, transmit S a now = (.ok (S.codec.sealed f), b) ∧ Step S a (.emitted f) b ∧
      b.closed = false ∧ ∀ key ∈ a.pending, b.pending.find? key = a.pending.find? key := by
  obtain ⟨stream, rest, item, items, hcons, hqu, hadm, heq⟩ := transmit_eq now h hact
  refine ⟨_, _, heq, .transmit hopen hwin hcons hqu hadm, hopen, fun key hkey => ?_⟩
  refine find?_set_of_ne _ _ fun hsm => ?_
  rw [hsm] at hkey
  exact lt_irrefl _ (h.sending.ahead stream item (hqu ▸ mem_cons_self) item.index hkey)

/-- The loop sends chunks, and leaves what is in flight. -/
theorem outboundLoop_steps (now : τ) (k : Nat) (h : Accounted S a) (hopen : a.closed = false) :
    ∃ (frames : List Frame) (b : ReliableAdapter τ), outboundLoop S now k a = (.ok (frames.map S.codec.sealed), b) ∧
      Steps S a (frames.map .emitted) b ∧ ∀ key ∈ a.pending, b.pending.find? key = a.pending.find? key := by
  induction k generalizing a with
  | zero => exact ⟨[], a, rfl, .refl, fun _ _ => rfl⟩
  | succ k ih =>
    by_cases hgo : a.pending.size < S.window ∧ a.activeStreams ≠ []
    · obtain ⟨f, b, hrnd, hstep, hopen', hkp⟩ := transmit_step now h hopen hgo.1 hgo.2
      obtain ⟨frames, c, hloop, hsts, hkp'⟩ := ih (h.step hstep) hopen'
      refine ⟨f :: frames, c, ?_, .head hstep hsts, fun key hkey => ?_⟩
      · simp only [outboundLoop, if_pos hgo, hrnd, hloop]
        rfl
      · have hfind := hkp key hkey
        rw [hkp' key (mem_iff_find?.mpr (hfind ▸ mem_iff_find?.mp hkey)), hfind]
    refine ⟨[], a, ?_, .refl, fun _ _ => rfl⟩
    rw [outboundLoop, if_neg hgo]
    rfl

theorem outbound_steps (now : τ) (h : Accounted S a) (hopen : a.closed = false) :
    ∃ (frames : List Frame) (b : ReliableAdapter τ), a.outbound S now = (.ok (frames.map S.codec.sealed), b) ∧
      Steps S a (frames.map .emitted) b ∧ ∀ key ∈ a.pending, b.pending.find? key = a.pending.find? key := by
  rw [outbound, if_neg (ne_true_of_eq_false hopen)]
  exact outboundLoop_steps now _ h hopen

/-! ## Sending -/

theorem Deliberate.of_kind {k : PyErrorKind} (h : e.kind = k) (hkey : k ≠ .keyError) (hidx : k ≠ .indexError) :
    Deliberate e :=
  ⟨h ▸ hkey, h ▸ hidx⟩

theorem Deliberate.value (h : e.kind = .valueError) : Deliberate e :=
  .of_kind h (by decide) (by decide)

theorem Deliberate.closed : Deliberate adapterClosed := .of_kind rfl (by decide) (by decide)

theorem Deliberate.backpressure (t : String) : Deliberate ⟨.adapterBackpressure, t⟩ := by
  constructor <;> simp

theorem Deliberate.overflow (t : String) : Deliberate ⟨.overflowError, t⟩ := by
  constructor <;> simp

theorem Deliberate.permission (t : String) : Deliberate ⟨.permissionError, t⟩ := by
  constructor <;> simp

/-- `send` refuses and changes nothing, or queues the message. -/
theorem send_cases (stream : Int) (dt : Bytes) (now : τ) :
    (∃ e, Deliberate e ∧ a.send S stream dt now = (.error e, a)) ∨ (0 ≤ stream ∧ a.closed = false ∧
      Step S a (.accepted stream.toNat (a.nextMessage stream.toNat) dt) (a.enqueue S stream.toNat dt) ∧
      a.send S stream dt now = (a.enqueue S stream.toNat dt).outbound S now) := by
  unfold send
  split_ifs with hcl hstr hdt hcnt hroom hnx
  · exact .inl ⟨_, .closed, rfl⟩
  · exact .inl ⟨_, .value rfl, rfl⟩
  · exact .inl ⟨_, .value rfl, rfl⟩
  · exact .inl ⟨_, .backpressure _, rfl⟩
  · exact .inl ⟨_, .overflow _, rfl⟩
  · have hopen : a.closed = false := by simpa using hcl
    rw [not_or] at hdt hroom
    refine .inr ⟨hstr.1, hopen, ?_, rfl⟩
    exact .accept hopen (by omega) hdt.1 (Nat.le_of_not_lt hcnt) (not_lt.mp hroom.1) (by omega)
  · exact .inl ⟨_, .value rfl, rfl⟩

/-- A queued message is followed by what the window allows. -/
theorem send_steps (h : Accounted S a) (stream : Int) (dt : Bytes) (now : τ) :
    (∃ e, Deliberate e ∧ a.send S stream dt now = (.error e, a)) ∨
    (0 ≤ stream ∧ ∃ (frames : List Frame) (b : ReliableAdapter τ),
      a.send S stream dt now = (.ok (frames.map S.codec.sealed), b) ∧
      Steps S a (.accepted stream.toNat (a.nextMessage stream.toNat) dt :: frames.map .emitted) b) := by
  refine (send_cases stream dt now).imp_right ?_
  rintro ⟨hstr, hopen, hstep, heq⟩
  obtain ⟨frames, b, hok, hsts, -⟩ := outbound_steps now (h.step hstep) hopen
  exact ⟨hstr, frames, b, heq.trans hok, .head hstep hsts⟩

/-- A flow-controlled send is a plain send behind one more check. -/
theorem sendFlowControlled_eq (stream : Int) (dt : Bytes) (now : τ) :
    (∃ e, Deliberate e ∧ a.sendFlowControlled S stream dt now = (.error e, a)) ∨
    (chunkCount dt.length S.codec.payload ≤ a.applicationCredit S ∧
      a.sendFlowControlled S stream dt now = a.send S stream dt now) := by
  unfold sendFlowControlled
  split_ifs with _ _ _ _ hcred
  · exact .inl ⟨_, .closed, rfl⟩
  · exact .inl ⟨_, .value rfl, rfl⟩
  · exact .inl ⟨_, .value rfl, rfl⟩
  · exact .inl ⟨_, .backpressure _, rfl⟩
  · exact .inr ⟨not_lt.mp hcred, rfl⟩
  · exact .inl ⟨_, .value rfl, rfl⟩

/-! ## Extensions -/

theorem extension_served (stream : Int) (nm : Text) (val : Json) :
    ∃ notes, Served S a (.extension stream nm val) (S.apply a (.extension stream nm val)).1 notes ∧
      Steps S a notes (S.apply a (.extension stream nm val)).2 := by
  simp only [Setup.apply, extension]
  split
  · exact ⟨[], .refuse .closed, .refl⟩
  rename_i hcl
  have hopen : a.closed = false := by simpa using hcl
  split
  · exact ⟨[], .refuse (.value rfl), .refl⟩
  split
  · exact ⟨[], .refuse (.permission _), .refl⟩
  split
  · rename_i e he
    exact ⟨[], .refuse (.value (Portable.Python.portable_error he)), .refl⟩
  split
  · exact ⟨[], .refuse (.overflow _), .refl⟩
  rename_i hnx
  have hnx' : a.nextMessage stream.toNat < 2 ^ 64 - 1 := Nat.lt_of_not_le hnx
  split
  · rename_i e he
    exact ⟨[.quiet], .refuseExtension (.value (Codec.encode_error he)), .single (.reserve hopen (by omega) hnx')⟩
  rename_i wire hw
  obtain ⟨hadm, rfl⟩ := Codec.encode_eq_ok hw
  exact ⟨[.emitted _], .extension rfl, .single (.extend hopen hnx' hadm)⟩

/-! ## Receiving -/

section

variable (h : Accounted S a)
include h

/-- An acknowledgement is stale, or releases the chunk it names. -/
theorem receiveAck_steps (f : Frame) (now : τ) (hopen : a.closed = false) :
    a.receiveAck S f now = (.ok ⟨[], [], []⟩, a) ∨
    ∃ b, a.receiveAck S f now = (.ok ⟨[], [], []⟩, b) ∧ Step S a (.released (f.stream, f.message, f.index)) b := by
  unfold receiveAck
  cases hp : a.pending.find? (f.stream, f.message, f.index) with
  | none => exact .inl rfl
  | some p =>
    obtain ⟨o, ho⟩ := mem_iff_find?.mp (h.sending.pending_outgoing _ (mem_of_find? hp))
    simp only [ho]
    exact .inr ⟨_, rfl, .acknowledge hopen hp ho⟩

omit h in
theorem receiveExtension_steps (ack : Bytes) (hopen : a.closed = false) (hkd : f.kind = .extension) :
    (∃ e, Deliberate e ∧ a.receiveExtension S f ack = (.error e, a)) ∨
    ∃ done m evs b, Completes f done m evs ∧
      a.receiveExtension S f ack = (.ok ⟨[ack], m, evs⟩, b) ∧ Step S a (.confirmed f done) b := by
  unfold receiveExtension
  split
  · rename_i hdone
    refine .inr ⟨none, [], [], a, .nothing, rfl, .again ?_ hdone⟩
    rw [hkd]
    decide
  rename_i hfsh
  split
  · rename_i he
    have hkd := Portable.Python.readExtension_error he
    refine .inl ⟨_, ⟨fun h => ?_, fun h => ?_⟩, rfl⟩ <;> simp [h] at hkd
  · exact .inr ⟨some none, _, _, _, .event _ _, rfl, .event hopen hkd hfsh⟩

/-- A stored part leaves `settle` nothing to do. -/
theorem settle_duplicate {ack : Bytes} (hfd : a.incoming.find? (f.stream, f.message) = some r)
    (hcnt : r.count = f.count) : a.settle S f ack r = (.ok ⟨[ack], [], []⟩, a) := by
  have hsm : a.stored (f.stream, f.message) r = a := by
    unfold stored
    rw [set_of_find? hfd]
  have hsz := (h.reassembling.state _ r hfd).2.1
  rw [hcnt] at hsz
  unfold settle
  rw [if_neg (ne_of_lt hsz), hsm]

/-- A new part is stored, and the last one completes the message. -/
theorem settle_absorb (ack : Bytes) {now : τ} (hopen : a.closed = false) (hf : Absorbable S now f a) :
    ∃ done m b, Completes f done m [] ∧
      { a with incomingBytes := a.incomingBytes + f.payload.length }.settle S f ack
        ((a.reassemblyFor S now f).add f.index f.payload) = (.ok ⟨[ack], m, []⟩, b) ∧
      Step S a (.confirmed f done) b := by
  obtain ⟨hby, -, hind⟩ := h.reassembling.added hf
  have hcnt : ((a.reassemblyFor S now f).add f.index f.payload).count = f.count := hf.count
  unfold settle
  split
  · rename_i hfull
    rw [← hcnt] at hfull hind
    obtain ⟨data, hjoin, hlen⟩ := Reassembly.join_full hfull hind hby
    have hsml : ¬ S.limits.maxMessage < data.length := by
      rw [hlen]
      exact not_lt.mpr hf.message
    simp only [hjoin, if_neg hsml]
    exact ⟨some (some data), _, _, .message data, rfl, .deliver hopen hf (hcnt ▸ hfull) hjoin⟩
  · rename_i hopn
    exact ⟨none, [], _, .nothing, rfl, .absorb hopen hf hopn⟩

/-- A `DATA` frame is refused, is a repetition, is stored, or completes its message. -/
theorem receiveData_steps (ack : Bytes) (now : τ) (hopen : a.closed = false) (hkd : f.kind = .data)
    (hidx : f.index < f.count) : (∃ e, Deliberate e ∧ a.receiveData S f ack now = (.error e, a)) ∨
    ∃ done m b, Completes f done m [] ∧
      a.receiveData S f ack now = (.ok ⟨[ack], m, []⟩, b) ∧ Step S a (.confirmed f done) b := by
  have hr : (a.incoming.find? (f.stream, f.message)).getD
      ⟨f.count, .empty, 0, S.timing.reassemblyDeadline now S.limits.reassemblySeconds⟩
        = a.reassemblyFor S now f := rfl
  unfold receiveData
  simp only [hr]
  split
  · rename_i hdone
    refine .inr ⟨none, [], a, .nothing, rfl, .again ?_ hdone⟩
    rw [hkd]
    decide
  rename_i hfsh
  split
  · exact .inl ⟨_, .value rfl, rfl⟩
  rename_i hpay
  split
  · exact .inl ⟨_, .backpressure _, rfl⟩
  rename_i hroom
  split
  · exact .inl ⟨_, .value rfl, rfl⟩
  rename_i hcnt
  rw [not_not] at hcnt
  split
  · rename_i hpart
    -- a part can only be found in a stored state
    cases hfd : a.incoming.find? (f.stream, f.message) with
    | none => simp [reassemblyFor, hfd] at hpart
    | some r =>
      have hrr : a.reassemblyFor S now f = r := by simp [reassemblyFor, hfd]
      rw [hrr] at hpart hcnt ⊢
      rw [settle_duplicate h hfd hcnt]
      exact .inr ⟨none, [], a, .nothing, rfl, .duplicate hkd hfd hpart⟩
  rename_i habs
  split
  · exact .inl ⟨_, .backpressure _, rfl⟩
  rename_i hinf
  split
  · exact .inl ⟨_, .value rfl, rfl⟩
  rename_i hmsg
  right
  refine settle_absorb h _ hopen ⟨hkd, hfsh, hpay, ?_, hcnt, hidx, ?_, ?_, ?_⟩
  · intro hnone
    rw [hnone] at hroom
    simpa using hroom
  · simpa using habs
  · exact not_lt.mp hinf
  · exact Nat.le_of_not_lt hmsg

/-- A frame that is refused leaves no more than the note of its acknowledgement. -/
theorem receive_served (wire : Bytes) (now : τ) :
    ∃ notes x b, a.receive S wire now = (x, b) ∧ Served S a (.receive wire now) (x.map .received) notes ∧
      Steps S a notes b ∧ ∀ e, x = .error e → { b with encoded := a.encoded } = a := by
  unfold receive
  split
  · exact ⟨[], _, _, rfl, .refuse .closed, .refl, fun _ _ => rfl⟩
  rename_i hcl
  have hopen : a.closed = false := by simpa using hcl
  split
  · rename_i e he
    exact ⟨[], _, _, rfl, .refuse (.value (Codec.decode_error he)), .refl, fun _ _ => rfl⟩
  rename_i f hdec
  split
  · rename_i hkd
    rcases receiveAck_steps h f now hopen with heq | ⟨b, heq, hstep⟩ <;> rw [heq]
    · exact ⟨[], _, _, rfl, .stale hdec hkd, .refl, nofun⟩
    · exact ⟨_, _, _, rfl, .release hdec hkd, .single hstep, nofun⟩
  rename_i hkd
  have hadm : S.codec.Admits (ackFrame f) := Codec.ack_admits hdec
  have hnote : Step S a .quiet (a.note (ackFrame f)) := .noteAck hadm
  rw [Codec.encode_of_admits hadm]
  dsimp only
  split
  · rename_i hext
    rcases receiveExtension_steps (S := S) (a := a.note (ackFrame f)) (S.codec.sealed (ackFrame f)) hopen hext with
      ⟨e, he, heq⟩ | ⟨done, m, events, b, hdone, heq, hstep⟩ <;> rw [heq]
    · exact ⟨_, _, _, rfl, .refuseFrame he, .single hnote, fun _ _ => rfl⟩
    · exact ⟨_, _, _, rfl, .confirm hdec hkd hdone, .head hnote (.single hstep), nofun⟩
  rename_i hext
  have hdt : f.kind = .data := by
    cases hk : f.kind with
    | data => rfl
    | ack => exact absurd hk hkd
    | extension => exact absurd hk hext
  have hidx := (Codec.decode_bounds hdec).2.2.2.2.1
  rcases receiveData_steps (h.step hnote) (S.codec.sealed (ackFrame f)) now hopen
      hdt hidx with ⟨e, he, heq⟩ | ⟨done, m, b, hdone, heq, hstep⟩ <;> rw [heq]
  · exact ⟨_, _, _, rfl, .refuseFrame he, .single hnote, fun _ _ => rfl⟩
  · exact ⟨_, _, _, rfl, .confirm hdec hkd hdone, .head hnote (.single hstep), nofun⟩

/-! ## Retransmitting -/

omit h in
/-- The loop resends records that are in flight, and returns each one it has charged. -/
theorem resendLoop_ok {T : Timing τ} {now rto : τ} {l : List (ChunkKey × Pending τ)} {wires : List Bytes}
    (h : (resendLoop T now rto l).2 = .ok wires) : (∀ w ∈ wires, ∃ e ∈ l, e.2.wire = w) ∧
      ∀ e' ∈ (resendLoop T now rto l).1, e' ∈ l ∨ ∃ e ∈ l, e.1 = e'.1 ∧ e.2.wire ∈ wires := by
  induction l generalizing wires with
  | nil =>
    cases h
    exact ⟨nofun, nofun⟩
  | cons e es ih =>
    simp only [resendLoop] at h ⊢
    split_ifs at h ⊢ with hbef hlim
    · obtain ⟨hws, hchar⟩ := ih h
      refine ⟨fun w hw => ?_, forall_mem_cons.mpr ⟨.inl mem_cons_self, fun e' he' => ?_⟩⟩
      · obtain ⟨x, hx, hwire⟩ := hws w hw
        exact ⟨x, mem_cons_of_mem e hx, hwire⟩
      · rcases hchar e' he' with hsm | ⟨x, hx, hchr⟩
        · exact .inl (mem_cons_of_mem e hsm)
        · exact .inr ⟨x, mem_cons_of_mem e hx, hchr⟩
    cases hrs : (resendLoop T now rto es).2 with
    | error key =>
      rw [hrs] at h
      cases h
    | ok rest =>
      rw [hrs] at h
      cases h
      obtain ⟨hws, hchar⟩ := ih hrs
      refine ⟨forall_mem_cons.mpr ⟨⟨e, mem_cons_self, rfl⟩, fun w hw => ?_⟩,
        forall_mem_cons.mpr ⟨.inr ⟨e, mem_cons_self, rfl, mem_cons_self⟩, fun e' he' => ?_⟩⟩
      · obtain ⟨x, hx, hwire⟩ := hws w hw
        exact ⟨x, mem_cons_of_mem e hx, hwire⟩
      · rcases hchar e' he' with hsm | ⟨x, hx, hkey, hmem⟩
        · exact .inl (mem_cons_of_mem e hsm)
        · exact .inr ⟨x, mem_cons_of_mem e hx, hkey, mem_cons_of_mem _ hmem⟩

omit h in
/-- A retransmission that finds a frame out of attempts. -/
theorem retransmit_exhausted (hopen : a.closed = false) {now : τ} {key : ChunkKey}
    (h : (resendLoop S.timing now a.estimator.rto a.pending.entries).2 = .error key) :
    a.retransmit S now = (.error (retryLimit key), (a.expire S now).resent S now) := by
  have h' : (resendLoop S.timing now (a.expire S now).estimator.rto
      (a.expire S now).pending.entries).2 = .error key := h
  simp [retransmit, hopen, h']

omit h in
/-- A retransmission that does not: the frames it resends go before those that now have room. -/
theorem retransmit_resent (hopen : a.closed = false) {now : τ} {frames : List Bytes}
    (h : (resendLoop S.timing now a.estimator.rto a.pending.entries).2 = .ok frames) :
    a.retransmit S now = (((a.expire S now).resent S now).outbound S now).map (Except.map (frames ++ ·)) id := by
  have h' : (resendLoop S.timing now (a.expire S now).estimator.rto
      (a.expire S now).pending.entries).2 = .ok frames := h
  simp only [retransmit, hopen, h']
  rcases ((a.expire S now).resent S now).outbound S now with ⟨_ | _, _⟩ <;> rfl

theorem Accounted.resent (hopen : a.closed = false) (now : τ) : Accounted S ((a.expire S now).resent S now) := by
  have hexp : Step S a (.expired (a.overdue S now)) (a.expire S now) := .expire hopen
  have hres : Step S (a.expire S now) .quiet ((a.expire S now).resent S now) := .resend hopen
  exact (h.step hexp).step hres

theorem retransmit_served (now : τ) : ∃ notes, Served S a (.retransmit now) (S.apply a (.retransmit now)).1 notes ∧
      Steps S a notes (S.apply a (.retransmit now)).2 := by
  simp only [Setup.apply, retransmit]
  split
  · exact ⟨[], .refuse .closed, .refl⟩
  rename_i hcl
  have hopen : a.closed = false := by simpa using hcl
  have hexp : Step S a (.expired (a.overdue S now)) (a.expire S now) := .expire hopen
  have hres : Step S (a.expire S now) .quiet ((a.expire S now).resent S now) := .resend hopen
  split
  · exact ⟨_, .exhaust, .head hexp (.single hres)⟩
  rename_i wires hloop
  obtain ⟨frames, b, hok, hsts, -⟩ := outbound_steps now (h.resent hopen now) hopen
  have hws : ∀ w ∈ wires, ∃ key p, a.pending.find? key = some p ∧ p.wire = w := by
    intro w hw
    obtain ⟨e, he, hwire⟩ := (resendLoop_ok hloop).1 w hw
    exact ⟨e.1, e.2, find?_eq_some_iff.mpr he, hwire⟩
  rw [hok]
  exact ⟨_, .retransmit hws, .head hexp (.head hres hsts)⟩

/-! ## Every operation -/

/-- **Every operation is a sequence of steps** when the books are balanced. -/
theorem apply_served (op : Op τ) :
    ∃ notes, Served S a op (S.apply a op).1 notes ∧ Steps S a notes (S.apply a op).2 := by
  cases op with
  | send stream data now =>
    simp only [Setup.apply, Prod.map]
    rcases send_steps h stream data now with ⟨e, he, heq⟩ | ⟨hstr, frames, b, heq, hsts⟩ <;> rw [heq]
    · exact ⟨[], .refuse he, .refl⟩
    · exact ⟨_, .send hstr, hsts⟩
  | sendFlowControlled stream data now =>
    simp only [Setup.apply, Prod.map]
    rcases sendFlowControlled_eq (S := S) (a := a) stream data now with ⟨e, he, heq⟩ | ⟨-, hflow⟩
    · rw [heq]
      exact ⟨[], .refuse he, .refl⟩
    rw [hflow]
    rcases send_steps h stream data now with ⟨e, he, heq⟩ | ⟨hstr, frames, b, heq, hsts⟩ <;> rw [heq]
    · exact ⟨[], .refuse he, .refl⟩
    · exact ⟨_, .sendFlowControlled hstr, hsts⟩
  | extension stream nm value => exact extension_served stream nm value
  | outbound now =>
    simp only [Setup.apply, Prod.map]
    cases hcl : a.closed with
    | true =>
      rw [outbound, if_pos hcl]
      exact ⟨[], .refuse .closed, .refl⟩
    | false =>
      obtain ⟨frames, b, heq, hsts, -⟩ := outbound_steps now h hcl
      rw [heq]
      exact ⟨_, .outbound, hsts⟩
  | receive wire now =>
    obtain ⟨notes, x, b, heq, hserv, hsts, -⟩ := receive_served h wire now
    rw [Setup.apply, heq]
    exact ⟨notes, hserv, hsts⟩
  | retransmit now => exact retransmit_served h now
  | close => exact ⟨_, .close, .single .close⟩

theorem Accounted.apply (op : Op τ) : Accounted S (S.apply a op).2 := by
  obtain ⟨notes, -, hsts⟩ := apply_served h op
  exact hsts.invariant Accounted.step h

theorem Accounted.run (ops : List (Op τ)) : Accounted S (S.run a ops) := by
  induction ops generalizing a with
  | nil => exact h
  | cons op ops ih => exact ih (h.apply op)

omit h in
/-- A property that every step preserves holds along every run from the initial state. -/
theorem run_invariant {I : ReliableAdapter τ → Prop} (hinit : I S.init)
    (hstep : ∀ {a n b}, Accounted S a → I a → Step S a n b → I b) (ops : List (Op τ)) : I (S.run S.init ops) := by
  have hboth : ∀ {a : ReliableAdapter τ} (ops : List (Op τ)), Accounted S a → I a → I (S.run a ops) := by
    intro a ops
    induction ops generalizing a with
    | nil => exact fun _ hi => hi
    | cons op ops ih =>
      intro ha hi
      obtain ⟨notes, -, hsts⟩ := apply_served ha op
      have hnx := hsts.invariant (I := fun b => Accounted S b ∧ I b)
        (fun hb hs => ⟨hb.1.step hs, hstep hb.1 hb.2 hs⟩) ⟨ha, hi⟩
      exact ih hnx.1 hnx.2
  exact hboth ops .init hinit

/-! ## The balance of every reachable state -/

/-- The accounting invariant, as a reader of the source states it. -/
structure Balanced (S : Setup τ) (a : ReliableAdapter τ) : Prop where
  buffered : a.buffered = (a.outgoing.sumOf fun _ o => o.bytes) ∧ a.buffered ≤ S.limits.maxInflight
  remaining : ∀ id o, a.outgoing.find? id = some o →
    0 < o.remaining ∧ o.remaining = a.pendingOf id + a.unsentOf id
  window : a.pending.size ≤ S.window
  incoming : a.incomingBytes = (a.incoming.sumOf fun _ r => r.parts.sumOf fun _ p => p.length) ∧
    a.incomingBytes ≤ S.limits.maxInflight
  active : Scheduled a.activeStreams a.queues

theorem Accounted.balanced : Balanced S a where
  buffered := ⟨h.sending.buffered, h.sending.buffered_le⟩
  remaining := h.sending.remaining
  window := h.sending.window
  incoming := by
    refine ⟨?_, h.reassembling.bytes_le⟩
    rw [h.reassembling.bytes]
    apply sumOf_congr
    intro id r hr
    exact (h.reassembling.state id r (find?_eq_some_iff.mpr hr)).1
  active := h.sending.active

theorem apply_deliberate {op : Op τ} (he : (S.apply a op).1 = .error e) : Deliberate e := by
  obtain ⟨notes, hserv, -⟩ := apply_served h op
  rw [he] at hserv
  cases hserv with
  | refuse hd | refuseFrame hd | refuseExtension hd => exact hd
  | exhaust => exact ⟨by simp [retryLimit], by simp [retryLimit]⟩

end

/-- **The accounts of an adapter balance in every reachable state**, whatever calls were made and
    whichever of them raised; and no call fails on a container lookup. -/
theorem run_balanced (S : Setup τ) (ops : List (Op τ)) : Balanced S (S.run S.init ops) ∧
      (∀ key ∈ (S.run S.init ops).pending, (key.1, key.2.1) ∈ (S.run S.init ops).outgoing) ∧
      (∀ stream ∈ (S.run S.init ops).activeStreams, (S.run S.init ops).queues stream ≠ []) ∧
      ∀ op e, (S.apply (S.run S.init ops) op).1 = .error e → e.kind ≠ .keyError ∧ e.kind ≠ .indexError := by
  have h : Accounted S (S.run S.init ops) := Accounted.init.run ops
  exact ⟨h.balanced, h.sending.pending_outgoing, fun stream hs => (h.sending.active.mem stream).mp hs,
    fun _ _ he => apply_deliberate h he⟩

/-- **A call that raises leaves the adapter as it was**: `send`, `send_flow_controlled` and `receive` in every reachable
    state. (`encoded` is no field of the source.) -/
theorem run_refused_unchanged (S : Setup τ) (ops : List (Op τ)) (stream : Int) (data wire : Bytes) (now : τ)
    (e : PyError) : (((S.run S.init ops).send S stream data now).1 = .error e →
      ((S.run S.init ops).send S stream data now).2 = S.run S.init ops) ∧
    (((S.run S.init ops).sendFlowControlled S stream data now).1 = .error e →
      ((S.run S.init ops).sendFlowControlled S stream data now).2 = S.run S.init ops) ∧
    (((S.run S.init ops).receive S wire now).1 = .error e →
      { ((S.run S.init ops).receive S wire now).2 with encoded := (S.run S.init ops).encoded } = S.run S.init ops) := by
  have h : Accounted S (S.run S.init ops) := Accounted.init.run ops
  generalize S.run S.init ops = a at h ⊢
  have hsend : (a.send S stream data now).1 = .error e → (a.send S stream data now).2 = a := by
    rcases send_steps h stream data now with ⟨e', -, heq⟩ | ⟨-, frames, b, heq, -⟩ <;> rw [heq]
    · exact fun _ => rfl
    · exact nofun
  refine ⟨hsend, ?_, ?_⟩
  · rcases sendFlowControlled_eq (S := S) (a := a) stream data now with ⟨e', -, heq⟩ | ⟨-, heq⟩ <;> rw [heq]
    · exact fun _ => rfl
    · exact hsend
  · obtain ⟨notes, x, b, heq, -, -, hkept⟩ := receive_served h wire now
    rw [heq]
    exact hkept e

end

end Shadow6.NetworkAdapter
