import Shadow6.CoreAda.Cells
import Shadow6.Library.Aead
import Shadow6.Library.Lockstep

/-!
# `CoreAda.Relay` — the two directions of a relay

The writer and the reader of `Relay.Run` in `Core-Ada/src/relay.adb`, with `s6_seal` and `s6_open` of
`Core-Ada/src/platform.c`. The writer takes what it reads from the local side, in pieces of at most 16384 bytes, cuts
each piece into cells and seals them under consecutive sequence numbers, from 1; an empty read is the end. The reader
collects bytes from the remote side, opens one cell after the other under the number it expects, and writes complete
messages to the local side.

A cell opens under one number only, since the number is in front of the ciphertext. So as long as nobody else can make
a cell that opens, the receiver is in lockstep with the writer: it takes the writer's cells in the writer's order, and
any other cell poisons it (`lockstep_writer`). A stream that is cut short poisons nothing; there `Run` raises when it
reads the end of the stream.
-/

namespace Shadow6.CoreAda

open Library List Receiver

/-! ## Sealing -/

/-- Cell numbers go in front of the ciphertext. -/
def wireHeader (seq : Nat) : Bytes := toBE 8 seq

/-- `s6_seal(key, seq, plain, wire)`. -/
def sealCell (A : Aead) (key : Bytes) (seq : Nat) (plain : Bytes) : Option Bytes :=
  if serialLast ≤ seq then none
  else some (wireHeader seq ++ A.encrypt key (replicate 4 0 ++ wireHeader seq) (wireHeader seq) plain)

/-- `s6_open(key, expected, wire, plain)`. -/
def openCell (A : Aead) (key : Bytes) (expected : Nat) (wire : Bytes) : Option Bytes :=
  if serialLast ≤ expected ∨ wire.take 4 ≠ replicate 4 0 ∨ ofBE ((wire.drop 4).take 4) ≠ expected then none
  else (A.decrypt key (replicate 4 0 ++ wire.take 8) (wire.take 8) (wire.drop 8)).filter fun plain =>
    decide (plain.length = 488)

/-! ## The writer -/

/-- `Noise`: 488 random bytes for each cell. -/
abbrev Noise := Nat → { noise : Bytes // noise.length = 488 }

/-- The cell for one part of a read; an empty read is the end. -/
def plainCell (data : Bytes) (id part : Nat) (noise : Bytes) : Bytes :=
  if data = [] then finish noise else encode data id part noise

variable (A : Aead) (key : Bytes) (noise : Noise)

/-- The inner loop of the writer: the next `count` parts of a read, from `part` on. -/
def sealParts (data : Bytes) (id seq part : Nat) : (count : Nat) → Option (List Bytes)
  | 0 => some []
  | count + 1 =>
    match sealCell A key seq (plainCell data id part (noise seq).1) with
    | none => none
    | some wire => (sealParts data id (seq + 1) (part + 1) count).map (wire :: ·)

/-- A piece that was read, with its cells. -/
structure Batch where
  data : Bytes
  wires : List Bytes

/-- How the writer stands. -/
inductive WriterEnd where
  | waiting
  | finished
  | raised
deriving DecidableEq, Repr

/-- What `Native.Read (Local, …)` returns: at most `Max_Message` bytes. -/
abbrev Read := { data : Bytes // data.length ≤ 16384 }

/-- The writer on a list of reads: what it has written. It raises when the numbers are used up. -/
def writer (seq id : Nat) : List Read → List Batch × WriterEnd
  | [] => ([], .waiting)
  | ⟨data, _⟩ :: reads =>
    if serialLast ≤ id then ([], .raised)
    else
      match sealParts A key noise data id seq 0 (partsFor data.length) with
      | none => ([], .raised)
      | some wires =>
        if data = [] then ([⟨data, wires⟩], .finished)
        else
          let rest := writer (seq + partsFor data.length) (id + 1) reads
          (⟨data, wires⟩ :: rest.1, rest.2)

/-- All the cells, in the order in which they are written. -/
def cells (batches : List Batch) : List Bytes := batches.flatMap Batch.wires

/-- The messages of which all cells are among the first `n`. -/
def complete : List Batch → Nat → Bytes
  | [], _ => []
  | b :: bs, n => if b.wires.length ≤ n then b.data ++ complete bs (n - b.wires.length) else []

/-! ## The reader -/

/-- One cell: `Open_Cell` under the expected number, then `Accept_Cell`. -/
def receive (s : Receiver) (wire : Bytes) : Receiver × Bytes :=
  match openCell A key s.sequence wire with
  | none => s.acceptCell (replicate 488 0) s.sequence false
  | some plain => s.acceptCell plain s.sequence true

/-- `State` at the start. -/
def Receiver.start : Receiver := ⟨.ready, 1, 1, 0, 0, []⟩

/-- How the reader stands. -/
inductive ReaderEnd where
  | running
  | closed
  | raised
deriving DecidableEq, Repr

/-- The reader: the receive state, the bytes that are not yet a cell, and what was written to the local side. -/
structure Reader where
  state : Receiver
  held : Bytes
  output : Bytes
  outcome : ReaderEnd

open Reader

def Reader.start : Reader := ⟨.start, [], [], .running⟩

/-- The inner loop: the complete cells in the buffer. -/
def Reader.drain (r : Reader) : (fuel : Nat) → Reader
  | 0 => r
  | fuel + 1 =>
    if r.held.length < 512 then r
    else
      let next := receive A key r.state (r.held.take 512)
      let held := r.held.drop 512
      if next.1.mode = .failed then ⟨next.1, held, r.output, .raised⟩
      -- no byte may follow the end
      else if next.1.mode = .closed then ⟨next.1, held, r.output ++ next.2, if held = [] then .closed else .raised⟩
      else drain ⟨next.1, held, r.output ++ next.2, .running⟩ fuel

/-- One read from the remote side; the end of the stream is an empty read, and raises. -/
def Reader.read (r : Reader) (chunk : Bytes) : Reader :=
  if r.outcome ≠ .running then r
  else if chunk = [] then { r with outcome := .raised }
  else drain A key { r with held := r.held ++ chunk } (r.held ++ chunk).length

def Reader.run (chunks : List Bytes) : Reader := chunks.foldl (read A key) .start

/-! ## Numbers on the wire -/

variable {A key noise}

theorem wireHeader_eq {seq : Nat} (h : seq < serialLast) : wireHeader seq = replicate 4 0 ++ toBE 4 seq := by
  unfold serialLast at h
  have hzero : seq / 256 ^ 4 = 0 := Nat.div_eq_of_lt (by omega)
  rw [wireHeader, show (8 : Nat) = 4 + 4 from rfl, toBE_add, hzero]
  rfl

variable {plain wr : Bytes} {wires : List Bytes}

theorem sealCell_eq_some {seq : Nat} (h : sealCell A key seq plain = some wr) : seq < serialLast ∧
      wr = wireHeader seq ++ A.encrypt key (replicate 4 0 ++ wireHeader seq) (wireHeader seq) plain := by
  unfold sealCell at h
  split_ifs at h with hlast
  cases h
  exact ⟨not_le.mp hlast, rfl⟩

theorem length_sealCell {seq : Nat} (h : sealCell A key seq plain = some wr) (hpl : plain.length = 488) :
    wr.length = 512 := by
  obtain ⟨-, rfl⟩ := sealCell_eq_some h
  rw [length_append, A.length_encrypt, wireHeader, length_toBE, hpl]

theorem number_sealCell {seq : Nat} (h : sealCell A key seq plain = some wr) : ofBE ((wr.drop 4).take 4) = seq := by
  obtain ⟨hseq, rfl⟩ := sealCell_eq_some h
  rw [wireHeader_eq hseq, append_assoc]
  have hdrop : ∀ re : Bytes, ((replicate 4 (0 : UInt8) ++ (toBE 4 seq ++ re)).drop 4).take 4 = toBE 4 seq := by
    intro re
    rw [drop_left' (by simp), take_left' (by simp)]
  rw [hdrop, ofBE_toBE_of_lt]
  unfold serialLast at hseq
  omega

theorem openCell_sealCell {seq : Nat} (h : sealCell A key seq plain = some wr) (hpl : plain.length = 488) :
    openCell A key seq wr = some plain := by
  have hnum := number_sealCell h
  obtain ⟨hseq, rfl⟩ := sealCell_eq_some h
  have hlen : (wireHeader seq).length = 8 := length_toBE 8 seq
  have hfour : ∀ re : Bytes, (wireHeader seq ++ re).take 4 = replicate 4 0 := by
    intro re
    rw [wireHeader_eq hseq, append_assoc, take_left' (by simp)]
  rw [openCell, if_neg, take_left' hlen, drop_left' hlen, A.decrypt_encrypt]
  · simp [hpl]
  · rintro (hlast | hzeros | hoth)
    · exact absurd hlast (not_le.mpr hseq)
    · exact hzeros (hfour _)
    · exact hoth hnum

theorem openCell_number {n : Nat} {wire plain : Bytes} (h : openCell A key n wire = some plain) :
    ofBE ((wire.drop 4).take 4) = n := by
  unfold openCell at h
  split_ifs at h with href
  push Not at href
  exact href.2.2

theorem length_plainCell (data : Bytes) (id part : Nat) (noise : { noise : Bytes // noise.length = 488 }) :
    (plainCell data id part noise.1).length = 488 := by
  unfold plainCell
  split_ifs
  · rw [finish, length_append, length_drop, noise.2]
    rfl
  have hle : (chunk payloadSize data part).length ≤ 476 := length_chunk_le payloadSize data part
  have hhdr : (cellHeader 0 (chunk payloadSize data part).length id part (partsFor data.length)).length = 12 := rfl
  rw [encode, length_append, length_append, length_drop, hhdr, noise.2]
  omega

/-- Every cell of a batch is sealed under the next number. -/
theorem sealParts_getElem {data : Bytes} {id seq part cnt : Nat}
    (h : sealParts A key noise data id seq part cnt = some wires) : wires.length = cnt ∧ ∀ k w, wires[k]? = some w →
      sealCell A key (seq + k) (plainCell data id (part + k) (noise (seq + k)).1) = some w := by
  induction cnt generalizing seq part wires with
  | zero =>
    cases h
    exact ⟨rfl, fun k w hk => by cases hk⟩
  | succ cnt ih =>
    rw [sealParts] at h
    split at h
    · cases h
    rename_i wr hwire
    obtain ⟨rest, hrs, rfl⟩ := Option.map_eq_some_iff.mp h
    obtain ⟨hlen, hcells⟩ := ih hrs
    refine ⟨by rw [length_cons, hlen], ?_⟩
    intro k w hk
    cases k with
    | zero =>
      cases hk
      exact hwire
    | succ k =>
      have hcell := hcells k w hk
      rwa [show seq + 1 + k = seq + (k + 1) by omega, show part + 1 + k = part + (k + 1) by omega] at hcell

/-- **What the writer does with a read**: it raises, or it writes the cells and stops at the end of the input or goes
    on. -/
theorem writer_cases (seq id : Nat) (data : Bytes) (hdt : data.length ≤ 16384) (reads : List Read) :
    writer A key noise seq id (⟨data, hdt⟩ :: reads) = ([], .raised) ∨
    ∃ wires, id < serialLast ∧ sealParts A key noise data id seq 0 (partsFor data.length) = some wires ∧
      ((data = [] ∧ writer A key noise seq id (⟨data, hdt⟩ :: reads) = ([⟨data, wires⟩], .finished)) ∨
        (data ≠ [] ∧ writer A key noise seq id (⟨data, hdt⟩ :: reads) =
          (⟨data, wires⟩ :: (writer A key noise (seq + partsFor data.length) (id + 1) reads).1,
            (writer A key noise (seq + partsFor data.length) (id + 1) reads).2))) := by
  rw [writer]
  by_cases hid : serialLast ≤ id
  · exact .inl (if_pos hid)
  rw [if_neg hid]
  cases hps : sealParts A key noise data id seq 0 (partsFor data.length) with
  | none => exact .inl rfl
  | some wires =>
    refine .inr ⟨wires, not_le.mp hid, rfl, ?_⟩
    by_cases hnil : data = []
    · exact .inl ⟨hnil, if_pos hnil⟩
    · exact .inr ⟨hnil, if_neg hnil⟩

variable {w : Bytes}

/-- Every cell that the writer writes is sealed under its place. -/
theorem writer_getElem {seq id : Nat} {reads : List Read} {k : Nat}
    (h : (cells (writer A key noise seq id reads).1)[k]? = some w) :
    ∃ plain, plain.length = 488 ∧ sealCell A key (seq + k) plain = some w := by
  induction reads generalizing seq id k with
  | nil => cases h
  | cons read reads ih =>
    obtain ⟨data, hdt⟩ := read
    rcases writer_cases seq id data hdt reads with
      hexc | ⟨wires, -, hwires, hlast | hmore⟩
    · rw [hexc] at h
      cases h
    all_goals
      obtain ⟨hlen, hcells⟩ := sealParts_getElem hwires
      have hhere : ∀ j, wires[j]? = some w → ∃ plain, plain.length = 488 ∧ sealCell A key (seq + j) plain = some w :=
        fun j hj => ⟨_, length_plainCell _ _ _ _, hcells j w hj⟩
    · rw [hlast.2, cells, flatMap_cons, flatMap_nil, append_nil] at h
      exact hhere k h
    · rw [hmore.2, cells, flatMap_cons, getElem?_append] at h
      split_ifs at h with hk
      · exact hhere k h
      obtain ⟨plain, hpl, hseal⟩ := ih h
      rw [hlen] at hseal hk
      rw [show seq + partsFor data.length + (k - partsFor data.length) = seq + k by omega] at hseal
      exact ⟨plain, hpl, hseal⟩

/-! ## Lockstep -/

/-- Nobody else can make a cell that opens: a cell that opens is one of the writer's. -/
def Genuine (A : Aead) (key : Bytes) (batches : List Batch) (w : Bytes) : Prop :=
  ∀ n plain, openCell A key n w = some plain → w ∈ cells batches

/-- Under the number `seq + k` only the `k`-th of these cells opens. -/
def Numbered (A : Aead) (key : Bytes) (allowed : Bytes → Prop) (seq : Nat) (wires : List Bytes) : Prop :=
  ∀ k v plain, allowed v → openCell A key (seq + k) v = some plain → wires[k]? = some v

/-- **Under each number one cell opens**, that of the writer. -/
theorem numbered_writer (seq id : Nat) (reads : List Read) :
    Numbered A key (Genuine A key (writer A key noise seq id reads).1) seq (cells (writer A key noise seq id reads).1) := by
  intro k v plain hgen ho
  obtain ⟨j, hj⟩ := mem_iff_getElem?.mp (hgen _ _ ho)
  obtain ⟨plain', -, hseal⟩ := writer_getElem hj
  have hnum := number_sealCell hseal
  rw [openCell_number ho] at hnum
  rwa [show k = j by omega]

variable {ws : List Bytes} {r : Reader}

section

variable {al : Bytes → Prop} {s : Receiver} {seq id : Nat}

theorem Numbered.tail (h : Numbered A key al seq (w :: ws)) : Numbered A key al (seq + 1) ws := by
  intro k v plain hv ho
  have := h (k + 1) v plain hv (by rwa [show seq + (k + 1) = seq + 1 + k by omega])
  simpa using this

theorem Numbered.drop {ws later : List Bytes} (h : Numbered A key al seq (ws ++ later)) :
    Numbered A key al (seq + ws.length) later := by
  induction ws generalizing seq with
  | nil => exact h
  | cons w ws ih =>
    rw [length_cons, show seq + (ws.length + 1) = seq + 1 + ws.length by omega]
    exact ih h.tail

theorem receive_refused (h : openCell A key s.sequence w = none) : receive A key s w = (s.poison, []) := by
  rw [receive, h]
  exact acceptCell_forged s _ _

/-- Any cell but the next one poisons. -/
theorem receive_deviation {v : Bytes} (h : Numbered A key al s.sequence ws) (hv : al v) (hne : ws[0]? ≠ some v) :
    receive A key s v = (s.poison, []) := by
  refine receive_refused ?_
  cases ho : openCell A key s.sequence v with
  | none => rfl
  | some plain => exact absurd (h 0 v plain hv ho) hne

theorem receive_over (s : Receiver) (w : Bytes) (h : s.mode = .closed ∨ s.mode = .failed) :
    (receive A key s w).1.mode = .failed ∧ (receive A key s w).2 = [] := by
  unfold receive
  split <;> rw [acceptCell_poisoned h] <;> exact ⟨rfl, rfl⟩

end

/-- The receiver between two messages. -/
def Receiver.idle (seq id : Nat) : Receiver := ⟨.ready, seq, id, 0, 0, []⟩

/-- The receiver that has taken the first `part` cells of a message. -/
def Receiver.within (data : Bytes) (seq id part : Nat) : Receiver :=
  if part = 0 then .idle seq id
  else ⟨.receiving, seq, id, part, partsFor data.length, data.take (part * payloadSize)⟩

/-- Each cell of a batch with what it releases: the last one releases the data. -/
def parts (data : Bytes) : List Bytes → List (Bytes × Bytes)
  | [] => []
  | w :: ws => (w, if ws = [] then data else []) :: parts data ws

/-- The cells of the writer, each with what it releases. -/
def script (batches : List Batch) : List (Bytes × Bytes) := batches.flatMap fun b => parts b.data b.wires

section

variable {allowed : Bytes → Prop} {last : Receiver → Prop} {data : Bytes} {seq id part : Nat}

theorem Receiver.within_sequence : (within data seq id part).sequence = seq := by
  unfold within
  split_ifs <;> rfl

theorem Receiver.within_expects (hseq : seq < serialLast) : (within data seq id part).Expects data id part := by
  unfold within
  split_ifs with hpart
  · subst hpart
    exact ⟨rfl, hseq, rfl, rfl, fun hne => absurd rfl hne, by simp [idle]⟩
  · exact ⟨by rw [if_neg hpart], hseq, rfl, rfl, fun _ => rfl, rfl⟩

theorem Receiver.within_messageId : (within data seq id part).messageId = id := by
  unfold within
  split_ifs <;> rfl

theorem Receiver.within_alive : (within data seq id part).mode ≠ .failed := by
  unfold within
  split_ifs <;> nofun

/-- A cell that was sealed under the expected number reaches `Accept_Cell` as it was. -/
theorem receive_sealed {s : Receiver} (h : sealCell A key s.sequence plain = some wr) (hpl : plain.length = 488) :
    receive A key s wr = s.acceptCell plain s.sequence true := by
  rw [receive, openCell_sealCell h hpl]

theorem receive_part (hid : id < serialLast) (hdt : data ≠ []) (hmax : data.length ≤ 16384)
    (hpart : part < partsFor data.length) (h : sealCell A key seq (plainCell data id part (noise seq).1) = some w) :
    receive A key (.within data seq id part) w =
      if part + 1 = partsFor data.length then (.idle (seq + 1) (id + 1), data)
      else (.within data (seq + 1) id (part + 1), []) := by
  have hseq := (sealCell_eq_some h).1
  rw [receive_sealed (by rwa [within_sequence]) (length_plainCell data id part (noise seq)), plainCell,
    if_neg hdt, acceptCell_encode (within_expects hseq) hid (length_pos_of_ne_nil hdt) hmax hpart,
    advanced, within_sequence, within_messageId]
  rfl

/-- **Lockstep through a message.** Whatever follows it in lockstep follows its cells. -/
theorem lockstep_parts (hid : id < serialLast) (hdt : data ≠ []) (hmax : data.length ≤ 16384) {cnt : Nat}
    {wires l : List Bytes} {re : List (Bytes × Bytes)} (hpos : 0 < cnt) (hcnt : part + cnt = partsFor data.length)
    (hwires : sealParts A key noise data id seq part cnt = some wires)
    (hnumd : Numbered A key allowed seq (wires ++ l))
    (hrs : Lockstep (receive A key) (·.mode = .failed) last allowed (.idle (seq + cnt) (id + 1)) re) :
    Lockstep (receive A key) (·.mode = .failed) last allowed (.within data seq id part) (parts data wires ++ re) := by
  induction cnt generalizing seq part wires with
  | zero => omega
  | succ cnt ih =>
    rw [sealParts] at hwires
    split at hwires
    · cases hwires
    rename_i w hw
    obtain ⟨ws, hws, rfl⟩ := Option.map_eq_some_iff.mp hwires
    have hstep := receive_part hid hdt hmax (by omega) hw
    refine ⟨within_alive, ?_, ?_⟩
    · intro v hv hne
      have hdev := receive_deviation (s := .within data seq id part) (by rwa [within_sequence]) hv (by simpa using Ne.symm hne)
      exact ⟨congrArg (·.1.mode) hdev, congrArg Prod.snd hdev⟩
    cases cnt with
    | zero =>
      cases hws
      rw [if_pos (by omega)] at hstep
      rw [hstep]
      exact ⟨rfl, hrs⟩
    | succ cnt =>
      have hne : ws ≠ [] := ne_nil_of_length_eq_add_one (sealParts_getElem hws).1
      rw [if_neg (by omega)] at hstep
      rw [hstep, if_neg hne]
      refine ⟨rfl, ih (Nat.succ_pos _) (by omega) hws hnumd.tail ?_⟩
      rwa [show seq + 1 + (cnt + 1) = seq + (cnt + 1 + 1) by omega]

/-- Where no cell is left, every cell poisons. -/
theorem lockstep_nil (hnumd : Numbered A key allowed seq []) :
    Lockstep (receive A key) (·.mode = .failed) (·.mode = .ready) allowed (.idle seq id) [] := by
  refine ⟨nofun, rfl, fun v hv => ?_⟩
  have hsur := receive_deviation (s := .idle seq id) hnumd hv nofun
  exact ⟨congrArg (·.1.mode) hsur, congrArg Prod.snd hsur⟩

/-- The end of the input closes the receiver, and nothing may follow. -/
theorem lockstep_finish (hid : id < serialLast) (hwires : sealParts A key noise [] id seq 0 (partsFor 0) = some wires)
    (hnumd : Numbered A key allowed seq wires) :
    Lockstep (receive A key) (·.mode = .failed) (·.mode = .closed) allowed (.idle seq id) (parts [] wires) := by
  rw [show partsFor 0 = 0 + 1 from rfl, sealParts] at hwires
  split at hwires
  · cases hwires
  rename_i w hw
  cases hwires
  have hseq := (sealCell_eq_some hw).1
  have hcls : receive A key (.idle seq id) w = (⟨.closed, seq + 1, id, 0, 0, []⟩, []) := by
    rw [receive_sealed hw (length_plainCell [] id 0 (noise seq)), plainCell, if_pos rfl]
    exact acceptCell_finish rfl hseq hid
  refine ⟨nofun, fun v hv hne => ?_, ?_, ?_⟩
  · have hdev := receive_deviation (s := .idle seq id) hnumd hv (by simpa using Ne.symm hne)
    exact ⟨congrArg (·.1.mode) hdev, congrArg Prod.snd hdev⟩
  · rw [hcls]
    rfl
  · rw [hcls]
    exact ⟨nofun, rfl, fun v _ => receive_over _ v (.inl rfl)⟩

/-- The mode in which the receiver ends. -/
def WriterEnd.mode (e : WriterEnd) : Phase := if e = .finished then .closed else .ready

/-- **The receiver is in lockstep with the writer.** -/
theorem lockstep_writer {reads : List Read}
    (hnumd : Numbered A key allowed seq (cells (writer A key noise seq id reads).1)) :
    Lockstep (receive A key) (·.mode = .failed) (·.mode = (writer A key noise seq id reads).2.mode) allowed
      (.idle seq id) (script (writer A key noise seq id reads).1) := by
  induction reads generalizing seq id with
  | nil => exact lockstep_nil hnumd
  | cons read reads ih =>
    obtain ⟨data, hmax⟩ := read
    rcases writer_cases seq id data hmax reads with hexc | ⟨wires, hid, hwires, ⟨hnil, hlast⟩ | ⟨hdt, hmore⟩⟩
    · rw [hexc] at hnumd ⊢
      exact lockstep_nil hnumd
    · subst hnil
      rw [hlast] at hnumd ⊢
      rw [cells, flatMap_cons, flatMap_nil, append_nil] at hnumd
      rw [script, flatMap_cons, flatMap_nil, append_nil]
      exact lockstep_finish hid hwires hnumd
    rw [hmore] at hnumd ⊢
    have hlen := (sealParts_getElem hwires).1
    refine lockstep_parts hid hdt hmax (partsFor_pos _) (zero_add _) hwires hnumd (ih ?_)
    have hlat := hnumd.drop
    rwa [hlen] at hlat

end

/-! ## What a script releases -/

theorem parts_fst (data : Bytes) (wires : List Bytes) : (parts data wires).map Prod.fst = wires := by
  induction wires with
  | nil => rfl
  | cons w ws ih => rw [parts, map_cons, ih]

theorem script_fst (batches : List Batch) : (script batches).map Prod.fst = cells batches := by
  rw [script, cells, map_flatMap]
  simp only [parts_fst]

/-- The first cells of a message release nothing, all of them release the message. -/
theorem releases_parts (data : Bytes) (hwires : wires ≠ []) (n : Nat) :
    releases (parts data wires) n = if wires.length ≤ n then data else [] := by
  induction wires generalizing n with
  | nil => exact absurd rfl hwires
  | cons w ws ih =>
    cases n with
    | zero => simp [releases]
    | succ n =>
      by_cases hlast : ws = []
      · simp [hlast, parts, releases]
      have hrs := ih hlast n
      rw [releases] at hrs
      rw [parts, releases, take_succ_cons, map_cons, flatten_cons, hrs, if_neg hlast]
      simp

theorem releases_script {batches : List Batch} (hbat : ∀ b ∈ batches, b.wires ≠ []) (n : Nat) :
    releases (script batches) n = complete batches n := by
  induction batches generalizing n with
  | nil => simp [script, releases, complete]
  | cons b bs ih =>
    have hlen : (parts b.data b.wires).length = b.wires.length := by
      conv_rhs => rw [← parts_fst b.data b.wires, length_map]
    have hfst := releases_parts b.data (hbat b mem_cons_self) n
    have hrs := ih (fun c hc => hbat c (mem_cons_of_mem _ hc)) (n - b.wires.length)
    have hspl : releases (script (b :: bs)) n
        = releases (parts b.data b.wires) n ++ releases (script bs) (n - b.wires.length) := by
      rw [script, flatMap_cons, releases, take_append, hlen, map_append, flatten_append]
      rfl
    rw [hspl, hfst, complete]
    split_ifs with hle
    · rw [hrs]
    · rw [Nat.sub_eq_zero_of_le (by omega)]
      simp [releases]

theorem complete_all {batches : List Batch} {n : Nat} (hn : (cells batches).length ≤ n) :
    complete batches n = (batches.map Batch.data).flatten := by
  induction batches generalizing n with
  | nil => rfl
  | cons b bs ih =>
    rw [cells, flatMap_cons, length_append] at hn
    rw [complete, if_pos (by omega), ih (by unfold cells; omega), map_cons, flatten_cons]

/-! ## The receiver on any cells -/

section

variable {reads : List Read} {batches : List Batch} {e : WriterEnd}

theorem writer_wires_ne_nil {seq id : Nat} : ∀ b ∈ (writer A key noise seq id reads).1, b.wires ≠ [] := by
  induction reads generalizing seq id with
  | nil => nofun
  | cons read reads ih =>
    obtain ⟨data, hmax⟩ := read
    rcases writer_cases seq id data hmax reads with hexc | ⟨wires, -, hwires, hend⟩
    · rw [hexc]
      nofun
    have hne : wires ≠ [] := by
      rintro rfl
      exact absurd (sealParts_getElem hwires).1 (ne_of_lt (partsFor_pos _))
    rcases hend with ⟨-, hlast⟩ | ⟨-, hmore⟩
    · rw [hlast]
      intro b hb
      rw [mem_singleton.mp hb]
      exact hne
    · rw [hmore]
      exact forall_mem_cons.mpr ⟨hne, ih⟩

theorem genuine_of_isPrefix (h : ws <+: cells batches) : ∀ w ∈ ws, Genuine A key batches w :=
  fun _ hmem _ _ _ => h.subset hmem

variable (hw : writer A key noise 1 1 reads = (batches, e))

include hw

theorem lockstep_batches :
    Lockstep (receive A key) (·.mode = .failed) (·.mode = e.mode) (Genuine A key batches) .start (script batches) := by
  have hnumd : Numbered A key (Genuine A key (writer A key noise 1 1 reads).1) 1
      (cells (writer A key noise 1 1 reads).1) := numbered_writer 1 1 reads
  have hloc := lockstep_writer hnumd
  rw [hw] at hloc
  exact hloc

/-- **The receiver on any cells.** It releases the messages of which all cells came in order before the first deviation,
    and it is poisoned exactly if there was a deviation. -/
theorem feed_cells (hws : ∀ w ∈ ws, Genuine A key batches w) :
    (feed (receive A key) .start ws).2 = complete batches (commonLength ws (cells batches)) ∧
      ((feed (receive A key) .start ws).1.mode = .failed ↔ ¬ ws <+: cells batches) := by
  have hbat : ∀ b ∈ batches, b.wires ≠ [] := by
    have hne : ∀ b ∈ (writer A key noise 1 1 reads).1, b.wires ≠ [] := writer_wires_ne_nil
    rwa [hw] at hne
  have hfeed := (lockstep_batches hw).feed (fun s w h => receive_over s w (.inr h)) hws
  rwa [script_fst, releases_script hbat] at hfeed

theorem mode_cells : (feed (receive A key) .start (cells batches)).1.mode = e.mode := by
  have hlast := (lockstep_batches hw).last_feed
  rwa [script_fst] at hlast

theorem closed_complete (h : ws <+: cells batches)
    (hcl : (feed (receive A key) .start ws).1.mode = .closed) : ws = cells batches ∧ e = .finished := by
  have hall : ws = cells batches := by
    obtain ⟨rest, hrs⟩ := h
    cases rest with
    | nil => rw [← hrs, append_nil]
    | cons w rest =>
      -- one more cell would poison the receiver, and it is a cell of the writer
      have hnx : ws ++ [w] <+: cells batches := ⟨rest, by rw [← hrs, append_assoc]; rfl⟩
      have hfail : (feed (receive A key) .start (ws ++ [w])).1.mode = .failed := by
        rw [feed_append]
        exact (receive_over _ w (.inl hcl)).1
      exact absurd hnx ((feed_cells hw (genuine_of_isPrefix hnx)).2.mp hfail)
  refine ⟨hall, ?_⟩
  rw [hall, mode_cells hw, WriterEnd.mode] at hcl
  by_contra hne
  rw [if_neg hne] at hcl
  cases hcl

end

/-! ## The reader -/

/-- The cells that the reader has taken from its buffer. -/
structure Reader.Took (A : Aead) (key : Bytes) (r : Reader) (ws : List Bytes) : Prop where
  width : ∀ w ∈ ws, w.length = 512
  fed : feed (receive A key) .start ws = (r.state, r.output)

/-- How the reader stands after the reads `chunks`, of which it has taken `ws`. -/
inductive Reader.Stands (chunks ws : List Bytes) (r : Reader) : Prop
  | running (h : r.outcome = .running) (hend : [] ∉ chunks) (hstream : chunks.flatten = ws.flatten ++ r.held)
      (hheld : r.held.length < 512) (hfailed : r.state.mode ≠ .failed) (hclosed : r.state.mode ≠ .closed)
  | closed (h : r.outcome = .closed) (hstream : ws.flatten <+: chunks.flatten) (hclosed : r.state.mode = .closed)
  | raised (h : r.outcome = .raised) (hstream : ws.flatten <+: chunks.flatten)
      (hwhy : [] ∈ chunks ∨ r.state.mode = .failed ∨
        r.state.mode = .closed ∧ ∃ more, more ≠ [] ∧ ws.flatten ++ more <+: chunks.flatten)

/-- Poisoning is silent. -/
theorem receive_silent {s : Receiver} (h : (receive A key s w).1.mode = .failed) : (receive A key s w).2 = [] := by
  have hacc : ∀ plain authenticated, (s.acceptCell plain s.sequence authenticated).1.mode = .failed →
      (s.acceptCell plain s.sequence authenticated).2 = [] := by
    intro plain authenticated hfail
    rcases acceptCell_cases s plain s.sequence authenticated with hpsn | ⟨-, -, hcls⟩ | ⟨-, -, htake⟩
    · rw [hpsn]
    · rw [hcls]
    · rw [htake, Receiver.take] at hfail
      split_ifs at hfail
  unfold receive at h ⊢
  split at h
  · exact hacc _ _ h
  · exact hacc _ _ h

theorem Reader.Took.next (h : r.Took A key ws) (hheld : 512 ≤ r.held.length) (held : Bytes) (o : ReaderEnd)
    : Reader.Took A key ⟨(receive A key r.state (r.held.take 512)).1, held,
      r.output ++ (receive A key r.state (r.held.take 512)).2, o⟩ (ws ++ [r.held.take 512]) := by
  constructor
  · refine forall_mem_append.mpr ⟨h.width, forall_mem_singleton.mpr ?_⟩
    rw [length_take]
    omega
  · rw [feed_append, h.fed]
    simp [feed]

/-- The inner loop takes all complete cells, unless it stops before. -/
theorem Reader.drain_stands {cs ws : List Bytes} {k : Nat} (htook : r.Took A key ws)
    (hrunn : r.outcome = .running) (hend : [] ∉ cs) (hstr : cs.flatten = ws.flatten ++ r.held)
    (hfuel : r.held.length ≤ k * 512) (hfail : r.state.mode ≠ .failed) (hcl : r.state.mode ≠ .closed) :
    ∃ ws', (drain A key r k).Took A key ws' ∧ (drain A key r k).Stands cs ws' := by
  induction k generalizing r ws with
  | zero => exact ⟨ws, htook, .running hrunn hend hstr (by show r.held.length < 512; omega) hfail hcl⟩
  | succ k ih =>
    rw [drain]
    by_cases hsh : r.held.length < 512
    · rw [if_pos hsh]
      exact ⟨ws, htook, .running hrunn hend hstr hsh hfail hcl⟩
    have hnx := fun o => htook.next (not_lt.mp hsh) (r.held.drop 512) o
    have hstr' : cs.flatten = (ws ++ [r.held.take 512]).flatten ++ r.held.drop 512 := by
      rw [hstr, flatten_append, flatten_singleton, append_assoc, take_append_drop]
    have htk : (ws ++ [r.held.take 512]).flatten <+: cs.flatten := ⟨_, hstr'.symm⟩
    dsimp only
    split_ifs with hpois hover hrs
    · have hexc := hnx .raised
      rw [receive_silent hpois, append_nil] at hexc
      exact ⟨_, hexc, .raised rfl htk (.inr (.inl hpois))⟩
    · exact ⟨_, hnx .closed, .closed rfl htk hover⟩
    · refine ⟨_, hnx .raised, .raised rfl htk (.inr (.inr ⟨hover, _, hrs, ?_⟩))⟩
      rw [hstr']
    refine ih (hnx .running) rfl hstr' ?_ hpois hover
    rw [length_drop]
    omega

/-- **One read of the reader.** -/
theorem Reader.read_stands {cs ws : List Bytes} (htook : r.Took A key ws) (h : r.Stands cs ws) (ch : Bytes)
    : ∃ ws', (read A key r ch).Took A key ws' ∧ (read A key r ch).Stands (cs ++ [ch]) ws' := by
  have hmore : cs.flatten <+: (cs ++ [ch]).flatten := by
    rw [flatten_append]
    exact prefix_append _ _
  rw [read]
  cases h with
  | running h hend hstr hheld hfail hcl =>
    rw [if_neg (by simp [h])]
    split_ifs with hnil
    · exact ⟨ws, ⟨htook.width, htook.fed⟩, .raised rfl (.trans ⟨_, hstr.symm⟩ hmore) (.inl (by simp [hnil]))⟩
    have htook' : Reader.Took A key { r with held := r.held ++ ch } ws := ⟨htook.width, htook.fed⟩
    refine drain_stands htook' h ?_ ?_ (Nat.le_mul_of_pos_right _ (by decide)) hfail hcl
    · simp [hend, Ne.symm hnil]
    · rw [flatten_append, flatten_singleton, hstr, append_assoc]
  | closed h hstr hcl =>
    rw [if_pos (by simp [h])]
    exact ⟨ws, htook, .closed h (hstr.trans hmore) hcl⟩
  | raised h hstr hwhy =>
    rw [if_pos (by simp [h])]
    refine ⟨ws, htook, .raised h (hstr.trans hmore) ?_⟩
    rcases hwhy with hend | hfail | ⟨hcl, more, hne, htail⟩
    · exact .inl (mem_append_left _ hend)
    · exact .inr (.inl hfail)
    · exact .inr (.inr ⟨hcl, more, hne, htail.trans hmore⟩)

/-- **Every run of the reader.** -/
theorem Reader.run_stands (A : Aead) (key : Bytes) (cs : List Bytes) :
    ∃ ws, (run A key cs).Took A key ws ∧ (run A key cs).Stands cs ws := by
  induction cs using reverseRecOn with
  | nil => exact ⟨[], ⟨nofun, rfl⟩, .running rfl nofun rfl (Nat.succ_pos 511) nofun nofun⟩
  | append_singleton cs chunk ih =>
    obtain ⟨ws, htook, hstan⟩ := ih
    rw [run, foldl_append]
    exact read_stands htook hstan chunk

/-! ## The relay -/

/-- The bytes of the reads before the end. -/
def sent : List Read → Bytes
  | [] => []
  | ⟨data, _⟩ :: reads => if data = [] then [] else data ++ sent reads

theorem writer_data {seq id : Nat} {reads : List Read} (h : (writer A key noise seq id reads).2 ≠ .raised) :
    ((writer A key noise seq id reads).1.map Batch.data).flatten = sent reads := by
  induction reads generalizing seq id with
  | nil => rfl
  | cons read reads ih =>
    obtain ⟨data, hmax⟩ := read
    rcases writer_cases seq id data hmax reads with hexc | ⟨wires, -, -, ⟨rfl, hlast⟩ | ⟨hdt, hmore⟩⟩
    · rw [hexc] at h
      exact absurd rfl h
    · rw [hlast]
      rfl
    · rw [hmore] at h ⊢
      rw [sent, if_neg hdt, map_cons, flatten_cons, ih h]

/-- The number of cells for all the reads. -/
def cellsFor (reads : List Read) : Nat := (reads.map fun read => partsFor read.1.length).sum

theorem sealParts_some {data : Bytes} {id seq part cnt : Nat} (h : seq + cnt ≤ serialLast) :
    ∃ wires, sealParts A key noise data id seq part cnt = some wires := by
  induction cnt generalizing seq part with
  | zero => exact ⟨[], rfl⟩
  | succ cnt ih =>
    obtain ⟨wires, hwires⟩ : ∃ wires, sealParts A key noise data id (seq + 1) (part + 1) cnt = some wires :=
      ih (by omega)
    rw [sealParts, sealCell, if_neg (by omega), hwires]
    exact ⟨_, rfl⟩

/-- The writer raises only when the numbers are used up. -/
theorem writer_not_raised {seq id : Nat} {reads : List Read} (hid : id ≤ seq) (h : seq + cellsFor reads ≤ serialLast) :
    (writer A key noise seq id reads).2 ≠ .raised := by
  induction reads generalizing seq id with
  | nil => nofun
  | cons read reads ih =>
    obtain ⟨data, hmax⟩ := read
    rw [cellsFor, map_cons, sum_cons] at h
    have hpos := partsFor_pos data.length
    dsimp only at h
    obtain ⟨wires, hwires⟩ : ∃ wires, sealParts A key noise data id seq 0 (partsFor data.length) = some wires :=
      sealParts_some (by omega)
    rw [writer, if_neg (by omega), hwires]
    split_ifs
    · nofun
    · exact ih (by omega) (by unfold cellsFor; omega)

section

variable {rs : List Read} {batches : List Batch} {e : WriterEnd} (hw : writer A key noise 1 1 rs = (batches, e))

include hw

theorem length_cells : ∀ c ∈ cells batches, c.length = 512 := by
  intro c hc
  obtain ⟨k, hk⟩ := mem_iff_getElem?.mp hc
  have hcells : (cells (writer A key noise 1 1 rs).1)[k]? = some c := by rw [hw]; exact hk
  obtain ⟨plain, hpl, hseal⟩ := writer_getElem hcells
  exact length_sealCell hseal hpl

/-- The undisturbed stream is written out as it was read. -/
theorem run_undisturbed {cs : List Bytes} (hend : [] ∉ cs) (hstr : cs.flatten = (cells batches).flatten) :
    (run A key cs).output = (batches.map Batch.data).flatten ∧
      (run A key cs).outcome = if e = .finished then .closed else .running := by
  obtain ⟨ws, htook, hstan⟩ := run_stands A key cs
  have hcells := length_cells hw
  have hfro : ws.flatten <+: cs.flatten → ws <+: cells batches := by
    intro h
    rw [hstr, ← append_nil (cells batches).flatten] at h
    exact prefix_of_flatten_prefix htook.width hcells (by decide) h
  have hst : ∀ m, (run A key cs).state.mode = m ↔ (feed (receive A key) .start ws).1.mode = m := by
    intro m
    rw [htook.fed]
  have houtp : ws = cells batches → (run A key cs).output = (batches.map Batch.data).flatten := by
    rintro rfl
    have hfeed := (feed_cells hw (genuine_of_isPrefix (prefix_refl (cells batches)))).1
    rw [htook.fed, commonLength_of_isPrefix (prefix_refl _), complete_all (le_refl _)] at hfeed
    exact hfeed
  cases hstan with
  | running h hend' hstr' hheld hfail hcl =>
    have hall : ws = cells batches := by
      have hback : cells batches <+: ws := by
        refine prefix_of_flatten_prefix hcells htook.width hheld ?_
        rw [← hstr', hstr]
      exact List.IsPrefix.eq_of_length_le (hfro ⟨_, hstr'.symm⟩) hback.length_le
    refine ⟨houtp hall, ?_⟩
    rw [Ne, hst, hall, mode_cells hw, WriterEnd.mode] at hcl
    rw [h]
    split_ifs at hcl ⊢ with hfin
    · exact absurd rfl hcl
    · rfl
  | closed h hstr' hcl =>
    obtain ⟨hall, hfin⟩ := closed_complete hw (hfro hstr') ((hst _).mp hcl)
    exact ⟨houtp hall, by rw [h, if_pos hfin]⟩
  | raised h hstr' hwhy =>
    have hok := hfro hstr'
    rcases hwhy with hend' | hfail | ⟨hcl, more, hne, htail⟩
    · exact absurd hend' hend
    · exact absurd hok ((feed_cells hw (genuine_of_isPrefix hok)).2.mp ((hst _).mp hfail))
    obtain ⟨hall, -⟩ := closed_complete hw hok ((hst _).mp hcl)
    have hlen := htail.length_le
    rw [hstr, hall, length_append] at hlen
    exact absurd (length_eq_zero_iff.mp (by omega)) hne

/-- Any stream: what comes out are complete messages of which all cells came in order. -/
theorem run_disturbed {cs : List Bytes}
    (hgen : ∀ w, w.length = 512 → w <:+: cs.flatten → Genuine A key batches w) :
    ∃ n, ((cells batches).take n).flatten <+: cs.flatten ∧ (run A key cs).output = complete batches n ∧
      ((run A key cs).outcome = .closed → e = .finished ∧ n = (cells batches).length) ∧
      ((run A key cs).outcome = .running → [] ∉ cs ∧
        ∀ ws, (∀ w ∈ ws, w.length = 512) → ws.flatten <+: cs.flatten → ws <+: cells batches) := by
  obtain ⟨ws, htook, hstan⟩ := run_stands A key cs
  have htk : ws.flatten <+: cs.flatten := by
    cases hstan with
    | running h hend hstr => exact ⟨_, hstr.symm⟩
    | closed h hstr | raised h hstr => exact hstr
  have hws : ∀ w ∈ ws, Genuine A key batches w := by
    intro w hmem
    exact hgen w (htook.width w hmem) ((infix_of_mem_flatten hmem).trans htk.isInfix)
  obtain ⟨hout, hfail⟩ := feed_cells hw hws
  rw [htook.fed] at hout hfail
  have hcom : ((cells batches).take (commonLength ws (cells batches))).flatten <+: cs.flatten := by
    refine List.IsPrefix.trans ?_ htk
    obtain ⟨rest, hrs⟩ := take_commonLength ws (cells batches)
    exact ⟨rest.flatten, by rw [← flatten_append, hrs]⟩
  refine ⟨commonLength ws (cells batches), hcom, hout, ?_, ?_⟩
  · intro hcl
    cases hstan with
    | running h | raised h => simp [h] at hcl
    | closed h hstr hmode =>
      have hok : ws <+: cells batches := by
        by_contra hdev
        rw [hfail.mpr hdev] at hmode
        cases hmode
      obtain ⟨hall, hfin⟩ := closed_complete hw hok (by rw [htook.fed]; exact hmode)
      exact ⟨hfin, by rw [commonLength_of_isPrefix hok, hall]⟩
  intro hrunn
  cases hstan with
  | closed h | raised h => simp [h] at hrunn
  | running h hend hstr hheld hmode =>
    refine ⟨hend, fun vs hvs hfro => ?_⟩
    rw [hstr] at hfro
    have hfst := prefix_of_flatten_prefix hvs htook.width hheld hfro
    exact hfst.trans (not_not.mp (mt hfail.mpr hmode))

end

/-- **The relay is faithful.** A writer that has numbers enough does not raise, and has then written all its reads into
    cells. If the cells come as they were written, in any chunks, the same bytes come out. Whatever cells are received
    instead, the receiver is poisoned exactly if they are not the first ones of the writer's, and in every case only
    messages come out of which all cells were authentic and in order. -/
theorem relay_faithful (A : Aead) (key : Bytes) (noise : Noise) (reads : List Read) (batches : List Batch) (e : WriterEnd)
    (hw : writer A key noise 1 1 reads = (batches, e)) : (1 + cellsFor reads ≤ serialLast → e ≠ .raised) ∧
    (e ≠ .raised → (batches.map Batch.data).flatten = sent reads) ∧
    (∀ chunks, [] ∉ chunks → chunks.flatten = (cells batches).flatten →
      (run A key chunks).output = (batches.map Batch.data).flatten ∧
      (run A key chunks).outcome = if e = .finished then .closed else .running) ∧
    (∀ ws, (∀ w ∈ ws, Genuine A key batches w) →
      (feed (receive A key) .start ws).2 = complete batches (commonLength ws (cells batches)) ∧
      ((feed (receive A key) .start ws).1.mode = .failed ↔ ¬ ws <+: cells batches)) ∧
    (∀ chunks, (∀ w, w.length = 512 → w <:+: chunks.flatten → Genuine A key batches w) →
      ∃ n, ((cells batches).take n).flatten <+: chunks.flatten ∧ (run A key chunks).output = complete batches n ∧
        ((run A key chunks).outcome = .closed → e = .finished ∧ n = (cells batches).length) ∧
        ((run A key chunks).outcome = .running → [] ∉ chunks ∧
          ∀ ws, (∀ w ∈ ws, w.length = 512) → ws.flatten <+: chunks.flatten → ws <+: cells batches)) := by
  refine ⟨fun hroom => ?_, fun hraised => ?_, fun chunks => run_undisturbed hw, fun ws => feed_cells hw,
    fun chunks => run_disturbed hw⟩
  · have hnot : (writer A key noise 1 1 reads).2 ≠ .raised := writer_not_raised (le_refl 1) hroom
    rwa [hw] at hnot
  · have hdata : (writer A key noise 1 1 reads).2 ≠ .raised →
        ((writer A key noise 1 1 reads).1.map Batch.data).flatten = sent reads := writer_data
    rw [hw] at hdata
    exact hdata hraised

/-- Noise that is all zeros. -/
def zeros : Noise := fun _ => ⟨replicate 488 0, length_replicate ..⟩

/-- Three bytes, and the end. -/
def threeBytes : List Read := [⟨[1, 2, 3], by decide⟩, ⟨[], by decide⟩]

theorem relay_faithful_three_bytes :
    (run .checksum [] [(cells (writer .checksum [] zeros 1 1 threeBytes).1).flatten]).output = [1, 2, 3] := by
  obtain ⟨hroom, hdata, hrun, -, -⟩ := relay_faithful .checksum [] zeros threeBytes _ _ rfl
  have hnot := hroom (by decide)
  rw [(hrun _ (by decide +kernel) (append_nil _)).1, hdata hnot]
  rfl

/-- A writer that reads the end at once writes one cell. If it is dropped, nothing is poisoned. -/
theorem dropped_end_not_poisoned : (cells (writer .checksum [] zeros 1 1 [⟨[], by decide⟩]).1).length = 1 ∧
      (feed (receive .checksum []) .start []).1.mode = .ready := by
  constructor
  · decide +kernel
  · rfl

end Shadow6.CoreAda
