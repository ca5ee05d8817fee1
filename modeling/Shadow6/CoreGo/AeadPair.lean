import Shadow6.Library.Machine
import Shadow6.CoreGo.AeadConn

/-!
# `CoreGo.AeadPair` — the two ends of a data connection

The two `aeadConn` of a connection with a transport between them. What the transport may deliver is a parameter of the
run. A transport that delivers the stream in order, cut and joined anywhere, gives back what was written
(`round_trip`). A transport that chooses among the authentic records does not: the reader takes the nonce from the
record and both directions share a key, so a record can be delivered twice or to its own writer
(`records_replayed`); records that come in order are read as they were written (`records_in_order`).
-/

namespace Shadow6.CoreGo

open Library AeadConn List Function

/-! ## The pair and its runs -/

inductive End where
  | client
  | agent
  deriving DecidableEq

def End.other : End → End
  | .client => .agent
  | .agent => .client

theorem End.other_ne (e : End) : e.other ≠ e := by
  cases e <;> decide

/-- An end of the connection, with its history. -/
structure Station where
  conn : AeadConn
  /-- The records it has handed to the transport. -/
  sent : List Bytes
  /-- The pieces the transport has delivered to it. -/
  arrivals : List Bytes
  /-- The part of these that is not read yet. -/
  pieces : List Bytes
  /-- The bytes that `Write` has accepted. -/
  written : Bytes
  /-- Whether the record of `writeEOF` is among those sent. -/
  ended : Bool
  /-- The bytes that `Read` has returned. -/
  returned : Bytes

/-- The bytes a `Read` has put into its destination. -/
def AeadConn.ReadResult.bytes : ReadResult → Bytes
  | .count bytes => bytes
  | _ => []

namespace Station

variable (C : Aead) (key : Bytes)

def write (s : Station) (plaintext : Bytes) : Station :=
  let (conn, records, result) := s.conn.write C key plaintext
  { s with conn, sent := s.sent ++ records, written := s.written ++ if result.isOk then plaintext else [] }

def writeEOF (s : Station) : Station :=
  let (conn, records, _) := s.conn.writeEOF C key
  { s with conn, sent := s.sent ++ records, ended := s.ended || !records.isEmpty }

/-- What a `Read` with a destination of this size returns now. -/
def result (s : Station) (size : Nat) : ReadResult := (s.conn.read C key s.pieces size).2.2

def read (s : Station) (size : Nat) : Station :=
  let (conn, pieces, result) := s.conn.read C key s.pieces size
  { s with conn, pieces, returned := s.returned ++ ReadResult.bytes result }

def arrive (s : Station) (piece : Bytes) : Station :=
  { s with arrivals := s.arrivals ++ [piece], pieces := s.pieces ++ [piece] }

end Station

/-- A key that both ends have, and the random prefixes of their nonces. -/
structure Connection where
  aead : Aead
  key : Bytes
  noncePrefix : End → Bytes
  length_noncePrefix : ∀ e, (noncePrefix e).length = 8

/-- The calls at the two ends, and what the transport does. -/
inductive Event (ν : Type) where
  | write (e : End) (plaintext : Bytes)
  | writeEOF (e : End)
  | read (e : End) (size : Nat)
  | network (n : ν)

namespace Connection

variable {ν : Type} (K : Connection)

def start (e : End) : Station := ⟨.new (K.noncePrefix e) (K.length_noncePrefix e), [], [], [], [], false, []⟩

/-- One event; `piece` says where the transport delivers what. -/
def step (piece : (End → Station) → ν → End × Bytes) (s : End → Station) : Event ν → End → Station
  | .write e plaintext => update s e ((s e).write K.aead K.key plaintext)
  | .writeEOF e => update s e ((s e).writeEOF K.aead K.key)
  | .read e size => update s e ((s e).read K.aead K.key size)
  | .network n => update s (piece s n).1 ((s (piece s n).1).arrive (piece s n).2)

def run (piece : (End → Station) → ν → End × Bytes) (es : List (Event ν)) : End → Station :=
  es.foldl (K.step piece) K.start

end Connection

/-! ## What an end has sent, and what the other one has heard -/

section

variable {C : Aead} {key : Bytes} {plains sent : List Bytes} {s : Station} {k size : Nat}

/-- What an end has put on the network: records of these plaintexts, of which at most the last is empty. -/
structure Sends (C : Aead) (key : Bytes) (s : Station) (plains : List Bytes) : Prop where
  sealed : List.Forall₂ (Sealed C key) plains s.sent
  written : plains.flatten = s.written
  bounded : ∀ p ∈ plains, p.length ≤ maxAEADPlaintext
  ending : ∃ data : List Bytes, plains = data ++ (if s.ended then [[]] else []) ∧ ∀ p ∈ data, p ≠ []
  closed : s.ended = true → s.conn.writeClosed = true

/-- What an end has heard of records of these plaintexts: the first `k` of them. What has arrived and is not read,
    followed by what has not arrived, is the stream of the others. -/
structure Hears (s : Station) (plains sent : List Bytes) (k : Nat) : Prop where
  reached : k ≤ plains.length
  arrived : s.arrivals.flatten <+: sent.flatten
  stream : ∀ later, s.arrivals.flatten ++ later = sent.flatten → s.pieces.flatten ++ later = (sent.drop k).flatten
  returned : s.returned ++ s.conn.decoded = (plains.take k).flatten
  eof : s.conn.readEOF = true ↔ [] ∈ plains.take k
  drained : s.conn.readEOF = true → s.conn.decoded = []

theorem Sends.unended (h : Sends C key s plains) (ho : s.conn.writeClosed = false) : s.ended = false := by
  by_contra hend
  rw [h.closed (by simpa using hend)] at ho
  cases ho

section

variable (h : Hears s plains sent k)
include h

/-- Calls on the other direction leave what was heard alone. -/
theorem Hears.same {conn : AeadConn} (hdecd : conn.decoded = s.conn.decoded)
    (heof : conn.readEOF = s.conn.readEOF) : Hears { s with conn := conn } plains sent k := by
  refine { h with returned := ?_, eof := ?_, drained := ?_ }
  · rw [hdecd]; exact h.returned
  · rw [heof]; exact h.eof
  · rw [heof, hdecd]; exact h.drained

theorem Hears.more (hlen : plains.length = sent.length) (plains' sent' : List Bytes) :
    Hears s (plains ++ plains') (sent ++ sent') k := by
  have hrch := h.reached
  refine ⟨?_, ?_, ?_, ?_, ?_, h.drained⟩
  · rw [length_append]
    omega
  · rw [flatten_append]
    exact h.arrived.trans (prefix_append _ _)
  · intro later hlat
    obtain ⟨rest, hrs⟩ := h.arrived
    -- what had not arrived of the old stream, then the new records
    rw [flatten_append, ← hrs, append_assoc] at hlat
    rw [append_cancel_left hlat, ← append_assoc, h.stream rest hrs,
      drop_append_of_le_length (hlen ▸ hrch), flatten_append]
  · rw [take_append_of_le_length hrch]
    exact h.returned
  · rw [take_append_of_le_length hrch]
    exact h.eof

/-- The transport delivers the next bytes of the stream. -/
theorem Hears.arrive {piece : Bytes} (hnx : s.arrivals.flatten ++ piece <+: sent.flatten) :
    Hears (s.arrive piece) plains sent k := by
  have hflat : ∀ l : List Bytes, (l ++ [piece]).flatten = l.flatten ++ piece := by
    intro l
    rw [flatten_append, flatten_cons, flatten_nil, append_nil]
  refine ⟨h.reached, ?_, ?_, h.returned, h.eof, h.drained⟩
  · show (s.arrivals ++ [piece]).flatten <+: sent.flatten
    rw [hflat]
    exact hnx
  · intro later hlat
    show (s.pieces ++ [piece]).flatten ++ later = (sent.drop k).flatten
    replace hlat : (s.arrivals ++ [piece]).flatten ++ later = sent.flatten := hlat
    rw [hflat, append_assoc] at hlat ⊢
    exact h.stream _ hlat

omit h in
theorem flatten_take_succ {p : Bytes} (hp : plains[k]? = some p) :
    (plains.take (k + 1)).flatten = (plains.take k).flatten ++ p := by
  rw [take_add_one, hp, flatten_append]
  exact congrArg _ (append_nil p)

omit h in
theorem mem_take_succ {p : Bytes} (hp : plains[k]? = some p) :
    [] ∈ plains.take (k + 1) ↔ [] ∈ plains.take k ∨ p = [] := by
  rw [take_add_one, hp, mem_append]
  exact or_congr_right (by rw [Option.toList_some, mem_singleton, eq_comm])

/-! ## One `Read` -/

/-- What a `Read` comes to: it waits, with every record that is complete read; it returns bytes; or it reports the
    end, the end record being read. -/
inductive Outcome (C : Aead) (key : Bytes) (s : Station) (plains sent : List Bytes) (k size : Nat) : Prop where
  | waits (hsize : size ≠ 0) (hresult : s.result C key size = .waits) (hsame : s.read C key size = s)
      (heof : s.conn.readEOF = false) (hdecoded : s.conn.decoded = [])
      (hdry : k = plains.length ∨ s.arrivals.flatten ≠ sent.flatten) : Outcome C key s plains sent k size
  | count (bytes : Bytes) (k' : Nat) (hresult : s.result C key size = .count bytes) (hlen : bytes.length ≤ size)
      (hbytes : size ≠ 0 → bytes ≠ []) (hreturned : (s.read C key size).returned = s.returned ++ bytes)
      (hears : Hears (s.read C key size) plains sent k') : Outcome C key s plains sent k size
  | eof (k' : Nat) (hresult : s.result C key size = .eof) (hreturned : (s.read C key size).returned = s.returned)
      (hmarker : (s.read C key size).conn.readEOF = true) (hears : Hears (s.read C key size) plains sent k') :
      Outcome C key s plains sent k size

omit h in
/-- A station that a `Read` returning `r` has left behind. -/
theorem Station.read_eq {conn : AeadConn} {pieces : List Bytes} {r : ReadResult}
    (h : s.conn.read C key s.pieces size = (conn, pieces, r)) : s.result C key size = r ∧
      s.read C key size = { s with conn, pieces, returned := s.returned ++ ReadResult.bytes r } := by
  unfold Station.result Station.read
  rw [h]
  exact ⟨rfl, rfl⟩

omit h in
/-- A `Read` that returned no bytes and has left the connection as it was. -/
theorem Station.read_same {r : ReadResult} (hr : ReadResult.bytes r = [])
    (h : s.conn.read C key s.pieces size = (s.conn, s.pieces, r)) :
    s.result C key size = r ∧ s.read C key size = s := by
  obtain ⟨hres, haft⟩ := Station.read_eq h
  rw [hr, append_nil] at haft
  exact ⟨hres, haft⟩

omit h in
theorem take_ne_nil {bytes : Bytes} (hsz : size ≠ 0) (hby : bytes ≠ []) : bytes.take size ≠ [] := by
  intro hnil
  rcases take_eq_nil_iff.mp hnil with hzero | hnil
  · exact hsz hzero
  · exact hby hnil

theorem Hears.read_ended (heof : s.conn.readEOF = true) : Outcome C key s plains sent k size := by
  have hrd : s.conn.read C key s.pieces size = (s.conn, s.pieces, .eof) := by
    rw [AeadConn.read, if_pos heof]
  obtain ⟨hres, haft⟩ := Station.read_same rfl hrd
  refine .eof k hres ?_ ?_ ?_ <;> rw [haft]
  · exact heof
  · exact h

theorem Hears.read_zero (heof : s.conn.readEOF = false) : Outcome C key s plains sent k 0 := by
  have hrd : s.conn.read C key s.pieces 0 = (s.conn, s.pieces, .count []) := by
    rw [AeadConn.read, if_neg (ne_true_of_eq_false heof), if_pos rfl]
  obtain ⟨hres, haft⟩ := Station.read_same rfl hrd
  refine .count [] k hres le_rfl (fun hne => absurd rfl hne) ?_ ?_ <;> rw [haft]
  · exact (append_nil _).symm
  · exact h

/-- What was left over is returned first. -/
theorem Hears.read_decoded (heof : s.conn.readEOF = false) (hsz : size ≠ 0) (hdecd : s.conn.decoded ≠ []) :
    Outcome C key s plains sent k size := by
  have hrd : s.conn.read C key s.pieces size
      = ({ s.conn with decoded := s.conn.decoded.drop size }, s.pieces, .count (s.conn.decoded.take size)) := by
    rw [AeadConn.read, if_neg (ne_true_of_eq_false heof), if_neg hsz, if_pos hdecd]
  obtain ⟨hres, haft⟩ := Station.read_eq hrd
  refine .count (s.conn.decoded.take size) k hres (length_take_le _ _) (fun _ => take_ne_nil hsz hdecd)
    ?_ ?_ <;> rw [haft]
  · rfl
  · refine ⟨h.reached, h.arrived, h.stream, ?_, h.eof, fun habs => absurd habs (ne_true_of_eq_false heof)⟩
    show s.returned ++ s.conn.decoded.take size ++ s.conn.decoded.drop size = (plains.take k).flatten
    rw [append_assoc, take_append_drop, h.returned]

/-- At the end of what was sent a `Read` waits. -/
theorem Hears.read_all (hlen : plains.length = sent.length) (heof : s.conn.readEOF = false) (hsz : size ≠ 0)
    (hdecd : s.conn.decoded = []) (hk : k = plains.length) : Outcome C key s plains sent k size := by
  obtain ⟨later, hlat⟩ := h.arrived
  have hstr := h.stream later hlat
  rw [drop_eq_nil_of_le (hlen ▸ hk.ge), flatten_nil, append_eq_nil_iff] at hstr
  obtain ⟨hres, haft⟩ := Station.read_same (C := C) rfl (read_empty heof hsz hdecd hstr.1)
  exact .waits hsz hres haft heof hdecd (.inl hk)

theorem Hears.read_next (hseal : List.Forall₂ (Sealed C key) plains sent)
    (hbdd : ∀ p ∈ plains, p.length ≤ maxAEADPlaintext) (heof : s.conn.readEOF = false) (hsz : size ≠ 0)
    (hdecd : s.conn.decoded = []) (hk : k < plains.length) : Outcome C key s plains sent k size := by
  have hk' : k < sent.length := hseal.length_eq ▸ hk
  have hp : plains[k]? = some plains[k] := getElem?_eq_getElem hk
  have hrec : Sealed C key plains[k] sent[k] := hseal.get hk hk'
  generalize plains[k] = p at hp hrec
  obtain ⟨later, hlat⟩ := h.arrived
  have hstr := h.stream later hlat
  rw [drop_eq_getElem_cons hk', flatten_cons] at hstr
  rcases read_record heof hsz hdecd hrec (hbdd p (mem_of_getElem? hp)) hstr with
    ⟨hrd, hsh⟩ | ⟨rest, hrs, hrd⟩
  · obtain ⟨hres, haft⟩ := Station.read_same rfl hrd
    refine .waits hsz hres haft heof hdecd (.inr ?_)
    -- a record that has arrived completely does not make a read wait
    intro hall
    rw [hall] at hlat
    obtain rfl : later = [] := append_right_eq_self.mp hlat
    have hlen := congrArg length hstr
    rw [append_nil, length_append] at hlen
    omega
  have hbeh : ∀ later', s.arrivals.flatten ++ later' = sent.flatten →
      rest.flatten ++ later' = (sent.drop (k + 1)).flatten := by
    intro later' hlat'
    rw [append_cancel_left (hlat'.trans hlat.symm)]
    exact hrs
  split_ifs at hrd with hempty
  -- the end record
  · obtain ⟨hres, haft⟩ := Station.read_eq hrd
    refine .eof (k + 1) hres ?_ ?_ ?_ <;> rw [haft]
    · exact append_nil _
    · refine ⟨hk, h.arrived, hbeh, ?_, ?_, fun _ => hdecd⟩
      · rw [flatten_take_succ hp, ← h.returned, hempty, append_nil]
        show s.returned ++ [] ++ s.conn.decoded = s.returned ++ s.conn.decoded
        rw [append_nil]
      · rw [mem_take_succ hp]
        exact ⟨fun _ => .inr hempty, fun _ => rfl⟩
  obtain ⟨hres, haft⟩ := Station.read_eq hrd
  refine .count (p.take size) (k + 1) hres (length_take_le _ _) (fun _ => take_ne_nil hsz hempty) ?_ ?_ <;>
    rw [haft]
  · rfl
  · refine ⟨hk, h.arrived, hbeh, ?_, ?_, fun habs => absurd habs (ne_true_of_eq_false heof)⟩
    · show s.returned ++ p.take size ++ p.drop size = (plains.take (k + 1)).flatten
      rw [append_assoc, take_append_drop, flatten_take_succ hp, ← h.returned, hdecd, append_nil]
    · rw [mem_take_succ hp, ← h.eof]
      exact ⟨.inl, fun hor => hor.resolve_right hempty⟩

/-- **One `Read`** at the records of a peer. -/
theorem Hears.read (hseal : List.Forall₂ (Sealed C key) plains sent)
    (hbdd : ∀ p ∈ plains, p.length ≤ maxAEADPlaintext) (size : Nat) : Outcome C key s plains sent k size := by
  cases heof : s.conn.readEOF with
  | true => exact h.read_ended heof
  | false =>
    by_cases hsz : size = 0
    · subst hsz
      exact h.read_zero heof
    by_cases hdecd : s.conn.decoded = []
    · rcases lt_or_ge k plains.length with hk | hk
      · exact h.read_next hseal hbdd heof hsz hdecd hk
      · exact h.read_all hseal.length_eq heof hsz hdecd (le_antisymm h.reached hk)
    · exact h.read_decoded heof hsz hdecd

/-! ## The other calls -/

omit h in
theorem Sends.write (h : Sends C key s plains) (pt : Bytes) :
    ∃ plains' sent', (s.write C key pt).sent = s.sent ++ sent' ∧
      Sends C key (s.write C key pt) (plains ++ plains') := by
  obtain ⟨hsm, ⟨hnone, hempty⟩ | ⟨ho, hok, hseal⟩⟩ := write_cases C key s.conn pt
  -- nothing was put on the network, and nothing was accepted
  · refine ⟨[], [], ?_, ?_⟩
    · show s.sent ++ (s.conn.write C key pt).2.1 = s.sent ++ []
      rw [hnone]
    rw [append_nil]
    refine { h with sealed := ?_, written := ?_, closed := fun hend => hsm.writeClosed.trans (h.closed hend) }
    · show List.Forall₂ _ plains (s.sent ++ (s.conn.write C key pt).2.1)
      rw [hnone, append_nil]
      exact h.sealed
    · show plains.flatten = s.written ++ (if (s.conn.write C key pt).2.2.isOk then pt else [])
      rw [h.written]
      cases hres : (s.conn.write C key pt).2.2 with
      | error e => exact (append_nil _).symm
      | ok n =>
        rw [hempty n hres]
        exact (append_nil _).symm
  have hend := h.unended ho
  refine ⟨batch pt, (s.conn.write C key pt).2.1, rfl, ?_⟩
  refine ⟨rel_append h.sealed hseal, ?_, ?_, ?_, fun habs => absurd habs (ne_true_of_eq_false hend)⟩
  · show _ = s.written ++ (if (s.conn.write C key pt).2.2.isOk then pt else [])
    rw [hok, flatten_append, h.written, batch_flatten]
    rfl
  · exact forall_mem_append.mpr ⟨h.bounded, fun p hp => (mem_batch hp).2⟩
  · obtain ⟨data, hdt, hne⟩ := h.ending
    rw [hend, if_neg Bool.false_ne_true, append_nil] at hdt
    refine ⟨data ++ batch pt, ?_, forall_mem_append.mpr ⟨hne, fun p hp => (mem_batch hp).1⟩⟩
    show plains ++ batch pt = data ++ batch pt ++ (if s.ended then [[]] else [])
    rw [hend, if_neg Bool.false_ne_true, append_nil, hdt]

omit h in
/-- `writeEOF` adds the empty record, unless it did before or the counter is used up. -/
theorem Sends.writeEOF (h : Sends C key s plains) : ∃ plains' sent', (s.writeEOF C key).sent = s.sent ++ sent' ∧
      Sends C key (s.writeEOF C key) (plains ++ plains') := by
  obtain ⟨hcl, -, -, hnone | ⟨ho, bytes, hrec, hseal⟩⟩ := writeEOF_cases C key s.conn
  · have hsn : (s.writeEOF C key).sent = s.sent := by
      show s.sent ++ (s.conn.writeEOF C key).2.1 = s.sent
      rw [hnone, append_nil]
    have hend : (s.writeEOF C key).ended = s.ended := by
      show (s.ended || !(s.conn.writeEOF C key).2.1.isEmpty) = s.ended
      rw [hnone]
      exact Bool.or_false _
    refine ⟨[], [], by rw [hsn, append_nil], ?_⟩
    rw [append_nil]
    refine ⟨?_, h.written, h.bounded, ?_, fun _ => hcl⟩
    · rw [hsn]
      exact h.sealed
    · rw [hend]
      exact h.ending
  have hend := h.unended ho
  have hsn : (s.writeEOF C key).sent = s.sent ++ [bytes] := by
    show s.sent ++ (s.conn.writeEOF C key).2.1 = s.sent ++ [bytes]
    rw [hrec]
  have hend' : (s.writeEOF C key).ended = true := by
    show (s.ended || !(s.conn.writeEOF C key).2.1.isEmpty) = true
    rw [hrec]
    exact Bool.or_true _
  refine ⟨[[]], [bytes], hsn, ?_, ?_, ?_, ?_, fun _ => hcl⟩
  · rw [hsn]
    exact rel_append h.sealed (.cons hseal .nil)
  · rw [flatten_append, h.written]
    exact append_nil _
  · exact forall_mem_append.mpr ⟨h.bounded, forall_mem_singleton.mpr (Nat.zero_le _)⟩
  · obtain ⟨data, hdt, hne⟩ := h.ending
    rw [hend, if_neg Bool.false_ne_true, append_nil] at hdt
    refine ⟨data, ?_, hne⟩
    rw [hend', if_pos rfl, hdt]

omit h in
theorem Sends.read (h : Sends C key s plains) (size : Nat) : Sends C key (s.read C key size) plains :=
  { h with closed := fun hend => (read_writeClosed s.conn s.pieces size).trans (h.closed hend) }

theorem Hears.write (p : Bytes) : Hears (s.write C key p) plains sent k := by
  have hsm := (write_cases C key s.conn p).1
  exact { h.same hsm.decoded hsm.readEOF with }

theorem Hears.writeEOF : Hears (s.writeEOF C key) plains sent k := by
  obtain ⟨-, hdecd, heof, -⟩ := writeEOF_cases C key s.conn
  exact { h.same hdecd heof with }

/-! ## What follows for the streams -/

theorem Hears.inOrder : s.returned <+: plains.flatten := by
  have hhd : (plains.take k).flatten <+: plains.flatten := by
    refine ⟨(plains.drop k).flatten, ?_⟩
    rw [← flatten_append, take_append_drop]
  exact (prefix_append _ _).trans (h.returned ▸ hhd)

theorem Hears.all (hk : plains.take k = plains) (hdecd : s.conn.decoded = []) : s.returned = plains.flatten := by
  rw [← append_nil s.returned, ← hdecd, h.returned, hk]

end

/-- The empty plaintext is the last one: once it was heard, everything was. -/
theorem Sends.heard_end (h : Sends C key s plains) (hk : [] ∈ plains.take k) :
    s.ended = true ∧ plains.take k = plains := by
  obtain ⟨data, hdt, hne⟩ := h.ending
  cases hend : s.ended with
  | false =>
    rw [hend, if_neg Bool.false_ne_true, append_nil] at hdt
    exact absurd rfl (hne [] (hdt ▸ mem_of_mem_take hk))
  | true =>
    rw [hend, if_pos rfl] at hdt
    refine ⟨rfl, take_of_length_le ?_⟩
    by_contra hsh
    rw [hdt, length_append, length_singleton] at hsh
    rw [hdt, take_append_of_le_length (by omega)] at hk
    exact hne [] (mem_of_mem_take hk) rfl

/-- The plaintexts of an end that has sent the end record have an empty one. -/
theorem Sends.nil_mem (h : Sends C key s plains) (hend : s.ended = true) : [] ∈ plains := by
  obtain ⟨data, hdt, -⟩ := h.ending
  rw [hdt, hend, if_pos rfl]
  exact mem_append_right _ (mem_singleton_self _)

end

/-! ## Both directions -/

namespace Connection

variable {ν : Type} {K : Connection} {s : End → Station}

/-- Each end has heard the first records of the other one. -/
def Joined (K : Connection) (s : End → Station) : Prop :=
  ∀ e, ∃ plains k, Sends K.aead K.key (s e.other) plains ∧ Hears (s e) plains (s e.other).sent k

theorem joined_start : Joined K K.start := by
  intro e
  refine ⟨[], 0, ⟨.nil, rfl, nofun, ⟨[], rfl, nofun⟩, nofun⟩, le_rfl, prefix_rfl, ?_, rfl, ?_, nofun⟩
  · intro later hlat
    exact hlat
  · exact ⟨nofun, nofun⟩

/-- An end goes on: it may send more records and may hear more of the other one. -/
theorem Joined.update (h : Joined K s) (e : End) {nx : Station} (hsnd : ∀ plains, Sends K.aead K.key (s e) plains →
      ∃ plains' sent', nx.sent = (s e).sent ++ sent' ∧ Sends K.aead K.key nx (plains ++ plains'))
    (hhears : ∀ plains k, Sends K.aead K.key (s e.other) plains → Hears (s e) plains (s e.other).sent k →
      ∃ k', Hears nx plains (s e.other).sent k') : Joined K (update s e nx) := by
  intro r
  obtain ⟨plains, k, hsend, hhear⟩ := h r
  by_cases hr : r = e
  -- the end as the reader
  · subst hr
    obtain ⟨k', hhear'⟩ := hhears plains k hsend hhear
    rw [update_self, update_of_ne r.other_ne]
    exact ⟨plains, k', hsend, hhear'⟩
  -- the end as the writer
  have hoth : r.other = e := by
    cases r <;> cases e <;> first | rfl | exact absurd rfl hr
  subst hoth
  obtain ⟨plains', sent', hsn, hsend'⟩ := hsnd plains hsend
  rw [update_self, update_of_ne hr]
  refine ⟨plains ++ plains', k, hsend', ?_⟩
  rw [hsn]
  exact hhear.more hsend.sealed.length_eq plains' sent'

/-- What the transport delivers comes next in the stream. -/
def Ordered (piece : (End → Station) → ν → End × Bytes) (s : End → Station) : Event ν → Prop
  | .network n =>
    (s (piece s n).1).arrivals.flatten ++ (piece s n).2 <+: (s (piece s n).1.other).sent.flatten
  | _ => True

/-- **One event** of an ordered run. -/
theorem Joined.step {p : (End → Station) → ν → End × Bytes} (h : Joined K s) {ev : Event ν}
    (hord : Ordered p s ev) : Joined K (K.step p s ev) := by
  have hqt : ∀ {e : End} {next : Station} (plains : List Bytes), next.sent = (s e).sent →
      Sends K.aead K.key next plains →
      ∃ plains' sent', next.sent = (s e).sent ++ sent' ∧ Sends K.aead K.key next (plains ++ plains') := by
    intro e next plains hsn hsend
    exact ⟨[], [], by rw [hsn, append_nil], by rwa [append_nil]⟩
  cases ev with
  | write e plaintext =>
    exact h.update e (fun _ hsend => hsend.write plaintext) fun _ k _ hhear => ⟨k, hhear.write plaintext⟩
  | writeEOF e => exact h.update e (fun _ hsend => hsend.writeEOF) fun _ k _ hhear => ⟨k, hhear.writeEOF⟩
  | read e size =>
    refine h.update e (fun plains hsend => hqt plains rfl (hsend.read size)) ?_
    intro plains k hsend hhear
    cases hhear.read hsend.sealed hsend.bounded size with
    | waits _ _ hsm =>
      rw [hsm]
      exact ⟨k, hhear⟩
    | count _ k' _ _ _ _ hhear' | eof k' _ _ _ hhear' => exact ⟨k', hhear'⟩
  | network n =>
    refine h.update _ (fun plains hsend => hqt plains rfl { hsend with }) ?_
    intro plains k _ hhear
    exact ⟨k, hhear.arrive hord⟩

/-! ## The round trip -/

/-- A faithful stream: what a reader has returned and can return of what the other end has written. -/
structure RoundTrip (K : Connection) (reader writer : Station) : Prop where
  /-- What was returned is the front of what was written. -/
  inOrder : reader.returned <+: writer.written
  /-- A `Read` never fails. -/
  succeeds : ∀ size e, reader.result K.aead K.key size ≠ .failed e
  /-- A `Read` that returns bytes returns at least one, unless its destination is empty, and the next ones. -/
  returns : ∀ size bytes, reader.result K.aead K.key size = .count bytes →
    bytes.length ≤ size ∧ (size ≠ 0 → bytes ≠ []) ∧ reader.returned ++ bytes <+: writer.written
  /-- Nothing is lost: while bytes are missing, a `Read` returns some once everything has arrived. -/
  complete : reader.arrivals.flatten = writer.sent.flatten → reader.returned ≠ writer.written →
    ∀ size, size ≠ 0 → ∃ bytes, reader.result K.aead K.key size = .count bytes
  /-- The end is reported after all bytes of a writer that has sent the end record. -/
  ends : ∀ size, reader.result K.aead K.key size = .eof → writer.ended = true ∧ reader.returned = writer.written
  /-- It is reported as soon as all has arrived and was returned. -/
  reported : reader.arrivals.flatten = writer.sent.flatten → reader.returned = writer.written →
    writer.ended = true → ∀ size, size ≠ 0 → reader.result K.aead K.key size = .eof

theorem Joined.roundTrip (h : Joined K s) (e : End) : RoundTrip K (s e) (s e.other) := by
  obtain ⟨plains, k, hsend, hhear⟩ := h e
  have hout := hhear.read hsend.sealed hsend.bounded
  refine ⟨hsend.written ▸ hhear.inOrder, ?_, ?_, ?_, ?_, ?_⟩
  · intro size err hfail
    cases hout size with
    | waits _ hres | count _ _ hres | eof _ hres => simp [hres] at hfail
  · intro size bytes hcnt
    cases hout size with
    | waits _ hres | eof _ hres => simp [hres] at hcnt
    | count bytes' k' hres hlen hby hret hhear' =>
      rw [hres] at hcnt
      cases hcnt
      exact ⟨hlen, hby, hsend.written ▸ hret ▸ hhear'.inOrder⟩
  · intro hall hmis size hsz
    cases hout size with
    | count bytes _ hres => exact ⟨bytes, hres⟩
    | waits _ _ _ _ hdecd hdry =>
      have hk : k = plains.length := hdry.resolve_right (not_not.mpr hall)
      exact absurd (hsend.written ▸ hhear.all (take_of_length_le hk.ge) hdecd) hmis
    | eof k' _ hret hmar hhear' =>
      have hfull := (hsend.heard_end (hhear'.eof.mp hmar)).2
      exact absurd (hsend.written ▸ hret ▸ hhear'.all hfull (hhear'.drained hmar)) hmis
  · intro size heof
    cases hout size with
    | waits _ hres | count _ _ hres => simp [hres] at heof
    | eof k' _ hret hmar hhear' =>
      obtain ⟨hend, hfull⟩ := hsend.heard_end (hhear'.eof.mp hmar)
      exact ⟨hend, hsend.written ▸ hret ▸ hhear'.all hfull (hhear'.drained hmar)⟩
  intro hall hret hend size hsz
  cases hout size with
  | eof _ hres => exact hres
  | waits _ _ _ heof _ hdry =>
    -- everything was read, the end record with it
    have hk : k = plains.length := hdry.resolve_right (not_not.mpr hall)
    have hmem : [] ∈ plains.take k := by
      rw [hk, take_length]
      exact hsend.nil_mem hend
    rw [hhear.eof.mpr hmem] at heof
    cases heof
  | count bytes k' _ _ hby hret' hhear' =>
    have hfro : (s e).returned ++ bytes <+: (s e).returned := by
      rw [← hret', hret, ← hsend.written]
      exact hhear'.inOrder
    have hlen := hfro.length_le
    rw [length_append] at hlen
    exact absurd (eq_nil_of_length_eq_zero (by omega)) (hby hsz)

/-! ### A reliable transport -/

/-- A transport that delivers the next bytes of the stream, as many as it likes. -/
def nextBytes (s : End → Station) (n : End × Nat) : End × Bytes :=
  (n.1, ((s n.1.other).sent.flatten.drop (s n.1).arrivals.flatten.length).take n.2)

theorem Joined.ordered (h : Joined K s) (ev : Event (End × Nat)) : Ordered nextBytes s ev := by
  cases ev with
  | write | writeEOF | read => trivial
  | network n =>
    obtain ⟨plains, k, -, hhear⟩ := h n.1
    obtain ⟨later, hlat⟩ := hhear.arrived
    show (s n.1).arrivals.flatten ++ ((s n.1.other).sent.flatten.drop _).take n.2 <+: (s n.1.other).sent.flatten
    rw [← hlat, drop_left, prefix_append_right_inj]
    exact take_prefix _ _

/-- **The round trip.** Over a transport that delivers the stream in order, in pieces of any size, for all sequences
    of calls at both ends: what an end has returned is the front of what the other one has written, no byte of it is
    lost on either path of `Read`, and the end is reported after all bytes, if and only if the end record was sent. -/
theorem round_trip (K : Connection) (es : List (Event (End × Nat))) (e : End) :
    RoundTrip K (K.run nextBytes es e) (K.run nextBytes es e.other) := by
  have hjoined : Joined K (K.run nextBytes es) :=
    foldl_invariant (fun s ev h => h.step (h.ordered ev)) joined_start es
  exact hjoined.roundTrip e

/-! ### A transport that chooses among the records -/

/-- A delivery: to `reader`, the record with this index among those that `origin` has sent. -/
structure Delivery where
  reader : End
  origin : End
  index : Nat

/-- A transport that delivers authentic records, and nothing where there is no such record. -/
def anyRecord (s : End → Station) (d : Delivery) : End × Bytes :=
  (d.reader, ((s d.origin).sent[d.index]?).getD [])

/-- The record that is delivered is the next one of the peer. -/
def NextRecord (s : End → Station) : Event Delivery → Prop
  | .network d => d.origin = d.reader.other ∧ d.index = (s d.reader).arrivals.length ∧
      d.index < (s d.reader.other).sent.length
  | _ => True

theorem sent_grows {p : (End → Station) → ν → End × Bytes} (ev : Event ν) (e : End) :
    (s e).sent <+: (K.step p s ev e).sent := by
  have hupd : ∀ {e' : End} {next : Station}, (s e').sent <+: next.sent → (s e).sent <+: (update s e' next e).sent := by
    intro e' next hnx
    by_cases he : e = e'
    · subst he
      rwa [update_self]
    · rw [update_of_ne he]
  cases ev with
  | write e' plaintext | writeEOF e' => exact hupd (prefix_append _ _)
  | read e' size | network n => exact hupd prefix_rfl

/-- The records that were delivered to each end are the first ones of the other. -/
def InTurn (s : End → Station) : Prop := ∀ e, (s e).arrivals <+: (s e.other).sent

/-- The next record goes behind those that were delivered. -/
theorem InTurn.next (h : InTurn s) {d : Delivery} (hnx : NextRecord s (.network d)) :
    (s d.reader).arrivals ++ [(anyRecord s d).2] <+: (s d.reader.other).sent := by
  obtain ⟨horig, hidx, hlt⟩ := hnx
  obtain ⟨back, hback⟩ := h d.reader
  rw [anyRecord, horig]
  simp only [← hback] at hlt ⊢
  cases back with
  | nil => simp [hidx] at hlt
  | cons record back => exact ⟨back, by simp [hidx]⟩

theorem InTurn.step (h : InTurn s) {ev : Event Delivery} (hnx : NextRecord s ev) :
    InTurn (K.step anyRecord s ev) := by
  intro e
  refine List.IsPrefix.trans ?_ (sent_grows ev e.other)
  have hupd : ∀ {e' : End} {next : Station}, next.arrivals <+: (s e'.other).sent →
      (update s e' next e).arrivals <+: (s e.other).sent := by
    intro e' next hturn
    by_cases he : e = e'
    · subst he
      rwa [update_self]
    · rw [update_of_ne he]
      exact h e
  cases ev with
  | write e' plaintext | writeEOF e' | read e' size => exact hupd (h e')
  | network d => exact hupd (h.next hnx)

theorem InTurn.ordered (h : InTurn s) {ev : Event Delivery} (hnx : NextRecord s ev) : Ordered anyRecord s ev := by
  cases ev with
  | write | writeEOF | read => trivial
  | network d =>
    obtain ⟨back, hback⟩ := h.next hnx
    refine ⟨back.flatten, ?_⟩
    show (s d.reader).arrivals.flatten ++ (anyRecord s d).2 ++ back.flatten = (s d.reader.other).sent.flatten
    rw [← hback, flatten_append, flatten_append, flatten_singleton]

/-- **Integrity of the data plane, for records in order.** If every record that the transport delivers is the next one
    of the peer, what an end returns is the front of what the peer has written. -/
theorem records_in_order (K : Connection) {es : List (Event Delivery)}
    (h : Along (K.step anyRecord) NextRecord K.start es) (e : End) :
    (K.run anyRecord es e).returned <+: (K.run anyRecord es e.other).written := by
  have hinvariant : Joined K (K.run anyRecord es) ∧ InTurn (K.run anyRecord es) := by
    refine h.invariant (I := fun s => Joined K s ∧ InTurn s) ?_ ⟨joined_start, fun e => prefix_rfl⟩
    rintro s ev ⟨hjoined, hturn⟩ hnext
    exact ⟨hjoined.step (hturn.ordered hnext), hturn.step hnext⟩
  exact (hinvariant.1.roundTrip e).inOrder

/-- A connection with a checksum for its cipher. -/
def sample : Connection where
  aead := .checksum
  key := [7]
  noncePrefix := fun e => replicate 8 (if e = .client then 0 else 1)
  length_noncePrefix := fun _ => length_replicate

/-- The client writes two bytes and one more, and the agent reads them in three calls. -/
def orderedRun : List (Event Delivery) :=
  [.write .client [1, 2], .write .client [3], .network ⟨.agent, .client, 0⟩, .read .agent 1, .read .agent 8,
    .network ⟨.agent, .client, 1⟩, .read .agent 8]

instance (s : End → Station) : ∀ ev, Decidable (NextRecord s ev)
  | .network _ => inferInstanceAs (Decidable (_ ∧ _ ∧ _))
  | .write _ _ | .writeEOF _ | .read _ _ => inferInstanceAs (Decidable True)

theorem records_in_order_sample : (sample.run anyRecord orderedRun .agent).returned = [1, 2, 3] ∧
    (sample.run anyRecord orderedRun .agent).returned <+: (sample.run anyRecord orderedRun .client).written :=
  ⟨by decide +kernel, records_in_order sample (by decide +kernel) .agent⟩

/-- **Records are accepted again and by their own writer.** The client writes one byte: delivered twice, it is
    returned twice to the agent; delivered to the client, it is returned to the client, to which nothing was written. -/
theorem records_replayed : (sample.run anyRecord [.write .client [1], .network ⟨.agent, .client, 0⟩, .read .agent 8,
        .network ⟨.agent, .client, 0⟩, .read .agent 8] .agent).returned = [1, 1] ∧
    (sample.run anyRecord [.write .client [1], .network ⟨.agent, .client, 0⟩, .read .agent 8,
        .network ⟨.agent, .client, 0⟩, .read .agent 8] .client).written = [1] ∧
    (sample.run anyRecord [.write .client [1], .network ⟨.client, .client, 0⟩, .read .client 8] .client).returned
      = [1] ∧
    (sample.run anyRecord [.write .client [1], .network ⟨.client, .client, 0⟩, .read .client 8] .agent).written
      = [] := by
  decide +kernel

end Connection

end Shadow6.CoreGo
