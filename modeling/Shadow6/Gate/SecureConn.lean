import Shadow6.Library.Aead
import Shadow6.Library.Framing
import Shadow6.Library.Machine

/-!
# `Gate.SecureConn` — the secure stream of a gate

`secureConn.Write` and `secureConn.Read` of `Gate/protocol.go`, from the state in which `handshake` leaves both ends:
separate traffic keys for the two directions, and the record `S6F2` that confirms the keys sent and read on each side
under counter 0. The network may put any bytes in the place of those that were sent, and may break the connection at
any call; a `Read` that waits for bytes is taken to happen when they are there or the connection breaks.

That the cipher is unforgeable is a condition on a run (`Unforged`): what opens under a key and a nonce is the
plaintext of a record that an end with this traffic key has handed to its connection under this nonce. The keys and
counters then single out one record, and what is returned is the front of what the peer wrote (`stream_authentic`).
-/

namespace Shadow6.Gate

open Library List Function

/-- `^uint64(0)`. -/
def maxUint64 : Nat := 2 ^ 64 - 1

/-- `recvAEAD.Overhead()` of AES-GCM. -/
def overhead : Nat := 16

/-- The nonce of a counter: four zero bytes and the counter. -/
def nonce (counter : Nat) : Bytes := replicate 4 0 ++ toBE 8 counter

theorem nonce_inj {i j : Nat} (hi : i ≤ maxUint64) (hj : j ≤ maxUint64) (h : nonce i = nonce j) : i = j := by
  have hlt : maxUint64 < 256 ^ 8 := by decide
  have htail : toBE 8 i = toBE 8 j := append_cancel_left h
  rw [← ofBE_toBE_of_lt (lt_of_le_of_lt hi hlt), ← ofBE_toBE_of_lt (lt_of_le_of_lt hj hlt), htail]

/-- `secureConn`; the ciphers are given by their keys, which the session has. -/
structure SecureConn where
  closed : Bool
  pending : Bytes
  send : Nat
  recv : Nat

namespace SecureConn

/-- `s.Close()`. -/
def close (s : SecureConn) : SecureConn := { s with closed := true }

/-! ## `Write` -/

inductive WriteError where
  | sequenceExhausted
  | connection
  deriving DecidableEq

/-- What a `Write` has done: the connection, the counters and plaintexts of the records it has begun to hand to the
    network, the count it returns, and its error. -/
structure Written where
  conn : SecureConn
  handed : List (Nat × Bytes)
  count : Nat
  error : Option WriteError

/-- The loop of `Write` over its chunks. The network takes `room` records before a write to it fails. -/
def writeLoop (s : SecureConn) (room : Option Nat) : List Bytes → Written
  | [] => ⟨s, [], 0, none⟩
  | chunk :: rest =>
    if s.send = maxUint64 then ⟨s.close, [], 0, some .sequenceExhausted⟩
    else if s.closed then ⟨{ s with send := s.send + 1 }, [], 0, some .connection⟩
    -- part of the record may be on the network
    else if room = some 0 then ⟨{ s with send := s.send + 1, closed := true }, [(s.send, chunk)], 0,
        some .connection⟩
    else
      let w := writeLoop { s with send := s.send + 1 } (room.map (· - 1)) rest
      { w with handed := (s.send, chunk) :: w.handed, count := chunk.length + w.count }

/-- `Write(p)` with chunks of at most `max` bytes. -/
def write (max : Nat) (s : SecureConn) (room : Option Nat) (p : Bytes) : Written :=
  writeLoop s room ((range (chunkCount p.length max)).map (chunk max p))

/-! ## `Read` -/

inductive ReadError where
  | sequenceExhausted
  | connection
  | invalidLength
  | authenticationFailed
  deriving DecidableEq

inductive ReadResult where
  | waits
  | count (bytes : Bytes)
  | failed (e : ReadError)
  deriving DecidableEq

/-- The bytes a `Read` has put into its destination. -/
def ReadResult.bytes : ReadResult → Bytes
  | .count bytes => bytes
  | _ => []

/-- The check on the length of a frame. -/
def admits (max length : Nat) : Bool := !decide (length ≤ overhead) && !decide (max + overhead < length)

/-- Whether a `Read` gets to a frame of the network. -/
def readsFrame (s : SecureConn) (size : Nat) : Bool :=
  !decide (size = 0) && s.pending.isEmpty && !decide (s.recv = maxUint64) && !s.closed

/-- `Read(p)` for a destination of the given size; `broken` says that the network delivers no more. -/
def read (C : Aead) (key : Bytes) (max : Nat) (s : SecureConn) (pieces : List Bytes) (size : Nat) (broken : Bool) :
    SecureConn × List Bytes × ReadResult :=
  if size = 0 then (s, pieces, .count [])
  else if s.pending ≠ [] then ({ s with pending := s.pending.drop size }, pieces, .count (s.pending.take size))
  else if s.recv = maxUint64 then (s.close, pieces, .failed .sequenceExhausted)
  else if s.closed then (s, pieces, .failed .connection)
  else match readFrame (admits max) pieces with
  | .waits => if broken then (s.close, pieces, .failed .connection) else (s, pieces, .waits)
  | .refused rest => (s.close, rest, .failed .invalidLength)
  | .got body rest =>
    match C.decrypt key (nonce s.recv) [] body with
    | none => ({ s with recv := s.recv + 1, closed := true }, rest, .failed .authenticationFailed)
    | some plain => ({ s with recv := s.recv + 1, pending := plain.drop size }, rest, .count (plain.take size))

/-- The plaintext of the record that a `Read` opens, if it opens one. -/
def opens (C : Aead) (key : Bytes) (max : Nat) (s : SecureConn) (pieces : List Bytes) (size : Nat) : Option Bytes :=
  if s.readsFrame size then
    match readFrame (admits max) pieces with
    | .got body _ => C.decrypt key (nonce s.recv) [] body
    | _ => none
  else none

section

variable (C : Aead) (key : Bytes) (max : Nat) (s : SecureConn) (ps : List Bytes) (sz : Nat) (br : Bool)

/-- **What a `Read` can do**: return nothing, the connection closed or left as it was; return from what was left over;
    or open a record. -/
theorem read_cases {r : SecureConn × List Bytes × ReadResult} (hr : read C key max s ps sz br = r) :
    r.2.2.bytes = [] ∧ r.1.pending = s.pending ∧ (r.1.closed = false → s.closed = false ∧ r.1.recv = s.recv) ∨
    r.2.2.bytes = s.pending.take sz ∧ r.1.pending = s.pending.drop sz ∧
      (r.1.closed = false → s.closed = false ∧ r.1.recv = s.recv) ∨
    ∃ plain ∈ s.opens C key max ps sz, s.pending = [] ∧ s.closed = false ∧ r.2.2.bytes = plain.take sz ∧
      r.1.pending = plain.drop sz ∧ r.1.recv = s.recv + 1 := by
  unfold read at hr
  split at hr
  · subst hr
    exact .inl ⟨rfl, rfl, fun h => ⟨h, rfl⟩⟩
  rename_i hsz
  split at hr
  · subst hr
    exact .inr (.inl ⟨rfl, rfl, fun h => ⟨h, rfl⟩⟩)
  rename_i hpend
  split at hr
  · subst hr
    exact .inl ⟨rfl, rfl, nofun⟩
  rename_i hrecv
  split at hr
  · subst hr
    exact .inl ⟨rfl, rfl, fun h => ⟨h, rfl⟩⟩
  rename_i hcl
  -- a frame of the network
  split at hr
  · split at hr <;> subst hr
    · exact .inl ⟨rfl, rfl, nofun⟩
    · exact .inl ⟨rfl, rfl, fun h => ⟨h, rfl⟩⟩
  · subst hr
    exact .inl ⟨rfl, rfl, nofun⟩
  rename_i body rest hfr
  split at hr <;> subst hr
  · exact .inl ⟨rfl, rfl, nofun⟩
  rename_i plain hpl
  have hrds : s.readsFrame sz = true := by
    simp [readsFrame, hsz, not_not.mp hpend, hrecv, hcl]
  refine .inr (.inr ⟨plain, ?_, not_not.mp hpend, Bool.eq_false_of_not_eq_true hcl, rfl, rfl, rfl⟩)
  rw [opens, if_pos hrds, hfr]
  exact hpl

/-- A `Read` sends nothing and opens no closed connection. -/
theorem read_sending : (read C key max s ps sz br).1.send = s.send ∧
    ((read C key max s ps sz br).1.closed = false → s.closed = false) := by
  have hcls : s.close.send = s.send ∧ (s.close.closed = false → s.closed = false) :=
    ⟨rfl, fun h => absurd h.symm Bool.false_ne_true⟩
  unfold read
  repeat' split
  all_goals first | exact ⟨rfl, id⟩ | exact hcls

end

end SecureConn

open SecureConn

/-! ## The two ends -/

inductive End where
  | initiator
  | responder
  deriving DecidableEq

def End.other : End → End
  | .initiator => .responder
  | .responder => .initiator

theorem End.other_ne (e : End) : e.other ≠ e := by
  cases e <;> decide

/-- What `handshake` has agreed on: a traffic key for each sender. The limits of the two ends are their own. -/
structure Session where
  aead : Aead
  traffic : End → Bytes
  traffic_ne : traffic .initiator ≠ traffic .responder
  max : End → Nat
  max_pos : ∀ e, 20 ≤ max e

/-- The key confirmation. -/
def finished : Bytes := [0x53, 0x36, 0x46, 0x32]

/-- An end, with its history. -/
structure Station where
  conn : SecureConn
  /-- The counters and plaintexts of the records it has handed to the network, the key confirmation first. -/
  records : List (Nat × Bytes)
  /-- The bytes that were delivered to it and are not read. -/
  pieces : List Bytes
  /-- The bytes that were given to `Write`. -/
  written : Bytes
  /-- The bytes that `Read` has returned. -/
  returned : Bytes

/-- Calls at the ends, and bytes that the network delivers. -/
inductive Event where
  | write (e : End) (p : Bytes) (room : Option Nat)
  | read (e : End) (size : Nat) (broken : Bool)
  | close (e : End)
  | deliver (e : End) (bytes : Bytes)

namespace Station

def write (max : Nat) (s : Station) (p : Bytes) (room : Option Nat) : Station :=
  let w := s.conn.write max room p
  { s with conn := w.conn, records := s.records ++ w.handed, written := s.written ++ p }

def read (C : Aead) (key : Bytes) (max : Nat) (s : Station) (size : Nat) (broken : Bool) : Station :=
  let (conn, pieces, result) := s.conn.read C key max s.pieces size broken
  { s with conn, pieces, returned := s.returned ++ result.bytes }

end Station

namespace Session

variable (S : Session)

/-- An end after the handshake: the key confirmations are sent and read. -/
def start (_ : End) : Station := ⟨⟨false, [], 1, 1⟩, [(0, finished)], [], [], []⟩

def step (s : End → Station) : Event → End → Station
  | .write e p room => update s e ((s e).write (S.max e) p room)
  | .read e size broken => update s e ((s e).read S.aead (S.traffic e.other) (S.max e) size broken)
  | .close e => update s e { s e with conn := (s e).conn.close }
  | .deliver e bytes => update s e { s e with pieces := (s e).pieces ++ [bytes] }

def run (es : List Event) : End → Station := es.foldl S.step start

/-- A record with this plaintext was handed to the network under this key and nonce. -/
def Handed (s : End → Station) (key n plain : Bytes) : Prop :=
  ∃ o ∈ [End.initiator, End.responder], S.traffic o = key ∧
    ∃ r ∈ (s o).records, nonce r.1 = n ∧ r.2 = plain

instance (s : End → Station) (key n plain : Bytes) : Decidable (S.Handed s key n plain) :=
  inferInstanceAs (Decidable (∃ o ∈ _, _ ∧ ∃ r ∈ _, _ ∧ _))

/-- The record that an event opens was not forged. -/
def Unforged (s : End → Station) : Event → Prop
  | .read e size _ =>
    ∀ plain ∈ (s e).conn.opens S.aead (S.traffic e.other) (S.max e) (s e).pieces size,
      S.Handed s (S.traffic e.other) (nonce (s e).conn.recv) plain
  | _ => True

instance (s : End → Station) : ∀ ev, Decidable (S.Unforged s ev)
  | .read _ _ _ => inferInstanceAs (Decidable (∀ plain ∈ _, S.Handed s _ _ plain))
  | .write _ _ _ | .close _ | .deliver _ _ => inferInstanceAs (Decidable True)

end Session

/-! ## What an end has handed to the network -/

/-- What the loop of `Write` does: it hands the first chunks to the network under the next counters, and all of them if
    the connection is still open. -/
structure WriteSpec (s : SecureConn) (chunks : List Bytes) (w : Written) : Prop where
  same : w.conn.pending = s.pending ∧ w.conn.recv = s.recv
  plains : w.handed.map Prod.snd <+: chunks
  counters : w.handed.map Prod.fst = range' s.send w.handed.length
  bounded : s.send ≤ maxUint64 → s.send + w.handed.length ≤ maxUint64
  shut : s.closed = true → w.handed = [] ∧ w.conn.closed = true
  complete : w.conn.closed = false → w.handed.map Prod.snd = chunks ∧ w.conn.send = s.send + w.handed.length

theorem writeLoop_spec (s : SecureConn) (room : Option Nat) (cs : List Bytes) :
    WriteSpec s cs (writeLoop s room cs) := by
  induction cs generalizing s room with
  | nil => exact ⟨⟨rfl, rfl⟩, prefix_rfl, rfl, id, fun h => ⟨rfl, h⟩, fun _ => ⟨rfl, rfl⟩⟩
  | cons chunk rest ih =>
    rw [writeLoop]
    split_ifs with hexh hcl hroom
    · exact ⟨⟨rfl, rfl⟩, nil_prefix, rfl, id, fun _ => ⟨rfl, rfl⟩, nofun⟩
    · refine ⟨⟨rfl, rfl⟩, nil_prefix, rfl, id, fun h => ⟨rfl, h⟩, fun h => ?_⟩
      exact absurd (h.symm.trans hcl) Bool.false_ne_true
    · refine ⟨⟨rfl, rfl⟩, ⟨rest, rfl⟩, rfl, fun h => ?_, fun h => absurd h hcl, nofun⟩
      show s.send + 1 ≤ maxUint64
      omega
    have hrs := ih { s with send := s.send + 1 } (room.map (· - 1))
    refine ⟨hrs.same, ?_, ?_, fun h => ?_, fun h => absurd h hcl, fun h => ?_⟩
    · exact prefix_cons_inj chunk |>.mpr hrs.plains
    · show s.send :: _ = range' s.send (_ + 1)
      rw [hrs.counters, range'_succ]
    · have hle := hrs.bounded (show s.send + 1 ≤ maxUint64 by omega)
      show s.send + (_ + 1) ≤ maxUint64
      dsimp only at hle
      omega
    obtain ⟨hpln, hsend⟩ := hrs.complete h
    constructor
    · show chunk :: _ = chunk :: rest
      rw [hpln]
    · show _ = s.send + (_ + 1)
      rw [hsend]
      dsimp only
      omega

/-- The plaintexts an end has handed to the network after the key confirmation. -/
def Station.data (s : Station) : List Bytes := (s.records.drop 1).map Prod.snd

/-- What an end has handed to the network: each record has its place for its counter, and the plaintexts are what was
    given to `Write`, up to the failure of the connection. -/
structure Sends (s : Station) : Prop where
  counters : s.records.map Prod.fst = range s.records.length
  confirmed : 0 < s.records.length
  bounded : s.records.length ≤ maxUint64
  next : s.conn.closed = false → s.conn.send = s.records.length
  front : s.data.flatten <+: s.written
  exact : s.conn.closed = false → s.data.flatten = s.written

section

variable {s : Station} {dt : List Bytes} {k : Nat} {s' : Station}

theorem Sends.record (h : Sends s) {r : Nat × Bytes} (hr : r ∈ s.records) :
    r.1 < s.records.length ∧ s.records[r.1]? = some r := by
  obtain ⟨i, hi, rfl⟩ := mem_iff_getElem.mp hr
  have hctr : (s.records.map Prod.fst)[i]? = some i := by
    rw [h.counters, getElem?_range hi]
  rw [getElem?_map, getElem?_eq_getElem hi] at hctr
  rw [Option.some.inj hctr]
  exact ⟨hi, getElem?_eq_getElem hi⟩

theorem Sends.write (h : Sends s) {max : Nat} (hmax : 0 < max) (p : Bytes) (r : Option Nat) :
    Sends (s.write max p r) ∧ s.records <+: (s.write max p r).records := by
  have hspec := writeLoop_spec s.conn r ((range (chunkCount p.length max)).map (chunk max p))
  have hchun : ((range (chunkCount p.length max)).map (chunk max p)).flatten = p := by
    exact flatMap_chunk hmax p
  have hconn : (s.write max p r).conn = (s.conn.write max r p).conn := rfl
  have hrecs : (s.write max p r).records = s.records ++ (s.conn.write max r p).handed := rfl
  have hwr : (s.write max p r).written = s.written ++ p := rfl
  have hdt : (s.write max p r).data = s.data ++ (s.conn.write max r p).handed.map Prod.snd := by
    rw [Station.data, Station.data, hrecs, drop_append_of_le_length h.confirmed, map_append]
  rw [← SecureConn.write] at hspec
  refine ⟨?_, hrecs ▸ prefix_append _ _⟩
  cases hcl : s.conn.closed with
  | true =>
    -- nothing leaves a closed connection
    obtain ⟨hnone, hshut⟩ := hspec.shut hcl
    have haft : s.write max p r = { s with conn := (s.conn.write max r p).conn, written := s.written ++ p } := by
      rw [Station.write, hnone, append_nil]
    rw [haft]
    exact { h with
      next := fun ho => absurd (hshut.symm.trans ho) (by decide)
      front := h.front.trans (prefix_append _ _)
      exact := fun ho => absurd (hshut.symm.trans ho) (by decide) }
  | false =>
    have hnx := h.next hcl
    refine ⟨?_, ?_, ?_, fun ho => ?_, ?_, fun ho => ?_⟩
    · rw [hrecs, map_append, h.counters, hspec.counters, hnx, length_append, range_add, ← range'_eq_map_range]
    · rw [hrecs, length_append]
      exact Nat.add_pos_left h.confirmed _
    · rw [hrecs, length_append, ← hnx]
      exact hspec.bounded (hnx ▸ h.bounded)
    · rw [hconn, hrecs, length_append, ← hnx]
      exact (hspec.complete ho).2
    · rw [hdt, hwr, flatten_append, h.exact hcl, prefix_append_right_inj]
      obtain ⟨rest, hrs⟩ := hspec.plains
      exact ⟨rest.flatten, by rw [← flatten_append, hrs, hchun]⟩
    · rw [hdt, hwr, flatten_append, h.exact hcl, (hspec.complete ho).1, hchun]

theorem Sends.read {C : Aead} {key : Bytes} {max : Nat} (h : Sends s) (size : Nat) (brk : Bool) :
    Sends (s.read C key max size brk) := by
  obtain ⟨hsend, ho⟩ := read_sending C key max s.conn s.pieces size brk
  exact { h with next := fun hc => hsend.trans (h.next (ho hc)), exact := fun hc => h.exact (ho hc) }

/-! ## What the other end has heard -/

/-- What an end has heard of these plaintexts: the first `k` of them. -/
structure Hears (s : Station) (data : List Bytes) (k : Nat) : Prop where
  reached : k ≤ data.length
  returned : s.returned ++ s.conn.pending = (data.take k).flatten
  next : s.conn.closed = false → s.conn.recv = k + 1

section

variable (h : Hears s dt k)
include h

theorem Hears.more {dt' : List Bytes} (hmore : dt <+: dt') : Hears s dt' k := by
  obtain ⟨rest, rfl⟩ := hmore
  refine ⟨?_, ?_, h.next⟩
  · rw [length_append]
    exact Nat.le_add_right_of_le h.reached
  · rw [take_append_of_le_length h.reached]
    exact h.returned

theorem Hears.same (hret : s'.returned = s.returned) (hpend : s'.conn.pending = s.conn.pending)
    (ho : s'.conn.closed = false → s.conn.closed = false ∧ s'.conn.recv = s.conn.recv) : Hears s' dt k := by
  refine ⟨h.reached, ?_, fun hc => ?_⟩
  · rw [hret, hpend]
    exact h.returned
  · rw [(ho hc).2]
    exact h.next (ho hc).1

/-- A `Write` may close the connection, and reads nothing. -/
theorem Hears.write {max : Nat} (p : Bytes) (r : Option Nat) : Hears (s.write max p r) dt k := by
  have hspec := writeLoop_spec s.conn r ((range (chunkCount p.length max)).map (chunk max p))
  refine h.same rfl hspec.same.1 fun ho => ⟨?_, hspec.same.2⟩
  cases hcl : s.conn.closed with
  | false => rfl
  | true => exact absurd (ho.symm.trans (hspec.shut hcl).2) Bool.false_ne_true

theorem Hears.front : s.returned <+: dt.flatten := by
  have hhd : (dt.take k).flatten <+: dt.flatten :=
    ⟨(dt.drop k).flatten, by rw [← flatten_append, take_append_drop]⟩
  exact (prefix_append _ _).trans (h.returned ▸ hhd)

theorem Hears.advance {p : Bytes} (hpl : dt[k]? = some p)
    (hret : s'.returned ++ s'.conn.pending = s.returned ++ s.conn.pending ++ p) (hrecv : s'.conn.recv = k + 2) :
    Hears s' dt (k + 1) := by
  refine ⟨(List.getElem?_eq_some_iff.mp hpl).1, ?_, fun _ => hrecv⟩
  rw [hret, h.returned, take_add_one, hpl, flatten_append]
  exact congrArg _ (append_nil p).symm

/-- **One `Read`.** If the plaintext that it opens is the next one, it goes on in the stream. -/
theorem Hears.read {C : Aead} {key : Bytes} {max : Nat} (size : Nat) (brk : Bool)
    (hopens : s.conn.closed = false → ∀ plain ∈ s.conn.opens C key max s.pieces size, dt[k]? = some plain) :
    ∃ k', Hears (s.read C key max size brk) dt k' := by
  have haft : s.read C key max size brk = { s with
    conn := (s.conn.read C key max s.pieces size brk).1, pieces := (s.conn.read C key max s.pieces size brk).2.1
    returned := s.returned ++ (s.conn.read C key max s.pieces size brk).2.2.bytes } := rfl
  generalize hr : s.conn.read C key max s.pieces size brk = r at haft
  rw [haft]
  rcases read_cases C key max s.conn s.pieces size brk hr with
    ⟨hby, hpend, ho⟩ | ⟨hby, hpend, ho⟩ | ⟨plain, hpl, hnil, hcl, hby, hpend, hrecv⟩
  · refine ⟨k, h.same ?_ hpend ho⟩
    rw [hby, append_nil]
  -- from what was left over
  · refine ⟨k, h.reached, ?_, fun hc => ?_⟩
    · rw [hby, hpend, append_assoc, take_append_drop, h.returned]
    · rw [(ho hc).2]
      exact h.next (ho hc).1
  refine ⟨k + 1, h.advance (hopens hcl plain hpl) ?_ ?_⟩
  · rw [hby, hpend, append_assoc, take_append_drop, hnil, append_nil]
  · rw [hrecv, h.next hcl]

end

end

/-! ## Both directions -/

namespace Session

variable {S : Session} {s : End → Station}

/-- Each end has heard the first records of the other one. -/
def Joined (s : End → Station) : Prop := ∀ e, Sends (s e) ∧ ∃ k, Hears (s e) (s e.other).data k

theorem joined_start : Joined start := by
  intro e
  have hbnd : 1 ≤ maxUint64 := by decide
  refine ⟨⟨rfl, Nat.one_pos, hbnd, fun _ => rfl, prefix_rfl, fun _ => rfl⟩, 0, Nat.zero_le _, rfl, ?_⟩
  intro _
  rfl

/-- An end goes on. -/
theorem Joined.update (h : Joined s) (e : End) {nx : Station} (hsnd : Sends nx)
    (hmore : (s e).data <+: nx.data) (hhears : ∀ k, Hears (s e) (s e.other).data k →
      ∃ k', Hears nx (s e.other).data k') : Joined (update s e nx) := by
  intro r
  obtain ⟨hsend, k, hhear⟩ := h r
  by_cases hr : r = e
  · subst hr
    rw [update_self, update_of_ne r.other_ne]
    exact ⟨hsnd, hhears k hhear⟩
  have hoth : r.other = e := by
    cases r <;> cases e <;> first | rfl | exact absurd rfl hr
  subst hoth
  rw [update_self, update_of_ne hr]
  exact ⟨hsend, k, hhear.more hmore⟩

theorem traffic_inj {e e' : End} (h : S.traffic e = S.traffic e') : e = e' := by
  cases e <;> cases e'
  · rfl
  · exact absurd h S.traffic_ne
  · exact absurd h.symm S.traffic_ne
  · rfl

/-- **Keys and counters single out one record.** A record that was handed to the network under the key and the nonce
    with which an end opens the next one is the next one of the other end. -/
theorem Joined.next (h : Joined s) {e : End} {k : Nat} (hhear : Hears (s e) (s e.other).data k)
    (hcl : (s e).conn.closed = false) {plain : Bytes}
    (hhan : S.Handed s (S.traffic e.other) (nonce (s e).conn.recv) plain) : (s e.other).data[k]? = some plain := by
  obtain ⟨o, -, hkey, r, hr, hnon, rfl⟩ := hhan
  obtain rfl : o = e.other := traffic_inj hkey
  have hsnd := (h e.other).1
  obtain ⟨hlt, hplc⟩ := hsnd.record hr
  have hrch : k + 1 ≤ (s e.other).records.length := by
    have hle := hhear.reached
    rw [Station.data, length_map, length_drop] at hle
    omega
  rw [hhear.next hcl] at hnon
  have hctr : r.1 = k + 1 :=
    nonce_inj (hlt.le.trans hsnd.bounded) (hrch.trans hsnd.bounded) hnon
  rw [hctr] at hplc
  rw [Station.data, getElem?_map, getElem?_drop, add_comm, hplc]
  rfl

/-- **One event**, if the record that it opens was not forged. -/
theorem Joined.step (h : Joined s) {ev : Event} (hunf : S.Unforged s ev) : Joined (S.step s ev) := by
  cases ev with
  | write e p room =>
    obtain ⟨hsnd, hrecs⟩ := (h e).1.write (lt_of_lt_of_le (by decide) (S.max_pos e)) p room
    refine h.update e hsnd ?_ fun k hhear => ⟨k, hhear.write p room⟩
    exact (hrecs.drop 1).map Prod.snd
  | read e size brk =>
    refine h.update e ((h e).1.read size brk) prefix_rfl fun k hhear => ?_
    exact hhear.read size brk fun hcl plain hpl => h.next hhear hcl (hunf plain hpl)
  | close e =>
    refine h.update e { (h e).1 with next := nofun, exact := nofun } prefix_rfl fun k hhear => ?_
    exact ⟨k, { hhear with next := nofun }⟩
  | deliver e bytes =>
    refine h.update e { (h e).1 with } prefix_rfl fun k hhear => ?_
    exact ⟨k, { hhear with }⟩

/-- **The secure stream is authentic.** For all sequences of calls at both ends and whatever bytes the network delivers,
    if no record is forged, what an end returns is the front of what the authenticated peer has written. -/
theorem stream_authentic (S : Session) {es : List Event} (h : Along S.step S.Unforged start es) (e : End) :
    (S.run es e).returned <+: (S.run es e.other).written := by
  have hjoined : Joined (S.run es) := h.invariant (fun _ _ hs hev => hs.step hev) joined_start
  obtain ⟨k, hhear⟩ := (hjoined e).2
  exact hhear.front.trans (hjoined e.other).1.front

/-- A session with a checksum for its cipher. -/
def sample : Session where
  aead := .checksum
  traffic := fun e => if e = .initiator then [7] else [8]
  traffic_ne := by decide
  max := fun _ => 20
  max_pos := fun _ => le_rfl

/-- A record under the key of the initiator. -/
def sampleRecord (counter : Nat) (plain : Bytes) : Bytes :=
  frame (Aead.checksum.encrypt [7] (nonce counter) [] plain)

/-- The initiator writes three bytes and one more; the network delivers the first record to the responder, then to the
    initiator, and then to the responder again. -/
def replayRun : List Event :=
  [.write .initiator [1, 2, 3] none, .write .initiator [4] none, .deliver .responder (sampleRecord 1 [1, 2, 3]),
    .deliver .initiator (sampleRecord 1 [1, 2, 3]), .deliver .responder (sampleRecord 1 [1, 2, 3]),
    .read .responder 2 false, .read .responder 8 false, .read .initiator 8 false, .read .responder 8 false]

theorem stream_authentic_replayed : (sample.run replayRun .responder).returned = [1, 2, 3] ∧
    (sample.run replayRun .initiator).returned = [] ∧
    (sample.run replayRun .responder).returned <+: (sample.run replayRun .initiator).written :=
  ⟨by decide +kernel, by decide +kernel, stream_authentic sample (by decide +kernel) .responder⟩

end Session

end Shadow6.Gate
