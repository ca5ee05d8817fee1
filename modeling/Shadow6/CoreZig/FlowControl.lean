import Shadow6.CoreZig.Delivery

/-!
# `CoreZig.FlowControl` — the receive window and what a sender may queue

A receiver acknowledges a packet when it has stored it, and moves its window when the packet is written to the local
connection. The sender counts only packets that are not acknowledged. So a receiver whose local connection is stalled
lets the sender go on until the packets leave its window, and drops what comes then (`full_window_drops`).

While a tunnel reads its local connection only with its next number in the window of the other one (`Paced`), every
packet that was sent is below the end of that window, and its arrival is answered (`packets_answered`).
-/

namespace Shadow6.CoreZig

open Library List Function Tunnel

/-! ## The header of a packet -/

def kindOf (w : Bytes) : Option Kind := (Session.slice w 5 1).head?.bind Kind.fromByte

def seqOf (w : Bytes) : Nat := ofBE (Session.slice w 32 8)

section

variable {A : Aead} {key sid data : Bytes} {kind : Kind} {ctr seq : Nat}

theorem kindOf_sealedPacket : kindOf (sealedPacket A key sid kind ctr seq data) = some kind := by
  unfold kindOf sealedPacket
  exact Kind.fromByte_toByte kind

theorem seqOf_sealedPacket (hsid : sid.length = 16) (hseq : seq < maxInt) :
    seqOf (sealedPacket A key sid kind ctr seq data) = seq := by
  unfold seqOf sealedPacket
  rw [(slice_headerOf kind ctr seq hsid _).2.2.2.2.2.2]
  exact ofBE_toBE_of_lt ((lt_of_lt_maxInt hseq).trans_eq (by norm_num))

end

namespace Tunnel

/-! ## What an event does to the queue -/

variable {C : Crypto} {st : Tunnel} {ch : Channel}

theorem queued_sendAck (seq : Nat) : (st.sendAck C ch seq).queued = st.queued := by
  unfold sendAck
  split <;> rfl

theorem queued_accept (data : Received) : (st.accept C ch data).queued = st.queued := by
  unfold accept
  split
  · rfl
  split
  · exact queued_sendAck _
  split
  · rfl
  · exact queued_sendAck _

theorem queued_receive (p : Bytes) (cs : Bool) (now : Int) : (st.receive C p cs now).queued = st.queued := by
  unfold receive
  split
  · rfl
  split
  · rfl
  split
  · rfl
  split
  · rfl
  · exact queued_accept _

theorem queued_service (ws : List (Option Nat)) (now : Int) : (st.service ws now).queued = st.queued := by
  unfold service
  split
  · rfl
  split
  · rfl
  split
  · rfl
  split
  · rfl
  · split <;> rfl

theorem length_queued_queueSend (kind : Kind) (data : Bytes) (now : Int) :
    (st.queueSend C ch kind data now).queued.length ≤ st.queued.length + 1 := by
  unfold queueSend
  split
  · exact Nat.le_succ _
  · exact length_append.le

/-- A tunnel reads its local connection only when it is polled for input. -/
theorem read_cases (inp : Bytes) (now : Int) :
    st.read C inp now = st ∨ ∃ ch, st.channel = some ch ∧ readable ch = true ∧
      (st.read C inp now).queued.length ≤ st.queued.length + 1 := by
  unfold read
  cases hch : st.channel with
  | none => exact .inl rfl
  | some ch =>
    dsimp only
    split
    · exact .inl rfl
    rename_i hrdb
    refine .inr ⟨ch, rfl, not_not.mp hrdb, ?_⟩
    split
    · exact length_queued_queueSend _ _ _
    · exact length_queued_queueSend _ _ _

/-! ## What an arrival does -/

theorem sendAck_eq (seq : Nat) (hctr : ch.secure.counter < maxInt) : st.sendAck C ch seq =
      { st with
        channel := some { ch with secure := { ch.secure with counter := ch.secure.counter + 1 } }
        wires := st.wires ++
          [sealedPacket C.aead ch.secure.txKey ch.secure.sid .ack ch.secure.counter seq []] } := by
  unfold sendAck Session.encode
  rw [if_neg (by
    rintro (hsz | hlim)
    · exact absurd hsz (Nat.not_lt_zero _)
    · omega)]
  rfl

variable {P : Pair} {e : End} {log : List (Kind × Bytes)} {up : Prop} {bs : Tunnel}

theorem Sound.nextRx_le (h : Sound P e log up bs st) : bs.nextRx ≤ st.nextRx := by
  cases hch : st.channel with
  | none =>
    unfold nextRx
    rw [(h.idle hch).2.2.2.2, hch]
  | some ch =>
    have honw := (h.live ch hch).onward
    unfold nextRx
    rw [hch]
    exact honw

/-- A packet of the peer gets to `accept`. -/
theorem receive_sealed {kind : Kind} {cn seq : Nat} {data w : Bytes} (cs : Bool) (now : Int)
    (hw : w = sealedPacket P.crypto.aead (P.key e.other) P.sid kind cn seq data)
    (hch : st.channel = some ch) (hret : ch.retired = false) (hsid : ch.secure.sid = P.sid)
    (hkey : ch.secure.rxKey = P.key e.other) (hsz : data.length ≤ payloadMax) (hdt : kind = .data ∨ data = [])
    (hctr : cn < maxInt) (hseq : seq < maxInt) : st.receive P.crypto w cs now =
      st.accept P.crypto { ch with secure := ch.secure.note cn, last := now } ⟨kind, seq, data⟩ := by
  subst hw
  have hdec := decode_sealed (C := P.crypto) (by rw [hsid]; exact P.sid_length) hkey hsz hdt
    (lt_of_lt_maxInt hctr) (lt_of_lt_maxInt hseq)
  rw [hsid] at hdec
  have hfd : st.find P.crypto (sealedPacket P.crypto.aead (P.key e.other) P.sid kind cn seq data) cs now
      = some ch := by
    unfold find
    rw [hch]
    show (if ch.secure.sid = Session.slice (headerOf P.sid kind cn seq ++ _) 8 16 then some ch else none) = some ch
    rw [(slice_headerOf kind cn seq P.sid_length _).2.2.2.2.1, if_pos hsid]
  unfold receive
  rw [length_sealedPacket (C := P.crypto) P.sid_length, if_neg (by unfold headerSize; omega), hfd]
  dsimp only
  rw [hret, hdec]
  rfl

/-- The arrival of a packet is answered: it was written before or it is in its slot now, and an acknowledgement for
    its number is sent. -/
def Answers (C : Crypto) (st : Tunnel) (w : Bytes) (connects : Bool) (now : Int) : Prop :=
  (∃ ack, (st.receive C w connects now).wires = st.wires ++ [ack] ∧ kindOf ack = some .ack ∧ seqOf ack = seqOf w) ∧
  (seqOf w < st.nextRx ∨ ∃ ch d, (st.receive C w connects now).channel = some ch ∧
    ch.secure.received (slotOf 256 (seqOf w)) = some d ∧ d.seq = seqOf w)

/-- **A packet below the end of the window is answered.** -/
theorem Live.answers {kind : Kind} {cn seq : Nat} {data : Bytes} (cs : Bool) (now : Int)
    (hl : Live P e log up bs st ch) (hch : st.channel = some ch) (hret : ch.retired = false)
    (hlim : ch.secure.counter < maxInt) (hkd : kind ≠ .ack) (hsz : data.length ≤ payloadMax)
    (hdt : kind = .data ∨ data = []) (hctr : cn < maxInt) (hseq : seq < maxInt)
    (hwin : seq < ch.secure.nextRx + window) :
    Answers P.crypto st (sealedPacket P.crypto.aead (P.key e.other) P.sid kind cn seq data) cs now := by
  have hrec : st.receive P.crypto (sealedPacket P.crypto.aead (P.key e.other) P.sid kind cn seq data)
      cs now = st.accept P.crypto { ch with secure := ch.secure.note cn, last := now } ⟨kind, seq, data⟩ :=
    receive_sealed cs now rfl hch hret hl.sid hl.rxKey hsz hdt hctr hseq
  obtain ⟨replay, highest, hnote⟩ := Session.note_eq ch.secure cn
  rw [hnote] at hrec
  have hnx : st.nextRx = ch.secure.nextRx := by
    unfold nextRx
    rw [hch]
  have hack : kindOf (sealedPacket P.crypto.aead ch.secure.txKey ch.secure.sid .ack ch.secure.counter seq [])
      = some .ack ∧
      seqOf (sealedPacket P.crypto.aead ch.secure.txKey ch.secure.sid .ack ch.secure.counter seq []) = seq := by
    rw [hl.sid]
    exact ⟨kindOf_sealedPacket, seqOf_sealedPacket P.sid_length hseq⟩
  unfold Answers
  rw [seqOf_sealedPacket P.sid_length hseq, hrec, hnx]
  unfold accept
  dsimp only
  rw [if_neg hkd]
  by_cases hlow : seq < ch.secure.nextRx
  · rw [if_pos hlow, sendAck_eq]
    · exact ⟨⟨_, rfl, hack⟩, .inl hlow⟩
    · exact hlim
  rw [if_neg hlow, if_neg (by omega)]
  have hlow := not_lt.mp hlow
  cases hslot : ch.secure.received (slotOf 256 seq) with
  | none =>
    rw [if_pos rfl, sendAck_eq]
    · exact ⟨⟨_, rfl, hack⟩, .inr ⟨_, ⟨kind, seq, data⟩, rfl, update_self _ _ _, rfl⟩⟩
    · exact hlim
  | some d =>
    -- a filled slot of the window holds this very record
    rw [if_neg nofun, sendAck_eq]
    · exact ⟨⟨_, rfl, hack⟩, .inr ⟨_, d, rfl, hslot, hl.windowed.number_eq ⟨hlow, hwin⟩ hslot⟩⟩
    · exact hlim

end Tunnel

namespace Pair

/-! ## Senders that stay in the window -/

/-- A tunnel that takes a chunk of its local connection has its next number in the window of the other one. -/
def Paced (x : End → Tunnel) : End × Event → Prop
  | (e, .read _ _) => ∀ ch ∈ (x e).channel, readable ch = true →
      ch.secure.nextTx < (x e.other).nextRx + window
  | _ => True

instance (x : End → Tunnel) : ∀ v, Decidable (Paced x v)
  | (_, .read _ _) => inferInstanceAs (Decidable (∀ ch ∈ _, _ → _ < _))
  | (_, .arrive _ _ _) | (_, .service _ _) => inferInstanceAs (Decidable True)

/-- What paced senders keep. -/
structure InStep (P : Pair) (x : End → Tunnel) : Prop where
  joined : P.Joined x
  /-- Nothing is queued beyond the window of the other tunnel. -/
  ahead : ∀ e, (x e).queued.length ≤ (x e.other).nextRx + window
  begun : [(.opening, [])] <+: (x .client).queued

variable {P : Pair} {x : End → Tunnel}

theorem InStep.init : P.InStep P.init where
  joined := .init
  ahead := by
    intro e
    refine le_trans ?_ (Nat.le_add_left _ _)
    cases e with
    | client => exact show 1 ≤ window by decide
    | agent => exact Nat.zero_le _
  begun := prefix_rfl

/-- A paced event leaves the queue of its tunnel in the window. -/
theorem InStep.react (h : P.InStep x) (e : End) (v : Event) (hpaced : Paced x (e, v)) :
    (P.react (x e) (x e.other).wires v).queued.length ≤ (x e.other).nextRx + window := by
  have hah := h.ahead e
  cases v with
  | service ws now => exact (congrArg length (queued_service ws now)).trans_le hah
  | arrive index cs now =>
    unfold Pair.react
    dsimp only
    split
    · exact hah
    · exact (congrArg length (queued_receive _ _ _)).trans_le hah
  | read input now =>
    show ((x e).read P.crypto input now).queued.length ≤ _
    have hcases : (x e).read P.crypto input now = x e ∨ _ := read_cases input now
    rcases hcases with hsm | ⟨ch, hch, hrdb, hmore⟩
    · rw [hsm]
      exact hah
    have hroom := hpaced ch hch hrdb
    have hcoun := ((h.joined e).live ch hch).counted
    omega

theorem InStep.step (h : P.InStep x) (v : End × Event) (hpaced : Paced x v) : P.InStep (P.step x v) := by
  obtain ⟨e, v⟩ := v
  have hown := h.joined.react e v
  have hqd := h.react e v hpaced
  have hoth := P.step_other x e v
  have hself := P.step_self x e v
  have hbegun := h.begun
  refine ⟨h.joined.step _, ?_, ?_⟩
  · intro d
    by_cases hd : d = e
    · subst hd
      rw [hself, hoth]
      exact hqd
    have hd : d = e.other := by
      cases d <;> cases e <;> first | rfl | exact absurd rfl hd
    subst hd
    rw [End.other_other, hself, hoth]
    have hah := h.ahead e.other
    rw [End.other_other] at hah
    exact hah.trans (Nat.add_le_add_right hown.nextRx_le _)
  cases e with
  | client =>
    rw [hself]
    exact hbegun.trans hown.outer.accepts
  | agent =>
    show _ <+: (P.step x (.agent, v) End.agent.other).queued
    exact hbegun

/-- The other tunnel has a channel once data or the end of the data was queued. -/
theorem InStep.up (h : P.InStep x) {e : End} {kind : Kind} {data : Bytes} {seq : Nat}
    (hrcr : (x e).queued[seq]? = some (kind, data)) (hkd : kind = .data ∨ kind = .fin) :
    (x e.other).channel ≠ none := by
  have hlt := (List.getElem?_eq_some_iff.mp hrcr).1
  refine (h.joined e).outer.talking ?_
  cases e with
  | agent => exact Nat.zero_lt_of_lt hlt
  | client =>
    -- the first record of the client is its opening
    have hne : seq ≠ 0 := by
      rintro rfl
      obtain ⟨rest, hrs⟩ := h.begun
      rw [← hrs] at hrcr
      cases hrcr
      rcases hkd with hkd | hkd <;> cases hkd
    show 1 < _
    omega

/-- What the arrival of a packet of data or of the end of the data meets at `receiver`. -/
structure Admitted (C : Crypto) (receiver : Tunnel) (w : Bytes) : Prop where
  below : seqOf w < receiver.nextRx + window
  first : seqOf w ∉ receiver.arrived → receiver.nextRx ≤ seqOf w
  /-- A healthy channel answers. -/
  answered : ∃ ch, receiver.channel = some ch ∧ (ch.retired = false → ch.secure.counter < maxInt →
    ∀ connects now, receiver.Answers C w connects now)

theorem InStep.admitted (h : P.InStep x) (e : End) {w : Bytes} (hw : w ∈ (x e).wires)
    (hkd : kindOf w = some .data ∨ kindOf w = some .fin) : Admitted P.crypto (x e.other) w := by
  have hpeer := h.joined e.other
  unfold Towards at hpeer
  cases (h.joined e).outer.wires w hw with
  | ack hctr hseq =>
    rcases hkd with hkd | hkd <;> cases hkd
  | @record kind cn seq data hctr hseq hsz hdt hrcr =>
    rw [kindOf_sealedPacket, Option.some.injEq, Option.some.injEq] at hkd
    obtain ⟨ch, hch⟩ := Option.ne_none_iff_exists'.mp (h.up hrcr hkd)
    have hlive := hpeer.live ch hch
    have hnx : (x e.other).nextRx = ch.secure.nextRx := by
      unfold nextRx
      rw [hch]
    have hlt := (List.getElem?_eq_some_iff.mp hrcr).1
    have hbl : seq < (x e.other).nextRx + window := hlt.trans_le (h.ahead e)
    have hack : kind ≠ .ack := ((h.joined e).outer.shaped _ _ _ hrcr).1
    refine ⟨?_, ?_, ch, hch, ?_⟩
    · rw [seqOf_sealedPacket P.sid_length hseq]
      exact hbl
    · rw [seqOf_sealedPacket P.sid_length hseq, hnx]
      intro hfst
      by_contra hlow
      exact hfst (hlive.passed seq (not_le.mp hlow))
    · intro hret hlim cs now
      have hans : Tunnel.Answers P.crypto (x e.other)
          (sealedPacket P.crypto.aead (P.key e.other.other) P.sid kind cn seq data) cs now :=
        hlive.answers cs now hch hret hlim hack hsz hdt hctr hseq (hnx ▸ hbl)
      rw [End.other_other] at hans
      exact hans

/-- **Flow control**: in a run of paced senders, a packet of data or of the end of the data is below the end of the
    other tunnel's window, in the window when it has not arrived before, and its arrival is answered. -/
theorem packets_answered (P : Pair) (run : List (End × Event)) (h : Along P.step Paced P.init run) (e : End) (w : Bytes)
    (hw : w ∈ (P.after run e).wires) (hkind : kindOf w = some .data ∨ kindOf w = some .fin) :
    Admitted P.crypto (P.after run e.other) w :=
  (h.invariant (I := P.InStep) (fun _ v hx hpaced => hx.step v hpaced) .init).admitted e hw hkind

def sample : Pair where
  crypto := ⟨Aead.checksum, fun message key => message ++ key⟩
  master := [5]
  sid := replicate 16 9
  attached := 0
  sid_length := rfl

/-- The agent sends a byte; it arrives at the client, and the acknowledgement arrives. -/
def round (n : Nat) : List (End × Event) :=
  [(.agent, .read [7] 0), (.client, .arrive (n + 1) true 0), (.agent, .arrive (n + 1) true 0)]

/-- Rounds in which the client writes nothing to its local connection. -/
def stalled : Nat → List (End × Event)
  | 0 => [(.agent, .arrive 0 true 0), (.client, .arrive 0 true 0)]
  | n + 1 => stalled n ++ round n

/-- Three packets at a client that writes nothing: its window stays at the first of them, and all are answered. -/
theorem packets_answered_stalled : Along sample.step Paced sample.init (stalled 3) ∧
    (sample.after (stalled 3) .client).nextRx = 0 ∧
    ((sample.after (stalled 3) .agent).wires.filter fun w => kindOf w = some .data).length = 3 ∧
    ∀ w ∈ (sample.after (stalled 3) .agent).wires, kindOf w = some .data →
      Admitted sample.crypto (sample.after (stalled 3) .client) w := by
  have hpaced : Along sample.step Paced sample.init (stalled 3) := by decide +kernel
  refine ⟨hpaced, by decide +kernel, by decide +kernel, fun w hw hkind => ?_⟩
  exact packets_answered sample (stalled 3) hpaced .agent w hw (.inl hkind)

/-! ## A stalled receiver -/

end Pair

namespace Tunnel

variable {C : Crypto} {st : Tunnel} {ch : Channel}

/-- A chunk of the local connection is sent. -/
theorem read_eq {inp : Bytes} (now : Int) (hch : st.channel = some ch) (hrdb : readable ch = true)
    (hin : inp ≠ []) (hsz : inp.length ≤ payloadMax) : st.read C inp now =
      { st with
        channel := some { ch with secure := { ch.secure with
          counter := ch.secure.counter + 1
          pending := update ch.secure.pending (slotOf 256 ch.secure.nextTx)
            ⟨sealedPacket C.aead ch.secure.txKey ch.secure.sid .data ch.secure.counter ch.secure.nextTx inp,
              ch.secure.nextTx, now + 100, 1, true⟩
          inFlight := ch.secure.inFlight + 1
          nextTx := ch.secure.nextTx + 1 } }
        queued := st.queued ++ [(.data, inp)]
        wires := st.wires ++
          [sealedPacket C.aead ch.secure.txKey ch.secure.sid .data ch.secure.counter ch.secure.nextTx inp] } := by
  have hcan : ch.secure.canQueue = true := by
    simp only [readable, Bool.and_eq_true] at hrdb
    exact hrdb.2
  obtain ⟨-, -, hfree, hctr⟩ := Session.canQueue_iff.mp hcan
  unfold read
  rw [hch]
  dsimp only
  rw [if_neg (not_not.mpr hrdb), if_neg hin, take_of_length_le hsz]
  unfold queueSend Session.queue Session.encode
  rw [if_neg (by simp [hcan]), if_neg (by simp [hfree]), if_neg (by omega)]
  rfl

end Tunnel

namespace Pair

/-- An agent with nothing in flight after `n` packets. -/
structure Idle (n : Nat) (ch : Channel) : Prop where
  healthy : ch.retired = false
  opened : ch.opened = true
  localFin : ch.localFin = false
  inFlight : ch.secure.inFlight = 0
  congestion : 0 < ch.secure.congestion
  pending : ∀ i, (ch.secure.pending i).active = false
  counter : ch.secure.counter = n + 1
  nextTx : ch.secure.nextTx = n

/-- A client that has stored `n` packets and written none. -/
structure Holding (n : Nat) (ch : Channel) : Prop where
  healthy : ch.retired = false
  counter : ch.secure.counter = n + 1
  nextRx : ch.secure.nextRx = 0
  received : ∀ i, n ≤ i.val → ch.secure.received i = none

structure Stalled (P : Pair) (n : Nat) (x : End → Tunnel) : Prop where
  joined : P.Joined x
  sender : ∃ ch, (x .agent).channel = some ch ∧ Idle n ch
  receiver : ∃ ch, (x .client).channel = some ch ∧ Holding n ch
  sent : (x .agent).wires.length = n + 1
  answered : (x .client).wires.length = n + 1
  arrived : ∀ k ∈ (x .client).arrived, k < n

variable {P : Pair} {x : End → Tunnel}

variable {n : Nat}

theorem Idle.readable {ch : Channel} (h : Idle n ch) (hn : n ≤ 256) : readable ch = true := by
  have hlim : 256 + 1 < maxInt := by decide
  have hcan : ch.secure.canQueue = true := Session.canQueue_iff.mpr
    ⟨h.inFlight.trans_lt h.congestion, by rw [h.nextTx]; omega, h.pending _, by rw [h.counter]; omega⟩
  simp [Tunnel.readable, h.healthy, h.opened, h.localFin, hcan]

/-- The packet that an idle agent sends. -/
def nextPacket (P : Pair) (n : Nat) : Bytes := sealedPacket P.crypto.aead (P.key .agent) P.sid .data (n + 1) n [7]

/-- The acknowledgement that a client sends for it. -/
def nextAck (P : Pair) (n : Nat) : Bytes := sealedPacket P.crypto.aead (P.key .client) P.sid .ack (n + 1) n []

/-- The session of an agent with that packet in flight. -/
def sending (P : Pair) (n : Nat) (s : Session) : Session :=
  { s with
    counter := n + 2
    pending := update s.pending (slotOf 256 n) ⟨P.nextPacket n, n, 100, 1, true⟩
    inFlight := 1
    nextTx := n + 1 }

theorem step_arrive {e : End} {ix : Nat} {w : Bytes} (hwire : (x e.other).wires[ix]? = some w) :
    P.step x (e, .arrive ix true 0) e = (x e).receive P.crypto w true 0 := by
  rw [step_self]
  unfold Pair.react
  dsimp only
  rw [hwire]

/-- An idle agent reads a byte: its packet is in flight. -/
theorem Idle.send {ch : Channel} (hidle : Idle n ch) (hn : n ≤ 256) (h : P.Joined x)
    (hch : (x .agent).channel = some ch) : P.step x (.agent, .read [7] 0) .agent =
      { x .agent with
        channel := some { ch with secure := P.sending n ch.secure }
        queued := (x .agent).queued ++ [(.data, [7])]
        wires := (x .agent).wires ++ [P.nextPacket n] } := by
  have hlive := (h .agent).live ch hch
  have hpkt : sealedPacket P.crypto.aead ch.secure.txKey ch.secure.sid .data ch.secure.counter ch.secure.nextTx [7]
      = P.nextPacket n := by
    rw [hlive.txKey, hlive.sid, hidle.counter, hidle.nextTx]
    rfl
  have hstep : P.step x (.agent, .read [7] 0) .agent = (x .agent).read P.crypto [7] 0 := P.step_self x .agent _
  rw [hstep, read_eq 0 hch (hidle.readable hn) (by decide) (by decide), hpkt, hidle.counter,
    hidle.nextTx, hidle.inFlight]
  rfl

/-- A client with room stores the packet and acknowledges it. -/
theorem Holding.store {ch : Channel} (hhold : Holding n ch) (hn : n < 256) (h : P.Joined x)
    (hch : (x .client).channel = some ch) (hwire : (x .agent).wires[n + 1]? = some (P.nextPacket n)) :
    ∃ ch', Holding (n + 1) ch' ∧
      P.step x (.client, .arrive (n + 1) true 0) .client =
        { x .client with
          channel := some ch'
          wires := (x .client).wires ++ [P.nextAck n]
          arrived := (x .client).arrived ++ [n] } := by
  have hlive := (h .client).live ch hch
  have hlim : 256 + 1 < maxInt := by decide
  have hrec : (x .client).receive P.crypto (P.nextPacket n) true 0 =
      (x .client).accept P.crypto { ch with secure := ch.secure.note (n + 1), last := 0 } ⟨.data, n, [7]⟩ :=
    receive_sealed (e := .client) true 0 rfl hch hhold.healthy hlive.sid hlive.rxKey (by decide)
      (.inl rfl) (by omega) (by omega)
  obtain ⟨replay, highest, hnote⟩ := Session.note_eq ch.secure (n + 1)
  have hack : sealedPacket P.crypto.aead ch.secure.txKey ch.secure.sid .ack ch.secure.counter n [] = P.nextAck n := by
    rw [hlive.txKey, hlive.sid, hhold.counter]
    rfl
  have hslot : (slotOf 256 n).val = n := Nat.mod_eq_of_lt hn
  have hnil : ch.secure.received (slotOf 256 n) = none := hhold.received _ hslot.ge
  rw [step_arrive hwire, hrec, hnote]
  unfold accept
  dsimp only
  rw [if_neg (by decide), hhold.nextRx, if_neg (Nat.not_lt_zero n), if_neg (by unfold window; omega), if_pos hnil,
    sendAck_eq]
  · rw [hack]
    refine ⟨_, ?_, rfl⟩
    refine ⟨?_, ?_, ?_, ?_⟩
    · exact hhold.healthy
    · exact congrArg (· + 1) hhold.counter
    · rfl
    · intro i hi
      show update ch.secure.received (slotOf 256 n) _ i = none
      rw [update_of_ne (by rintro rfl; omega)]
      exact hhold.received i (Nat.le_of_succ_le hi)
  · rw [hhold.counter]
    omega

/-- The acknowledgement makes the agent idle again. -/
theorem Idle.acknowledged {ch : Channel} (hidle : Idle n ch) (hn : n < 256) (h : P.Joined x)
    (hch : (x .agent).channel = some { ch with secure := P.sending n ch.secure }) (hwire : (x .client).wires[n + 1]? = some (P.nextAck n)) :
    ∃ ch', Idle (n + 1) ch' ∧
      P.step x (.agent, .arrive (n + 1) true 0) .agent = { x .agent with channel := some ch' } := by
  have hlive := (h .agent).live _ hch
  have hcli : (x .agent).client = false := (h .agent).outer.role
  have hlim : 256 + 1 < maxInt := by decide
  generalize hsec : P.sending n ch.secure = sc at hch hlive
  have hrec : (x .agent).receive P.crypto (P.nextAck n) true 0 =
      (x .agent).accept P.crypto { ch with secure := sc.note (n + 1), last := 0 } ⟨.ack, n, []⟩ :=
    receive_sealed (e := .agent) true 0 rfl hch hidle.healthy hlive.sid hlive.rxKey (by decide)
      (.inr rfl) (by omega) (by omega)
  obtain ⟨replay, highest, hnote⟩ := Session.note_eq sc (n + 1)
  have hpend : sc.pending (slotOf 256 n) = ⟨P.nextPacket n, n, 100, 1, true⟩ := by
    rw [← hsec]
    exact update_self _ _ _
  obtain ⟨congestion, credit, hgr, -, hack⟩ :=
    Session.acknowledge_active (s := { sc with replay := replay, highestRx := highest }) n
      (congrArg Packet.active hpend) (congrArg Packet.seq hpend)
  rw [step_arrive hwire, hrec, hnote]
  unfold accept
  dsimp only
  rw [if_pos rfl, hack, if_neg (by simp [hcli])]
  refine ⟨_, ?_, rfl⟩
  refine ⟨?_, ?_, ?_, ?_, ?_, ?_, ?_, ?_⟩
  · exact hidle.healthy
  · exact hidle.opened
  · exact hidle.localFin
  · exact congrArg (fun s : Session => s.inFlight - 1) hsec.symm
  · refine lt_of_lt_of_le ?_ hgr
    rw [← hsec]
    exact hidle.congestion
  · intro i
    dsimp only
    by_cases hi : i = slotOf 256 n
    · subst hi
      rw [update_self]
    rw [update_of_ne hi, ← hsec]
    dsimp only [sending]
    rw [update_of_ne hi]
    exact hidle.pending i
  · exact congrArg Session.counter hsec.symm
  · exact congrArg Session.nextTx hsec.symm

/-- **A round**: one more packet is held by the client. -/
theorem Stalled.round (h : Stalled P n x) (hn : n < 256) : Stalled P (n + 1) ((round n).foldl P.step x) := by
  obtain ⟨ch, hsen, hidle⟩ := h.sender
  obtain ⟨ch', hrcvr, hhold⟩ := h.receiver
  have hsn := hidle.send hn.le h.joined hsen
  have hjoin := h.joined.step (.agent, .read [7] 0)
  have hcli : P.step x (.agent, .read [7] 0) .client = x .client := P.step_other x .agent _
  show Stalled P (n + 1) (P.step (P.step (P.step x (.agent, .read [7] 0)) (.client, .arrive (n + 1) true 0))
    (.agent, .arrive (n + 1) true 0))
  generalize P.step x (.agent, .read [7] 0) = y at hsn hjoin hcli ⊢
  rw [← hcli] at hrcvr
  have hpkt : (y .agent).wires[n + 1]? = some (P.nextPacket n) := by
    rw [hsn, ← h.sent]
    exact getElem?_concat_length
  obtain ⟨ch₁, hhold, hstor⟩ := hhold.store hn hjoin hrcvr hpkt
  have hagt : P.step y (.client, .arrive (n + 1) true 0) .agent = y .agent := P.step_other y .client _
  have hjoin := hjoin.step (.client, .arrive (n + 1) true 0)
  generalize P.step y (.client, .arrive (n + 1) true 0) = z at hstor hagt hjoin ⊢
  rw [hcli] at hstor
  rw [hsn] at hagt
  have hack : (z .client).wires[n + 1]? = some (P.nextAck n) := by
    rw [hstor, ← h.answered]
    exact getElem?_concat_length
  obtain ⟨ch₂, hidle, hacked⟩ := hidle.acknowledged hn hjoin (by rw [hagt]) hack
  have hsm : P.step z (.agent, .arrive (n + 1) true 0) .client = z .client := P.step_other z .agent _
  refine ⟨hjoin.step _, ⟨ch₂, by rw [hacked], hidle⟩, ⟨ch₁, by rw [hsm, hstor], hhold⟩, ?_, ?_, ?_⟩
  · rw [hacked, hagt]
    rw [length_append, h.sent]
    rfl
  · rw [hsm, hstor]
    rw [length_append, h.answered]
    rfl
  · rw [hsm, hstor]
    refine forall_mem_append.mpr ⟨fun k hk => Nat.lt_succ_of_lt (h.arrived k hk), ?_⟩
    exact forall_mem_singleton.mpr (Nat.lt_succ_self n)

theorem Stalled.init : Stalled sample 0 (sample.after (stalled 0)) := by
  have hagt : ((sample.after (stalled 0) .agent).channel.any fun ch =>
      decide (ch.retired = false ∧ ch.opened = true ∧ ch.localFin = false ∧ ch.secure.inFlight = 0 ∧
        0 < ch.secure.congestion ∧ (∀ i, (ch.secure.pending i).active = false) ∧ ch.secure.counter = 1 ∧
        ch.secure.nextTx = 0)) = true := by
    decide +kernel
  have hcli : ((sample.after (stalled 0) .client).channel.any fun ch =>
      decide (ch.retired = false ∧ ch.secure.counter = 1 ∧ ch.secure.nextRx = 0 ∧
        ∀ i, 0 ≤ i.val → ch.secure.received i = none)) = true := by
    decide +kernel
  obtain ⟨ch, hsen, hidle⟩ := (Option.any_eq_true _ _).mp hagt
  obtain ⟨ch', hrcvr, hhold⟩ := (Option.any_eq_true _ _).mp hcli
  obtain ⟨hheal, hopn, hloc, hflig, hcon, hpend, hctr, hnx⟩ := of_decide_eq_true hidle
  obtain ⟨hheal', hctr', hnx', hrcd⟩ := of_decide_eq_true hhold
  refine ⟨Joined.after sample _, ⟨ch, hsen, ?_⟩, ⟨ch', hrcvr, ?_⟩, ?_, ?_, ?_⟩
  · exact ⟨hheal, hopn, hloc, hflig, hcon, hpend, hctr, hnx⟩
  · exact ⟨hheal', hctr', hnx', hrcd⟩
  · decide +kernel
  · decide +kernel
  · decide +kernel

theorem after_concat (run : List (End × Event)) (v : End × Event) : P.after (run ++ [v]) = P.step (P.after run) v :=
  foldl_append

theorem Stalled.after (hn : n ≤ 256) : Stalled sample n (sample.after (stalled n)) := by
  induction n with
  | zero => exact .init
  | succ n ih =>
    have hrnd := (ih (Nat.le_of_succ_le hn)).round hn
    unfold Pair.after at hrnd ⊢
    rw [stalled, foldl_append]
    exact hrnd

/-- The next packet is outside the window of a client that holds 256. -/
theorem Stalled.drops (h : Stalled P 256 x) :
    (P.step x (.agent, .read [7] 0) .agent).wires[257]? = some (P.nextPacket 256) ∧
    256 ∉ (P.step x (.agent, .read [7] 0) .client).arrived ∧ (P.step x (.agent, .read [7] 0) .client).nextRx = 0 ∧
    (P.step x (.agent, .read [7] 0) .client).channel.map Channel.retired = some false ∧
    (P.step (P.step x (.agent, .read [7] 0)) (.client, .arrive 257 true 0) .client).wires
      = (P.step x (.agent, .read [7] 0) .client).wires := by
  obtain ⟨ch, hsen, hidle⟩ := h.sender
  obtain ⟨ch', hrcvr, hhold⟩ := h.receiver
  have hsn := hidle.send le_rfl h.joined hsen
  have hjoin := h.joined.step (.agent, .read [7] 0)
  have hcli : P.step x (.agent, .read [7] 0) .client = x .client := P.step_other x .agent _
  generalize P.step x (.agent, .read [7] 0) = y at hsn hjoin hcli ⊢
  rw [← hcli] at hrcvr
  have hpkt : (y .agent).wires[257]? = some (P.nextPacket 256) := by
    rw [hsn, show 257 = (x .agent).wires.length from h.sent.symm]
    exact getElem?_concat_length
  have hlive := (hjoin .client).live ch' hrcvr
  have hrec : (y .client).receive P.crypto (P.nextPacket 256) true 0 =
      (y .client).accept P.crypto { ch' with secure := ch'.secure.note 257, last := 0 } ⟨.data, 256, [7]⟩ :=
    receive_sealed (e := .client) true 0 rfl hrcvr hhold.healthy hlive.sid hlive.rxKey (by decide)
      (.inl rfl) (by decide) (by decide)
  obtain ⟨replay, highest, hnote⟩ := Session.note_eq ch'.secure 257
  refine ⟨hpkt, ?_, ?_, ?_, ?_⟩
  · rw [hcli]
    exact fun harr => absurd (h.arrived 256 harr) (lt_irrefl 256)
  · unfold nextRx
    rw [hrcvr]
    exact hhold.nextRx
  · rw [hrcvr]
    exact congrArg some hhold.healthy
  · rw [step_arrive hpkt, hrec, hnote]
    unfold accept
    rw [if_neg (by decide), hhold.nextRx, if_neg (by decide), if_pos (by decide)]

/-- The agent reads once more when the client holds 256 packets. -/
def overrun : List (End × Event) := stalled 256 ++ [(.agent, .read [7] 0)]

/-- **A stalled receiver drops a packet that was admitted**: with 256 packets stored and acknowledged, and none of them
    written, the next one is outside the window on its first arrival, and is not acknowledged. -/
theorem full_window_drops : ∃ w, (sample.after overrun .agent).wires[257]? = some w ∧
    kindOf w = some .data ∧ seqOf w = 256 ∧ 256 ∉ (sample.after overrun .client).arrived ∧
    (sample.after overrun .client).nextRx = 0 ∧
    (sample.after overrun .client).channel.map Channel.retired = some false ∧
    (sample.after (overrun ++ [(.client, .arrive 257 true 0)]) .client).wires
      = (sample.after overrun .client).wires := by
  obtain ⟨hsent, hfirst, hnext, hhealthy, hdropped⟩ := (Stalled.after le_rfl).drops
  rw [after_concat, overrun, after_concat]
  exact ⟨_, hsent, kindOf_sealedPacket, seqOf_sealedPacket sample.sid_length (by decide), hfirst,
    hnext, hhealthy, hdropped⟩

end Pair

end Shadow6.CoreZig
