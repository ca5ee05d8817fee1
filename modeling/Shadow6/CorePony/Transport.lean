import Shadow6.CorePony.Endpoint

/-!
# `CorePony.Transport` — a client and an agent over a network

The two ends of a session, joined by a network that drops, duplicates and reorders packets: an event gives an end a
batch of datagrams from its application, any packets the other end has ever sent, or a tick. The socket in front of an
end passes on what has the shape of a frame (`wire_frame`).

Each end is sound towards what the other one has numbered and acknowledged (`Joined`), and that survives every event.
The relation between the counters of the two ends follows: the receiver never acknowledged some number at or below
its `_receive_next`, and the sender's base passes acknowledged numbers only.
-/

namespace Shadow6.CorePony

open Library OCapToken List Function

/-! ## The two ends -/

inductive End where
  | client
  | agent
  deriving DecidableEq

def End.other : End → End
  | .client => .agent
  | .agent => .client

@[simp] theorem End.other_other (e : End) : e.other.other = e := by
  cases e <;> rfl

theorem End.other_ne (e : End) : e.other ≠ e := by
  cases e <;> decide

/-- The key material of an end, from that of the client. -/
def End.token (key : OCapToken) : End → OCapToken
  | .client => key
  | .agent => key.peer

theorem End.token_other (key : OCapToken) (e : End) : e.other.token key = (e.token key).peer := by
  cases e <;> rfl

/-- A client and an agent that have agreed on a key, with the packets of their handshake. -/
structure Pair where
  aead : Aead
  key : OCapToken
  host : End → Host
  address : End → NetAddress
  target : End → NetAddress
  flowFd : Int
  started : End → Nat
  hello : Bytes
  response : Bytes
  hello_raw : hello.take 3 ≠ magic
  response_raw : response.take 3 ≠ magic
  finish_key : ∀ e d u, (host e).finish d = some u → u = End.token key e

namespace Pair

variable (P : Pair)

/-- `new client(...)`. -/
def newClient : Station where
  client := true
  peer := P.address .agent
  session := .new
  token := none
  localAddress := if 0 ≤ P.flowFd then some (P.target .client) else none
  stage := 1
  hello := P.hello
  retry := P.hello
  started := P.started .client
  lastActivity := P.started .client
  handshakeSent := 0
  closed := false
  flowFd := P.flowFd
  flowAttached := decide (0 ≤ P.flowFd)
  flowEof := false
  flowDrained := false
  networkOutput := []
  appOutput := []
  wires := []
  handed := []
  toApp := []
  accepted := []
  delivered := []
  sends := 0
  recvs := 0

/-- `new agent(...)`. -/
def newAgent : Station where
  client := false
  peer := P.address .client
  session := .new
  token := some P.key.peer
  localAddress := some (P.target .agent)
  stage := 2
  hello := P.hello
  retry := P.response
  started := P.started .agent
  lastActivity := P.started .agent
  handshakeSent := 0
  closed := false
  flowFd := -1
  flowAttached := false
  flowEof := false
  flowDrained := false
  networkOutput := []
  appOutput := []
  wires := []
  handed := []
  toApp := []
  accepted := []
  delivered := []
  sends := 0
  recvs := 0

def init : End → Station
  | .client => P.newClient
  | .agent => P.newAgent

end Pair

/-- What can happen to an end. Packets from the network are named by their place in what the other end has sent. -/
inductive Event where
  | bound (now : Nat)
  | application (batch : List (Bytes × NetAddress)) (now : Nat)
  | network (arrivals : List Nat) (now : Nat)
  | tick (now : Nat) (order : List Nat)
  | close

/-- `_on_received` of a network socket: is the datagram passed on? -/
def onReceived : Bytes → Bool
  | a :: b :: c :: kind :: rest => wireFrame (rest.length + 4) a.toNat b.toNat c.toNat kind.toNat
  | _ => false

/-- The packets that arrive, each from the address of the peer. -/
def arriving (wires : List Bytes) (sender : NetAddress) (arrivals : List Nat) : List (Bytes × NetAddress) :=
  ((arrivals.filterMap (wires[·]?)).filter onReceived).map (·, sender)

namespace Pair

variable (P : Pair)

/-- What an event makes of an end, with what the other end has sent. -/
def react (e : End) (st : Station) (wires : List Bytes) : Event → Station
  | .bound now => st.bound now
  | .application batch now => st.receivedBatch (P.host e) P.aead batch true now
  | .network arrivals now => st.receivedBatch (P.host e) P.aead (arriving wires st.peer arrivals) false now
  | .tick now order => st.tick (P.host e) P.aead now order
  | .close => st.close

def step (x : End → Station) (v : End × Event) : End → Station :=
  update x v.1 (P.react v.1 (x v.1) (x v.1.other).wires v.2)

/-- The two ends after a run. -/
def after (run : List (End × Event)) : End → Station := run.foldl P.step P.init

/-! ## The invariant of the pair -/

/-- The key material of an end. -/
def token (e : End) : OCapToken := e.token P.key

/-- An end is sound towards the other one. -/
abbrev Towards (x : End → Station) (e : End) (base st : Station) : Prop :=
  Station.Sound P.aead (P.token e) (x e.other).accepted (· ∈ ackNumbers (x e.other).out) base False [] st

/-- Each end is sound towards the other one. -/
def Joined (x : End → Station) : Prop := ∀ e, P.Towards x e (x e) (x e)

variable {P}

theorem Joined.init : P.Joined P.init := by
  -- neither end has sent, heard or delivered anything
  have hnew : ∀ (st : Station) (log : List Bytes) (heard : Nat → Prop) (t : OCapToken), st.session = .new →
      st.accepted = [] → st.out = [] → st.delivered = [] → st.handed ++ st.appOutput = [] → st.retry.take 3 ≠ magic →
      (∀ u, st.token = some u → u = t) → (st.closed = false → st.stage ≠ 1 → st.token = some t) →
      Station.Sound P.aead t log heard st False [] st := by
    intro st log heard t hsess hacc hout hdel hflow hrty htok hkeyed
    exact
      { windowed := by rw [hsess]; exact .new
        counted := by rw [hsess, hacc]; rfl
        pending := by
          rw [hsess]
          rintro w ⟨k, p, hfd, -⟩
          cases hfd
        packets := by rw [hout]; exact fun w hw => absurd hw not_mem_nil
        retry := ⟨.raw hrty, isAck_raw hrty⟩
        token := htok
        keyed := hkeyed
        front := by rw [hdel]; exact nil_prefix
        receiving := by rw [hsess, hdel]; exact fun _ => .new log
        start := by rw [hsess]; exact le_rfl
        acked := by rw [hout]; exact fun _ s hs => absurd hs not_mem_nil
        gap := by rw [hsess, hout]; exact ⟨2, le_rfl, le_rfl, not_mem_nil⟩
        stops := by rw [hsess]; exact fun _ _ => Dict.not_mem_empty _
        below := by rw [hsess]; exact fun s hlow hs => absurd hs (not_lt.mpr hlow)
        settled := by rw [hsess]; exact fun _ s hlow hs => absurd hs (not_lt.mpr hlow)
        sized := by rw [hacc]; exact fun p hp => absurd hp not_mem_nil
        flowed := by rw [hflow, hdel]; exact fun _ _ => rfl
        since := .refl st }
  intro e
  cases e with
  | client => exact hnew _ _ _ _ rfl rfl rfl rfl rfl P.hello_raw nofun fun _ hstg => absurd rfl hstg
  | agent =>
    refine hnew _ _ _ _ rfl rfl rfl rfl rfl P.response_raw ?_ fun _ _ => rfl
    rintro u ⟨⟩
    rfl

variable {x : End → Station}

variable (e : End)

/-- What arrives was made by the other end. -/
theorem Joined.arriving (h : P.Joined x) (sd : NetAddress) (ar : List Nat) :
    ∀ d ∈ arriving (x e.other).wires sd ar, Packet P.aead (P.token e).peer (x e.other).accepted d.1 ∧
        (isAck d.1 = true → sequenceOf d.1 ∈ ackNumbers (x e.other).out) := by
  intro d hd
  obtain ⟨w, hw, rfl⟩ := mem_map.mp hd
  obtain ⟨i, -, hi⟩ := mem_filterMap.mp (mem_filter.mp hw).1
  have hout : w ∈ (x e.other).out := mem_append_left _ (mem_of_getElem? hi)
  have htok : (P.token e).peer = P.token e.other := (e.token_other P.key).symm
  rw [htok]
  exact ⟨(h e.other).packets w hout, mem_ackNumbers_of_mem hout⟩

/-- An event leaves the end it happens to sound. -/
theorem Joined.react (h : P.Joined x) (v : Event) : P.Towards x e (x e) (P.react e (x e) (x e.other).wires v) := by
  have hown : P.Towards x e (x e) (x e) := h e
  cases v with
  | bound now => exact hown.bound now
  | application batch now => exact hown.receivedBatch now (P.finish_key e) fun hnet => absurd hnet (by decide)
  | network ar now =>
    exact hown.receivedBatch now (P.finish_key e) fun _ => h.arriving e (x e).peer ar
  | tick now o => exact hown.tick now o
  | close => exact hown.close

/-- **Every event keeps both ends sound.** The end it happens to, by what it does; the other one, because what its
    peer has numbered and acknowledged only grows. -/
theorem Joined.step (h : P.Joined x) (v : End × Event) : P.Joined (P.step x v) := by
  obtain ⟨e, v⟩ := v
  have hown := h.react e v
  have hoth : P.step x (e, v) e.other = x e.other := update_of_ne e.other_ne _ _
  have hself : P.step x (e, v) e = P.react e (x e) (x e.other).wires v := update_self _ _ _
  intro d
  by_cases hd : d = e
  · subst hd
    show Station.Sound _ _ _ _ _ _ _ _
    rw [hoth, hself]
    exact hown.rebase
  have hd : d = e.other := by
    cases d <;> cases e <;> first | rfl | exact absurd rfl hd
  subst hd
  show Station.Sound _ _ _ _ _ _ _ _
  rw [End.other_other, hoth, hself]
  obtain ⟨l, hl⟩ := hown.since.accepts
  rw [← hl]
  have hpeer := h e.other
  unfold Towards at hpeer
  rw [End.other_other] at hpeer
  exact hpeer.more l hown.since.keeps

theorem Joined.after (P : Pair) (run : List (End × Event)) : P.Joined (P.after run) :=
  foldl_invariant (I := P.Joined) (fun _ v h => h.step v) Joined.init run

/-! ## What the counters of the two ends have to do with each other -/

/-- **The base of the sender does not pass what the receiver has reached.** -/
theorem Joined.base_le (h : P.Joined x) : (x e).session.sendBase ≤ (x e.other).session.receiveNext := by
  obtain ⟨u, hlow, hle, hnot⟩ := (h e.other).gap
  -- a base beyond `u` would have passed a number that was never acknowledged
  have hbase : (x e).session.sendBase ≤ u := by
    by_contra hlt
    exact hnot ((h e).below u hlow (not_le.mp hlt))
  exact hbase.trans hle

/-- A packet with data, by its header. -/
def isData (w : Bytes) : Bool := decide (w.take 3 = magic ∧ kindOf w = kindData)

/-- A packet with data carries the record at its place. -/
theorem Joined.data (h : P.Joined x) {w : Bytes} (hw : w ∈ (x e).out) (hdt : isData w = true) :
    ∃ p, w = (P.token e).sealedPacket P.aead (sequenceOf w) kindData p ∧ (x e).accepted[sequenceOf w - 2]? = some p ∧
      p.length ≤ 1172 ∧ 2 ≤ sequenceOf w ∧ sequenceOf w < u64Max := by
  have hkd : w.take 3 = magic ∧ kindOf w = kindData := of_decide_eq_true hdt
  cases (h e).packets w hw with
  | raw hraw => exact absurd hkd.1 hraw
  | @confirm k hk =>
    rw [kindOf_sealedPacket [] (by omega)] at hkd
    unfold kindData at hkd
    omega
  | @data s p hlow hmax hp hsz =>
    rw [sequenceOf_sealedPacket p (lt_of_lt_u64Max hmax)]
    exact ⟨p, rfl, hp, hsz, hlow, hmax⟩
  | ack hlow hmax =>
    rw [kindOf_sealedPacket [] (by decide)] at hkd
    exact absurd hkd.2 (by decide)

/-- A packet with data is never beyond the receiver's window. -/
theorem Joined.in_window (h : P.Joined x) {s : Nat} {p : Bytes} (hlow : 2 ≤ s)
    (hp : (x e).accepted[s - 2]? = some p) : s < (x e.other).session.receiveNext + maxPending := by
  have hplc := (List.getElem?_eq_some_iff.mp hp).1
  have hcoun := (h e).counted
  have hwind := (h e).windowed.window
  have hbase := h.base_le e
  omega

end Pair

/-- The socket passes on every packet with data. -/
theorem onReceived_data {A : Aead} {t : OCapToken} {s : Nat} {p : Bytes} (hsz : p.length ≤ 1172) :
    onReceived (t.sealedPacket A s kindData p) = true := by
  have hlen : (t.sealedPacket A s kindData p).length = p.length + 28 := length_sealedPacket p
  have hshp : t.sealedPacket A s kindData p = 83 :: 54 :: 69 :: 2 :: (t.sealedPacket A s kindData p).drop 4 := by
    simp [sealedPacket, header, magic, kindData]
  have hrs : ((t.sealedPacket A s kindData p).drop 4).length + 4 = p.length + 28 := by
    rw [length_drop]
    omega
  rw [hshp]
  show wireFrame (((t.sealedPacket A s kindData p).drop 4).length + 4) 83 54 69 2 = true
  rw [hrs]
  unfold wireFrame maxFrame
  rw [if_neg (by omega), if_neg (by decide), if_pos rfl]
  exact decide_eq_true ⟨by omega, by decide, .inl rfl⟩

namespace Pair

/-- What the transport does in one direction, from `sender` to `receiver`. -/
structure Reliable (P : Pair) (e : End) (sender receiver : Station) : Prop where
  /-- The base of the sender is at most the number the receiver waits for. -/
  base : sender.session.sendBase ≤ receiver.session.receiveNext
  /-- A packet with data that the sender has given to the network passes the receiver's socket and is below the
      receiver's next number or taken by `accept_receive`; a receiver that is set up has accepted its number once the
      packet has arrived, an agent only if the packet is not as long as a hello. -/
  taken : ∀ w ∈ sender.wires, isData w = true →
    ∃ p, w = (P.token e).sealedPacket P.aead (sequenceOf w) kindData p ∧
      sender.accepted[sequenceOf w - 2]? = some p ∧ onReceived w = true ∧
      (sequenceOf w < receiver.session.receiveNext ∨
        (receiver.session.acceptReceive (sequenceOf w) p).1 = true) ∧
      (receiver.closed = false → receiver.stage = 3 → (receiver.client = true ∨ p.length ≠ 112) → ∀ now,
        (receiver.encrypted (P.host e.other) P.aead w now).closed = true ∨
          (receiver.encrypted (P.host e.other) P.aead w now).session.Accepted (sequenceOf w))
  /-- What was delivered is a front of what the sender has accepted: in order, and no number twice. -/
  front : receiver.delivered <+: sender.accepted
  /-- What was delivered goes up to the number the receiver waits for, and that one has not arrived. -/
  reached : receiver.closed = false →
    receiver.delivered.length + 2 = receiver.session.receiveNext ∧
      receiver.session.receiveNext ∉ receiver.session.receivedPackets
  /-- The credit is a difference of numbers that are not smaller. -/
  credit : sender.session.sendBase ≤ sender.session.next ∧
    sender.session.next - sender.session.sendBase ≤ maxPending ∧ sender.session.sentPackets.size ≤ maxPending ∧
    (sender.session.isConnected = true → sender.session.next < u64Max →
      sender.session.applicationCredit =
        min (maxPending - sender.session.sentPackets.size)
          (maxPending - (sender.session.next - sender.session.sendBase)))

/-- **The transport is reliable**: after any run, in either direction. -/
theorem transport_reliable (P : Pair) (run : List (End × Event)) (e : End) :
    P.Reliable e (P.after run e) (P.after run e.other) := by
  have h := Joined.after P run
  generalize P.after run = x at h ⊢
  have hpeer := h e.other
  unfold Towards at hpeer
  rw [End.other_other] at hpeer
  refine ⟨h.base_le e, ?_, hpeer.front, ?_, ?_⟩
  · intro w hw hdata
    obtain ⟨p, hsealed, hp, hsize, hlow, hmax⟩ := h.data e (mem_append_left _ hw) hdata
    have hwindow := h.in_window e hlow hp
    refine ⟨p, hsealed, hp, ?_, ?_, ?_⟩
    · rw [hsealed]
      exact onReceived_data hsize
    · exact .inr (ReliableSession.acceptReceive_of_window p hlow hmax hwindow)
    · intro hopen hstage hhello now
      have htoken : P.token e = (P.token e.other).peer := by
        rw [token, token, End.token_other]
        rfl
      rw [hsealed, htoken, sequenceOf_sealedPacket p (lt_of_lt_u64Max hmax)]
      exact hpeer.accepted_encrypted hopen hstage hlow hmax hwindow hsize hhello
  · intro hopen
    have hreceiving := hpeer.receiving hopen
    have hlength := hreceiving.order.length_out
    have hstart := hreceiving.start
    rw [append_nil] at hlength
    exact ⟨by omega, hpeer.stops id hopen⟩
  · have hwindowed := (h e).windowed
    have hsize := hwindowed.size_le
    have hwindow := hwindowed.window
    refine ⟨hwindowed.ordered, by omega, by omega, ?_⟩
    intro hconnected hnext
    exact (hwindowed.credit hconnected hnext).2.2

/-! ### A packet as long as a hello -/

/-- A pair to run: the client completes the handshake with any response. -/
def sample : Pair where
  aead := .checksum
  key := ⟨[1], [2], [3]⟩
  host := fun e => ⟨fun _ => some (e.token ⟨[1], [2], [3]⟩), fun _ _ => .again, fun _ => .again⟩
  address := fun _ => 0
  target := fun _ => 7
  flowFd := -1
  started := fun _ => 0
  hello := [83, 54, 81, 49] ++ replicate 136 0
  response := [83, 54, 81, 50] ++ replicate 168 0
  hello_raw := by decide
  response_raw := by decide
  finish_key := by
    rintro e d u ⟨⟩
    rfl

/-- The handshake, until both ends are set up. -/
def setUp : List (End × Event) :=
  [(.client, .bound 1), (.agent, .bound 1), (.client, .network [0] 2), (.agent, .network [1] 3),
    (.client, .network [1] 4)]

/-- The client sends a datagram of 112 bytes, and its packet arrives. -/
def helloSized : List (End × Event) :=
  setUp ++ [(.client, .application [(replicate 112 5, 9)] 5), (.agent, .network [2] 6)]

/-- The client has accepted the datagram and sent its packet with number 2; the agent is set up and has seen the
    packet, and has not accepted the number: the packet has the size of a hello. -/
theorem hello_size_refused : (sample.after helloSized .client).accepted = [replicate 112 5] ∧
      (sample.after helloSized .client).wires[2]?.map (fun w => (isData w, sequenceOf w)) = some (true, 2) ∧
      (sample.after helloSized .agent).closed = false ∧ (sample.after helloSized .agent).stage = 3 ∧
      ¬ (sample.after helloSized .agent).session.Accepted 2 := by
  decide +kernel

end Pair

end Shadow6.CorePony
