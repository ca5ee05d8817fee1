import Shadow6.Credited.Pool
import Shadow6.NetworkAdapter.Delivery

/-!
# `Credited.Polling` — what the calls of a session do to the transport

Every call of a session is a sequence of calls of the adapter: flow-controlled sends, records that the peer gave
to the network, and the frames and retransmissions that follow (`Moves`). So two pools are a link in the sense of
`NetworkAdapter.Link`, and message numbers count the records of a stream (`Sound`).

The module also says when a condition holds of every poll that a call makes (`AlongPolls`).
-/

namespace Shadow6.Credited

open Library NetworkAdapter List Function Pool

variable {τ : Type}

/-! ## Conditions on polls -/

/-- Every poll that `receive_record` makes for one of the batches meets `ok`. -/
def Pool.AlongPolls (S : Setup τ) (stream : Nat) (ok : Pool τ → Pool.Batch τ → Prop) :
    List (Pool.Batch τ) → Pool τ → Prop
  | [], _ => True
  | b :: bs, p => ok p b ∧
    match p.poll S b.datagrams b.now with
    | (.error _, _) => True
    | (.ok _, p') => (p'.popRecord stream).1 = none → AlongPolls S stream ok bs (p'.popRecord stream).2

instance Pool.decidableAlongPolls (S : Setup τ) (stream : Nat) (ok : Pool τ → Pool.Batch τ → Prop)
    [∀ p b, Decidable (ok p b)] : ∀ bs p, Decidable (Pool.AlongPolls S stream ok bs p)
  | [], _ => inferInstanceAs (Decidable True)
  | b :: bs, p =>
    have := fun q => decidableAlongPolls S stream ok bs q
    @instDecidableAnd _ _ _ (match p.poll S b.datagrams b.now with
      | (.error _, _) => inferInstanceAs (Decidable True)
      | (.ok _, p') =>
        inferInstanceAs (Decidable ((p'.popRecord stream).1 = none →
          Pool.AlongPolls S stream ok bs (p'.popRecord stream).2)))

variable {stream : Nat}

theorem Pool.alongPolls_true {S : Setup τ} (bt : List (Batch τ)) (p : Pool τ) :
    AlongPolls S stream (fun _ _ => True) bt p := by
  induction bt generalizing p with
  | nil => trivial
  | cons b bs ih =>
    refine ⟨trivial, ?_⟩
    split
    · trivial
    · exact fun _ => ih _

/-- Every poll that the call makes meets `ok`. A call polls when it finds neither a record nor bytes. -/
def Client.AlongPolls (S : Setup τ) (wires : List Bytes) (ok : Pool τ → Pool.Batch τ → Prop) (c : Client τ) :
    Call τ → Prop
  | .receiveRecord stream polls =>
    stream ∈ c.pool.sessions → (c.pool.popRecord stream).1 = none →
      Pool.AlongPolls S stream ok (polls.map (Poll.batch wires)) c.pool
  | .receive stream _ polls =>
    stream ∈ c.pool.sessions → c.pool.bufferEmpty stream = true → (c.pool.popRecord stream).1 = none →
      Pool.AlongPolls S stream ok (polls.map (Poll.batch wires)) c.pool
  | .sendRecord _ _ _ | .send _ _ _ => True

instance (S : Setup τ) (wires : List Bytes) (ok : Pool τ → Pool.Batch τ → Prop) [∀ p b, Decidable (ok p b)]
    (c : Client τ) (call : Call τ) : Decidable (c.AlongPolls S wires ok call) :=
  match call with
  | .receiveRecord _ _ => inferInstanceAs (Decidable (_ → _ = none → Pool.AlongPolls S _ ok _ _))
  | .receive _ _ _ => inferInstanceAs (Decidable (_ → _ → _ = none → Pool.AlongPolls S _ ok _ _))
  | .sendRecord _ _ _ | .send _ _ _ => inferInstanceAs (Decidable True)

/-! ## What the polls of a call leave -/

namespace Pool

variable {S : Setup τ} {p : Pool τ} {t : Nat} {bts : List (Batch τ)}

theorem popRecord_none (hpop : (p.popRecord t).1 = none) : (p.popRecord t).2 = p := by
  unfold popRecord at hpop ⊢
  split at hpop
  · cases hpop
  · rfl

/-- An answer that leaves a pool with `I`; an exception is one of `raises`. -/
structure Leaves {α : Type} (I : Pool τ → Prop) (raises : Error → Prop) (answer : Except Error α × Pool τ) :
    Prop where
  pool : I answer.2
  raised : ∀ err, answer.1 = .error err → raises err

/-- The answer of `receive_record` from a pool with `I`: an exception of a poll, nothing, or the record that a
    pool with `I` has at the front of its queue. -/
inductive Waited (I : Pool τ → Prop) (raises : Error → Prop) (target : Nat) :
    Except Error (Option Bytes) × Pool τ → Prop where
  | raised {err : Error} {q : Pool τ} (hq : I q) (herr : raises err) : Waited I raises target (.error err, q)
  | nothing {q : Pool τ} (hq : I q) : Waited I raises target (.ok none, q)
  | record {q : Pool τ} {record : Bytes} (hq : I q) (hpop : (q.popRecord target).1 = some record) :
      Waited I raises target (.ok (some record), (q.popRecord target).2)

variable {I J : Pool τ → Prop} {r : Error → Prop} {ok : Pool τ → Batch τ → Prop}

theorem Leaves.returned {α : Type} {a : α} (hp : I p) : Leaves I r (.ok a, p) := ⟨hp, nofun⟩

theorem Leaves.error {α : Type} {err : Error} (hp : I p) (herr : r err) :
    Leaves I r ((.error err, p) : Except Error α × Pool τ) := by
  refine ⟨hp, ?_⟩
  rintro _ ⟨⟩
  exact herr

theorem Waited.imp {answer : Except Error (Option Bytes) × Pool τ} (h : Waited I r t answer)
    (hI : ∀ q, I q → J q) : Waited J r t answer := by
  cases h with
  | raised hq herr => exact .raised (hI _ hq) herr
  | nothing hq => exact .nothing (hI _ hq)
  | record hq hpop => exact .record (hI _ hq) hpop

theorem Waited.leaves {answer : Except Error (Option Bytes) × Pool τ} (h : Waited I r t answer)
    (hpop : ∀ q, I q → I (q.popRecord t).2) : Leaves I r answer := by
  cases h with
  | raised hq herr => exact .error hq herr
  | nothing hq => exact .returned hq
  | record hq _ => exact .returned (hpop _ hq)

section

variable (hpoll : ∀ p, ∀ b ∈ bts, I p → ok p b → Leaves I r (p.poll S b.datagrams b.now)) (hp : I p)
include hpoll hp

/-- **The polling loop.** What every poll that meets `ok` preserves holds when the loop ends. -/
theorem waitRecord_waited (hpls : AlongPolls S t ok bts p) : Waited I r t (waitRecord S t bts p) := by
  induction bts generalizing p with
  | nil => exact .nothing hp
  | cons b bs ih =>
    obtain ⟨hok, hrs⟩ := hpls
    have hone := hpoll p b mem_cons_self hp hok
    unfold waitRecord
    rcases hres : p.poll S b.datagrams b.now with ⟨err | u, q⟩ <;> rw [hres] at hone
    · exact .raised hone.pool (hone.raised err rfl)
    rw [hres] at hrs
    dsimp only at hrs ⊢
    cases hrec : (q.popRecord t).1 with
    | some record =>
      have hpair : q.popRecord t = (some record, (q.popRecord t).2) := Prod.ext hrec rfl
      rw [hpair]
      exact .record hone.pool hrec
    | none =>
      have hsm := popRecord_none hrec
      have hpair : q.popRecord t = (none, q) := Prod.ext hrec hsm
      have halong := hrs hrec
      rw [hsm] at halong
      rw [hpair]
      exact ih (fun p b hb => hpoll p b (mem_cons_of_mem _ hb)) hone.pool halong

theorem receiveRecord_waited (hcl : r s6naClosed)
    (hpls : t ∈ p.sessions → (p.popRecord t).1 = none → AlongPolls S t ok bts p) :
    Waited I r t (p.receiveRecord S t bts) := by
  unfold receiveRecord
  split
  · exact .raised hp hcl
  rename_i hsess
  cases hrec : (p.popRecord t).1 with
  | some record =>
    have hpair : p.popRecord t = (some record, (p.popRecord t).2) := Prod.ext hrec rfl
    rw [hpair]
    exact .record hp hrec
  | none =>
    have hpair : p.popRecord t = (none, p) := Prod.ext hrec (popRecord_none hrec)
    rw [hpair]
    exact waitRecord_waited hpoll hp (hpls (not_not.mp hsess) hrec)

end

/-- **`receive`.** A record that `receive_record` takes from a pool with `I` is put into the buffer, and bytes of the
    buffer are returned. -/
theorem receive_leaves {I : Bytes → Pool τ → Prop} {sz : Int} (hrais : ∀ err, err ≠ windowViolation → r err)
    (hp : I [] p) (hwait : p.bufferEmpty t = true → Waited (I []) r t (p.receiveRecord S t bts))
    (hpop : ∀ q record, I [] q → (q.popRecord t).1 = some record →
      I [] ((q.popRecord t).2.extendBuffer t record))
    (htake : ∀ q, I [] q → I (q.takeBytes t sz.toNat).1 (q.takeBytes t sz.toNat).2) :
    Leaves (I ((p.receive S t sz bts).1.toOption.getD [])) r (p.receive S t sz bts) := by
  unfold receive
  split
  · exact .error hp (hrais _ (by decide))
  split
  · exact .error hp (hrais _ (by decide))
  split
  · rename_i hnil
    have hrec := hwait hnil
    generalize p.receiveRecord S t bts = answer at hrec
    cases hrec with
    | raised hq herr => exact .error hq herr
    | nothing hq => exact .returned hq
    | record hq hrec => exact .returned (htake _ (hpop _ _ hq hrec))
  · exact .returned (htake p hp)

section

variable (hone : ∀ q data now, I q → Leaves I r (q.sendRecord S t data now)) (hp : I p) (now : Nat → τ)
include hone hp

theorem sendPieces_leaves (rs : List Bytes) : Leaves I r (sendPieces S t now rs p) := by
  induction rs generalizing now p with
  | nil => exact .returned hp
  | cons data rest ih =>
    have hfst := hone p data (now 0) hp
    unfold sendPieces
    rcases hres : p.sendRecord S t data (now 0) with ⟨err | u, q⟩ <;> rw [hres] at hfst
    · exact .error hfst.pool (hfst.raised err rfl)
    · exact ih hfst.pool _

/-- **`send`.** What every record that is sent preserves. -/
theorem send_leaves (hrais : ∀ err, err ≠ windowViolation → r err) (data : Bytes) :
    Leaves I r (p.send S t data now) := by
  unfold send
  split
  · exact .error hp (hrais _ (by decide))
  split
  · exact .error hp (hrais _ (by decide))
  dsimp only
  split
  · exact .error hp (hrais _ (by decide))
  have hall := sendPieces_leaves hone hp now (pieces S.limits.maxMessage data)
  rcases hres : sendPieces S t now (pieces S.limits.maxMessage data) p with ⟨err | u, q⟩ <;>
    rw [hres] at hall
  · exact .error hall.pool (hall.raised err rfl)
  · exact .returned hall.pool

end

end Pool

/-! ## Calls of the adapter -/

/-- The calls a pool makes when its peer has sent `wires`. -/
def Allowed (wires : List Bytes) : Op τ → Prop
  | .sendFlowControlled stream _ _ => 0 ≤ stream
  | .outbound _ | .retransmit _ | .close => True
  | .receive wire _ => wire ∈ wires
  | .send _ _ _ | .extension _ _ _ => False

/-- The endpoint after a sequence of such calls. -/
inductive Moves (S : Setup τ) (wires : List Bytes) (e : Endpoint τ) : Endpoint τ → Prop where
  | refl : Moves S wires e e
  | call {e' : Endpoint τ} (op : Op τ) (hop : Allowed wires op) (h : Moves S wires e e') :
      Moves S wires e (e'.call S op)

section

variable {S : Setup τ} {wires : List Bytes} {e e' e'' : Endpoint τ} {p : Pool τ}

theorem Moves.trans (h : Moves S wires e e') (h' : Moves S wires e' e'') : Moves S wires e e'' := by
  induction h' with
  | refl => exact h
  | call op hop _ ih => exact .call op hop ih

theorem Moves.accounted (h : Moves S wires e e') (hacc : Accounted S e.adapter) : Accounted S e'.adapter := by
  induction h with
  | refl => exact hacc
  | call op _ _ ih => exact ih.apply op

theorem Moves.single (op : Op τ) (hop : Allowed wires op) : Moves S wires e (e.call S op) := .call op hop .refl

theorem pollLoop_moves {ds : List (Datagram τ)} (hds : ∀ d ∈ ds, d.wire ∈ wires) (e : Endpoint τ)
    (dn : Completed) : Moves S wires e (pollLoop S ds e dn).2 := by
  induction ds generalizing e dn with
  | nil => exact .refl
  | cons d ds ih =>
    have hrcv : Moves S wires e (e.call S (.receive d.wire d.received)) :=
      .single _ (hds d mem_cons_self)
    have hflush : Moves S wires e ((e.call S (.receive d.wire d.received)).call S (.outbound d.flushed)) :=
      .call _ trivial hrcv
    unfold pollLoop
    split
    · exact hrcv
    dsimp only
    split
    · exact hflush
    · exact hflush.trans (ih (fun d' hd' => hds d' (mem_cons_of_mem d hd')) _ _)

theorem endpointPoll_moves {ds : List (Datagram τ)} (hds : ∀ d ∈ ds, d.wire ∈ wires) (e : Endpoint τ) (now : τ) :
    Moves S wires e (endpointPoll S e ds now).2 := by
  unfold endpointPoll
  split
  · exact .refl
  have hloop : Moves S wires e (pollLoop S (ds.take 64) e ([], [])).2 :=
    pollLoop_moves (fun d hd => hds d (mem_of_mem_take hd)) e ([], [])
  rcases hpoll : pollLoop S (ds.take 64) e ([], []) with ⟨_ | done, e'⟩
  · rw [hpoll] at hloop
    exact hloop
  rw [hpoll] at hloop
  dsimp only
  split <;> exact hloop.trans (.single _ trivial)

namespace Pool

variable (p)

theorem close_moves : Moves S wires p.endpoint (p.close S).endpoint := by
  unfold close
  split
  · exact .refl
  · exact .single _ trivial

theorem deliver_moves (rs : List (Nat × Bytes)) (p : Pool τ) :
    Moves S wires p.endpoint (p.deliver S rs).2.endpoint := by
  induction rs generalizing p with
  | nil => exact .refl
  | cons x rest ih =>
    obtain ⟨stream, record⟩ := x
    unfold deliver
    split
    · exact ih p
    split
    · exact close_moves p
    · rename_i s _ _
      exact ih { p with sessions := p.sessions.set stream { s with received := s.received ++ [record] } }

theorem poll_moves {b : Batch τ} (hb : ∀ d ∈ b.datagrams, d.wire ∈ wires) (p : Pool τ) :
    Moves S wires p.endpoint (p.poll S b.datagrams b.now).2.endpoint := by
  unfold poll
  split
  · exact .refl
  have hpoll := endpointPoll_moves (S := S) hb p.endpoint b.now
  rcases hres : endpointPoll S p.endpoint b.datagrams b.now with ⟨_ | done, e⟩
  · rw [hres] at hpoll
    exact hpoll
  rw [hres] at hpoll
  dsimp only
  split
  · exact hpoll.trans (close_moves { p with endpoint := e })
  · exact hpoll.trans (deliver_moves _ { p with endpoint := e })

theorem popRecord_endpoint (stream : Nat) : (p.popRecord stream).2.endpoint = p.endpoint := by
  unfold popRecord
  split <;> rfl

theorem receiveRecord_waits {bs : List (Batch τ)} (hb : ∀ b ∈ bs, ∀ d ∈ b.datagrams, d.wire ∈ wires)
    (p : Pool τ) : Waited (fun q => Moves S wires p.endpoint q.endpoint) (fun _ => True) stream
      (p.receiveRecord S stream bs) := by
  refine receiveRecord_waited (fun q b hmem hq _ => ⟨?_, fun _ _ => trivial⟩) .refl trivial
    (fun _ _ => alongPolls_true bs p)
  exact hq.trans (poll_moves (hb b hmem) q)

theorem receiveRecord_moves {batches : List (Batch τ)} (hb : ∀ b ∈ batches, ∀ d ∈ b.datagrams, d.wire ∈ wires)
    (p : Pool τ) : Moves S wires p.endpoint (p.receiveRecord S stream batches).2.endpoint := by
  refine ((receiveRecord_waits hb p).leaves fun q hq => ?_).pool
  rwa [popRecord_endpoint]

theorem takeBytes_endpoint (stream sz : Nat) : (p.takeBytes stream sz).2.endpoint = p.endpoint := by
  unfold takeBytes
  split <;> rfl

theorem extendBuffer_endpoint (stream : Nat) (r : Bytes) : (p.extendBuffer stream r).endpoint = p.endpoint := by
  unfold extendBuffer
  split <;> rfl

theorem receive_moves {sz : Int} {bs : List (Batch τ)} (hb : ∀ b ∈ bs, ∀ d ∈ b.datagrams, d.wire ∈ wires)
    (p : Pool τ) : Moves S wires p.endpoint (p.receive S stream sz bs).2.endpoint := by
  refine (receive_leaves (I := fun _ q => Moves S wires p.endpoint q.endpoint) (fun _ _ => trivial) .refl
    (fun _ => receiveRecord_waits hb p) (fun q record hq _ => ?_) fun q hq => ?_).pool
  · rwa [extendBuffer_endpoint, popRecord_endpoint]
  · rwa [takeBytes_endpoint]

theorem sendRecord_moves (stream : Nat) (data : Bytes) (now : τ) :
    Moves S wires p.endpoint (p.sendRecord S stream data now).2.endpoint := by
  unfold sendRecord
  split
  · exact .refl
  · split <;> exact .single _ (Int.natCast_nonneg stream)

theorem send_moves (stream : Nat) (data : Bytes) (now : Nat → τ) :
    Moves S wires p.endpoint (p.send S stream data now).2.endpoint := by
  refine (send_leaves (I := fun q => Moves S wires p.endpoint q.endpoint)
    (fun q data now hq => ⟨?_, fun _ _ => trivial⟩) .refl now (fun _ _ => trivial) data).pool
  exact hq.trans (sendRecord_moves q stream data now)

variable {p}

end Pool

theorem Poll.mem_batch {poll : Poll τ} {d : Datagram τ} (h : d ∈ (poll.batch wires).datagrams) : d.wire ∈ wires := by
  obtain ⟨a, -, ha⟩ := mem_filterMap.mp h
  obtain ⟨wire, hwire, rfl⟩ := Option.map_eq_some_iff.mp ha
  exact mem_of_getElem? hwire

theorem Poll.mem_batches (ps : List (Poll τ)) :
    ∀ b ∈ ps.map (Poll.batch wires), ∀ d ∈ b.datagrams, d.wire ∈ wires := by
  intro b hb d hd
  obtain ⟨poll, -, rfl⟩ := mem_map.mp hb
  exact poll.mem_batch hd

theorem Client.call_moves (c : Client τ) (cl : Call τ) :
    Moves S wires c.pool.endpoint (c.call S wires cl).pool.endpoint := by
  cases cl with
  | sendRecord stream data now => exact c.pool.sendRecord_moves stream data now
  | send stream data now => exact c.pool.send_moves stream data now
  | receiveRecord stream ps => exact receiveRecord_moves (Poll.mem_batches ps) c.pool
  | receive stream size ps => exact receive_moves (Poll.mem_batches ps) c.pool

/-! ## The numbers of a stream -/

/-- The accepted messages of every stream are numbered in order, without a gap. -/
def Counted (e : Endpoint τ) : Prop :=
  ∀ stream, (e.sent.filter (·.stream = stream)).map (·.number) = range (e.adapter.nextMessage stream)

theorem Counted.of_eq (h : Counted e) (hsn : e'.sent = e.sent)
    (hnx : e'.adapter.nextMessage = e.adapter.nextMessage) : Counted e' := by
  intro stream
  rw [hsn, hnx]
  exact h stream

theorem Counted.call {op : Op τ} (hacc : Accounted S e.adapter) (h : Counted e) (hop : Allowed wires op) :
    Counted (e.call S op) := by
  have hqt : e.sent ++ [] = e.sent := append_nil _
  cases op with
  | send | extension => exact hop.elim
  | outbound now => exact h.of_eq hqt (congrArg Prod.fst <| outbound_standing now e.adapter)
  | receive wr now => exact h.of_eq hqt (congrArg Prod.fst <| receive_standing wr now e.adapter)
  | retransmit now => exact h.of_eq hqt (congrArg Prod.fst <| retransmit_standing now e.adapter)
  | close =>
    refine h.of_eq hqt ?_
    show e.adapter.close.nextMessage = _
    unfold ReliableAdapter.close
    split <;> rfl
  | sendFlowControlled stream data now =>
    obtain ⟨n, rfl⟩ := Int.eq_ofNat_of_zero_le hop
    rcases sendFlowControlled_nextMessage hacc n data now with ⟨err, heq⟩ | ⟨⟨frames, hok⟩, hnx⟩
    · refine h.of_eq ?_ ?_
      · show e.sent ++ _ = e.sent
        simp [Setup.apply, heq, ReliableAdapter.acceptedBy, Except.map]
      · show (e.adapter.sendFlowControlled S n data now).2.nextMessage = _
        rw [heq]
    -- the message goes to the end of its stream's list, under the stream's next number
    have hsn : (e.call S (.sendFlowControlled n data now)).sent
        = e.sent ++ [⟨n, e.adapter.nextMessage n, data⟩] := by
      show e.sent ++ _ = _
      simp [Setup.apply, hok, ReliableAdapter.acceptedBy, Except.map]
    intro s
    show map _ (filter _ (e.call S _).sent) = range ((e.adapter.sendFlowControlled S n data now).2.nextMessage s)
    rw [hsn, hnx, filter_append, map_append, h s]
    by_cases hs : n = s
    · subst hs
      simp [range_succ]
    · simp [hs, update_of_ne (Ne.symm hs)]

theorem Moves.counted (hm : Moves S wires e e') (hacc : Accounted S e.adapter) (h : Counted e) : Counted e' := by
  induction hm with
  | refl => exact h
  | call op hop hm ih => exact ih.call (hm.accounted hacc) hop

end

/-! ## Two pools are a link -/

/-- A sequence of allowed calls on one side keeps the invariant of a link. -/
theorem linked_moves {P : Pair τ} {l : Link τ} {ns : Side → List Note} (h : Linked P l ns) {sd : Side}
    {e : Endpoint τ} (hm : Moves (P.setup sd) (l sd.other).wires (l sd) e) :
    ∃ ns', Linked P (update l sd e) ns' := by
  induction hm with
  | refl => exact ⟨ns, by rwa [update_eq_self]⟩
  | @call e' op hop _ ih =>
    obtain ⟨ns', hlin⟩ := ih
    have hself : update l sd e' sd = e' := update_self _ _ _
    have hacc := (hlin.follows sd).accounted
    obtain ⟨ms, hserv, hsts⟩ := apply_served hacc op
    have hauth : ∀ wr now, op = .receive wr now → wr ∈ (update l sd e' sd.other).wires := by
      rintro wr now rfl
      rw [update_of_ne sd.other_ne]
      exact hop
    have hnx := hlin.call hauth hserv hsts
    rw [hself, update_idem] at hnx
    exact ⟨_, hnx⟩

/-- The endpoints of the two pools. -/
def endpoints (sys : System τ) : Link τ := fun s => (sys s).pool.endpoint

/-- What holds of the transport in every state that two pools reach. -/
structure Sound (A : Attachment τ) (sys : System τ) : Prop where
  linked : ∃ ns, Linked A.toPair (endpoints sys) ns
  counted : ∀ s, Counted (sys s).pool.endpoint

section

variable {A : Attachment τ} {sys : System τ}

theorem Sound.accounted (h : Sound A sys) (s : Side) : Accounted (A.setup s) (sys s).pool.endpoint.adapter := by
  obtain ⟨ns, hlin⟩ := h.linked
  exact (hlin.follows s).accounted

variable (S : Setup τ)

/-- `open` refuses, or adds a session that has received nothing. -/
theorem openStream_cases (p : Pool τ) (stream maximum : Int) : (p.openStream S stream maximum).2 = p ∨
      (p.openStream S stream maximum).2
        = { p with sessions := p.sessions.set stream.toNat ⟨maximum.toNat, [], []⟩ } := by
  unfold openStream
  split_ifs <;> simp

variable (opn : List (Int × Int))

theorem openStreams_endpoint (p : Pool τ) :
    (opn.foldl (fun p o => (p.openStream S o.1 o.2).2) p).endpoint = p.endpoint := by
  refine foldl_invariant (I := fun q : Pool τ => q.endpoint = p.endpoint) ?_ rfl opn
  intro q o hq
  rcases openStream_cases S q o.1 o.2 with heq | heq <;>
    · rw [heq]
      exact hq

theorem openStreams_closed : (opn.foldl (fun p o => (p.openStream S o.1 o.2).2) (new S)).closed = false := by
  refine foldl_invariant (I := fun q : Pool τ => q.closed = false) ?_ rfl opn
  intro q o hq
  rcases openStream_cases S q o.1 o.2 with heq | heq <;>
    · rw [heq]
      exact hq

/-- A session that was just opened has received nothing. -/
theorem opened_empty (stream : Nat) :
    ∀ s, (opn.foldl (fun p o => (p.openStream S o.1 o.2).2) (new S)).sessions.find? stream = some s →
      s.streamBuffer = [] ∧ s.received = [] := by
  have hnew : ∀ s, (new S).sessions.find? stream = some s → s.streamBuffer = [] ∧ s.received = [] := nofun
  refine foldl_invariant (I := fun q : Pool τ => ∀ s, q.sessions.find? stream = some s →
    s.streamBuffer = [] ∧ s.received = []) ?_ hnew opn
  intro q o hq
  rcases openStream_cases S q o.1 o.2 with heq | heq
  · rw [heq]
    exact hq
  rw [heq]
  intro s hs
  rcases Dict.find?_set_cases hs with ⟨-, rfl⟩ | ⟨-, hs⟩
  · exact ⟨rfl, rfl⟩
  · exact hq s hs

theorem Sound.init (A : Attachment τ) (o : Side → List (Int × Int)) : Sound A (A.init o) := by
  have heq : ∀ s, (A.init o s).pool.endpoint = A.toPair.init s := fun s =>
    openStreams_endpoint (A.setup s) (o s) (.new (A.setup s))
  refine ⟨⟨fun _ => [], ?_⟩, fun s => ?_⟩
  · have hfun : endpoints (A.init o) = A.toPair.init := funext heq
    rw [hfun]
    exact .init A.toPair
  · rw [heq s]
    intro stream
    rfl

theorem endpoints_step (A : Attachment τ) (sys : System τ) (e : Event τ) :
    endpoints (A.step sys e) = update (endpoints sys) e.side (A.step sys e e.side).pool.endpoint := by
  funext s
  by_cases hs : s = e.side
  · subst hs
    rw [update_self]
    rfl
  rw [update_of_ne hs]
  show (update sys e.side _ s).pool.endpoint = _
  rw [update_of_ne hs]
  rfl

theorem step_moves (A : Attachment τ) (sys : System τ) (e : Event τ) :
    Moves (A.setup e.side) (endpoints sys e.side.other).wires (endpoints sys e.side)
      (A.step sys e e.side).pool.endpoint := by
  unfold Attachment.step
  rw [update_self]
  exact Client.call_moves (sys e.side) e.call

theorem Sound.step (h : Sound A sys) (e : Event τ) : Sound A (A.step sys e) := by
  have hmoves := step_moves A sys e
  obtain ⟨ns, hlin⟩ := h.linked
  refine ⟨?_, ?_⟩
  · rw [endpoints_step]
    exact linked_moves hlin hmoves
  · refine (forall_update_iff sys fun _ c => Counted c.pool.endpoint).mpr ⟨?_, fun s _ => h.counted s⟩
    exact (Client.call_moves (sys e.side) e.call).counted (h.accounted _) (h.counted _)

end

end Shadow6.Credited
