import Shadow6.Credited.Polling

/-!
# `Credited.Order` — when the bytes of a stream come out in order

`receive` puts the records of a stream together in the order in which the adapter completes them, and the
adapter completes messages in the order in which their last chunks arrive. So a reordered datagram reorders the
bytes of the stream (`read_out_of_order`), and an exception in a poll takes along the records that the poll has
completed. The bytes are a prefix of what was accepted in every run in which each datagram that completes a message
completes the next one of its stream, and nothing is refused in a poll after that (`read_prefix_accepted`).
-/

namespace Shadow6.Credited

open Library NetworkAdapter List Function Dict Attachment

variable {τ : Type}

/-! ## The condition -/

/-- The records of a stream that the adapter has completed. -/
def recordsOn (e : Endpoint τ) (stream : Nat) : List Bytes :=
  (e.returned.filter (·.stream = stream)).map (·.data)

/-- The records of a stream in a list of completed ones. -/
def onStream (stream : Nat) (records : List (Nat × Bytes)) : List Bytes :=
  (records.filter (·.1 = stream)).map (·.2)

/-- The datagrams of a poll keep the stream in order, when the poll has completed `done` so far: one that brings
    the last chunk of a message of the stream brings it for the message whose number is next; and once a record of
    the stream is completed, no later datagram of the poll is refused and no frame is out of attempts at its end. -/
def InOrder (S : Setup τ) (stream : Nat) (now : τ) : List (Datagram τ) → Endpoint τ → List (Nat × Bytes) → Prop
  | [], e, done => onStream stream done ≠ [] → ¬ e.adapter.OutOfAttempts S now
  | d :: ds, e, done =>
    (∀ f ∈ (S.codec.decode d.wire).toOption,
      (f.stream = stream → e.adapter.LastChunk f → f.message = (recordsOn e stream).length) ∧
      (onStream stream done ≠ [] → e.adapter.Takes S d.received f)) ∧
    ∀ r ∈ (e.adapter.receive S d.wire d.received).1.toOption,
      InOrder S stream now ds ((e.call S (.receive d.wire d.received)).call S (.outbound d.flushed))
        (done ++ r.messages)

instance decidableInOrder (S : Setup τ) (stream : Nat) (now : τ) :
    ∀ ds e done, Decidable (InOrder S stream now ds e done)
  | [], e, done => inferInstanceAs (Decidable (onStream stream done ≠ [] → ¬ e.adapter.OutOfAttempts S now))
  | _ :: ds, _, _ =>
    have := fun e done => decidableInOrder S stream now ds e done
    inferInstanceAs (Decidable ((∀ f ∈ _, (_ → _ → _ = _) ∧ (_ ≠ [] → _)) ∧ ∀ r ∈ _, InOrder S stream now ds _ _))

/-- A poll of the pool keeps the stream in order. -/
def Pool.PollInOrder (S : Setup τ) (stream : Nat) (p : Pool τ) (b : Pool.Batch τ) : Prop :=
  InOrder S stream b.now (b.datagrams.take 64) p.endpoint []

instance (S : Setup τ) (stream : Nat) (p : Pool τ) (b : Pool.Batch τ) : Decidable (p.PollInOrder S stream b) :=
  decidableInOrder S stream b.now (b.datagrams.take 64) p.endpoint []

/-- A call of the reading side does not take records of the stream from under `receive`. -/
def Call.ReadsBytes (stream : Nat) : Call τ → Prop
  | .receiveRecord stream' _ => stream' ≠ stream
  | _ => True

instance (stream : Nat) (call : Call τ) : Decidable (call.ReadsBytes stream) :=
  match call with
  | .receiveRecord stream' _ => inferInstanceAs (Decidable (stream' ≠ stream))
  | .sendRecord _ _ _ | .send _ _ _ | .receive _ _ _ => inferInstanceAs (Decidable True)

/-- If the event is a call of `side`, it reads the stream with `receive` and its polls keep the stream in order. -/
def Attachment.KeepsOrder (A : Attachment τ) (side : Side) (stream : Nat) (sys : System τ) (e : Event τ) : Prop :=
  e.side = side → e.call.ReadsBytes stream ∧
    (sys e.side).AlongPolls (A.setup e.side) (wires sys e.side.other)
      (Pool.PollInOrder (A.setup e.side) stream) e.call

instance (A : Attachment τ) (side : Side) (stream : Nat) (sys : System τ) (e : Event τ) :
    Decidable (A.KeepsOrder side stream sys e) :=
  inferInstanceAs (Decidable (_ → Call.ReadsBytes _ _ ∧ Client.AlongPolls _ _ (Pool.PollInOrder _ stream) _ _))

section

variable {S : Setup τ} {stream : Nat} {e : Endpoint τ}

/-! ## One datagram -/

/-- The completed messages of the stream are numbered in order, without a gap. -/
def Ordered (stream : Nat) (e : Endpoint τ) : Prop :=
  (e.returned.filter (·.stream = stream)).map (·.number) = range (recordsOn e stream).length

theorem onStream_append (stream : Nat) (xs ys : List (Nat × Bytes)) :
    onStream stream (xs ++ ys) = onStream stream xs ++ onStream stream ys := by
  simp [onStream]

theorem call_returned {op : Op τ} (h : ∀ wr now, op = .receive wr now →
    ∃ err, (e.adapter.receive S wr now).1 = .error err) : (e.call S op).returned = e.returned := by
  show e.returned ++ _ = e.returned
  cases op with
  | receive wr now =>
    obtain ⟨err, herr⟩ := h wr now rfl
    simp [Setup.apply, Setup.returnedBy, herr, Except.map]
  | send | sendFlowControlled | extension | outbound | retransmit | close => simp [Setup.returnedBy]

variable {r : ReliableAdapter.Received} {now : τ}

/-- An answered datagram adds the records it completes. -/
theorem receive_returned {wr : Bytes} {f : Frame} (hr : (e.adapter.receive S wr now).1 = .ok r)
    (hdec : S.codec.decode wr = .ok f) :
    (e.call S (.receive wr now)).returned = e.returned ++ r.messages.map fun m => ⟨m.1, f.message, m.2⟩ := by
  show e.returned ++ _ = _
  simp [Setup.apply, Setup.returnedBy, hr, Except.map, hdec]

/-- A datagram that keeps the order adds its record to the stream under the next number. -/
theorem Ordered.receive {wr : Bytes} (hacc : Accounted S e.adapter) (h : Ordered stream e)
    (hr : (e.adapter.receive S wr now).1 = .ok r)
    (hnx : ∀ f ∈ (S.codec.decode wr).toOption, f.stream = stream → e.adapter.LastChunk f →
      f.message = (recordsOn e stream).length) : Ordered stream (e.call S (.receive wr now)) ∧
      recordsOn (e.call S (.receive wr now)) stream = recordsOn e stream ++ onStream stream r.messages := by
  obtain ⟨-, f, hdec, -⟩ := receive_ok hr
  have hret := receive_returned hr hdec
  generalize e.call S (.receive wr now) = e' at hret ⊢
  rcases (receive_completes hacc hr).1 with hnone | ⟨f', data, hdec', hlast, hone⟩
  · have hsm : e'.returned = e.returned := by simpa [hnone] using hret
    have hrecs : recordsOn e' stream = recordsOn e stream := by
      unfold recordsOn
      rw [hsm]
    refine ⟨?_, by simp [hrecs, hnone, onStream]⟩
    unfold Ordered
    rw [hrecs, hsm]
    exact h
  obtain rfl : f' = f := by
    rw [hdec] at hdec'
    exact (Except.ok.inj hdec').symm
  rw [hone] at hret
  by_cases hs : f'.stream = stream
  · have hnum := hnx f' (by simp [hdec, Except.toOption]) hs hlast
    have hrecs : recordsOn e' stream = recordsOn e stream ++ [data] := by
      simp [recordsOn, hret, hs]
    refine ⟨?_, by simp [hrecs, hone, onStream, hs]⟩
    unfold Ordered
    rw [hrecs, hret, length_append, length_singleton, range_succ, ← h]
    simp [hs, hnum]
  have hrecs : recordsOn e' stream = recordsOn e stream := by
    simp [recordsOn, hret, hs]
  refine ⟨?_, by simp [hrecs, hone, onStream, hs]⟩
  unfold Ordered
  rw [hrecs, hret, ← h]
  simp [hs]

variable {e' : Endpoint τ}

theorem recordsOn_congr (h : e'.returned = e.returned) : recordsOn e' stream = recordsOn e stream := by
  unfold recordsOn
  rw [h]

theorem Ordered.congr (h : Ordered stream e) (heq : e'.returned = e.returned) : Ordered stream e' := by
  unfold Ordered
  rw [recordsOn_congr heq, heq]
  exact h

/-! ## One poll -/

/-- What a poll leaves, when `done` was completed before: either it returns with new records at the end of those
    of the stream, or it raises before any record of the stream was completed. -/
inductive Fetched (stream : Nat) (e : Endpoint τ) (done : List (Nat × Bytes)) :
    Except PyError Completed × Endpoint τ → Prop where
  | returned {done' : Completed} {e' : Endpoint τ} (new : List (Nat × Bytes)) (hdone : done'.1 = done ++ new)
      (hordered : Ordered stream e') (hrecords : recordsOn e' stream = recordsOn e stream ++ onStream stream new) :
      Fetched stream e done (.ok done', e')
  | raised {err : PyError} {e' : Endpoint τ} (hnone : onStream stream done = []) (hordered : Ordered stream e')
      (hrecords : recordsOn e' stream = recordsOn e stream) : Fetched stream e done (.error err, e')

/-- What a datagram completes comes before what the rest of the poll completes. -/
theorem Fetched.after {e₁ : Endpoint τ} {done records : List (Nat × Bytes)}
    {result : Except PyError Completed × Endpoint τ} (h : Fetched stream e₁ (done ++ records) result)
    (hrecs : recordsOn e₁ stream = recordsOn e stream ++ onStream stream records) :
    Fetched stream e done result := by
  cases h with
  | returned new hdone hord hnew =>
    refine .returned (records ++ new) (by rw [hdone, append_assoc]) hord ?_
    rw [hnew, hrecs, onStream_append, append_assoc]
  | raised hnone hord hsm =>
    rw [onStream_append] at hnone
    obtain ⟨hdone, hnew⟩ := append_eq_nil_iff.mp hnone
    refine .raised hdone hord ?_
    rw [hsm, hrecs, hnew, append_nil]

/-- An adapter that is open answers `receive` and `outbound` and stays open. -/
theorem call_closed {op : Op τ} (hop : (∃ wire now, op = .receive wire now) ∨ ∃ now, op = .outbound now)
    (ho : e.adapter.closed = false) : (e.call S op).adapter.closed = false := by
  rcases hop with ⟨wire, now, rfl⟩ | ⟨now, rfl⟩
  · exact (congrArg Prod.snd (receive_standing wire now e.adapter)).trans ho
  · exact (congrArg Prod.snd (outbound_standing now e.adapter)).trans ho

/-- The endpoint after one datagram of the loop. -/
def afterDatagram (S : Setup τ) (e : Endpoint τ) (d : Datagram τ) : Endpoint τ :=
  (e.call S (.receive d.wire d.received)).call S (.outbound d.flushed)

variable (d : Datagram τ)

theorem afterDatagram_returned : (afterDatagram S e d).returned = (e.call S (.receive d.wire d.received)).returned :=
  call_returned (fun _ _ h => nomatch h)

theorem afterDatagram_open (ho : e.adapter.closed = false) : (afterDatagram S e d).adapter.closed = false :=
  call_closed (.inr ⟨_, rfl⟩) (call_closed (.inl ⟨_, _, rfl⟩) ho)

theorem afterDatagram_accounted (h : Accounted S e.adapter) :
    Accounted S (afterDatagram S e d).adapter := (h.apply (.receive d.wire d.received)).apply (.outbound d.flushed)

/-- After a datagram that is answered, the frames that have room are always sent. -/
theorem pollLoop_cons (ds : List (Datagram τ)) (dn : Completed) (h : Accounted S e.adapter)
    (ho : e.adapter.closed = false) (hr : (e.adapter.receive S d.wire d.received).1 = .ok r) :
    pollLoop S (d :: ds) e dn = pollLoop S ds (afterDatagram S e d) (dn.1 ++ r.messages, dn.2 ++ r.events) := by
  obtain ⟨frames, b, hok, -⟩ := outbound_steps d.flushed (h.apply (.receive d.wire d.received))
    (call_closed (.inl ⟨d.wire, d.received, rfl⟩) ho)
  have hsn : ((e.call S (.receive d.wire d.received)).adapter.outbound S d.flushed).1
      = .ok (frames.map S.codec.sealed) := congrArg Prod.fst hok
  conv => lhs; unfold pollLoop
  simp only [hr, hsn]
  rfl

variable {ds : List (Datagram τ)}

/-- **The loop of a poll that keeps the stream in order.** -/
theorem pollLoop_fetched (hdec : ∀ d ∈ ds, ∃ f, S.codec.decode d.wire = .ok f) (hacc : Accounted S e.adapter)
    (ho : e.adapter.closed = false) (hord : Ordered stream e) (dn : Completed)
    (h : InOrder S stream now ds e dn.1) : Fetched stream e dn.1 (pollLoop S ds e dn) := by
  induction ds generalizing e dn with
  | nil => exact .returned [] (by simp) hord (by simp [onStream])
  | cons d ds ih =>
    obtain ⟨f, hf⟩ := hdec d mem_cons_self
    obtain ⟨hfr, hrs⟩ := h
    obtain ⟨hnx, htks⟩ := hfr f (by rw [hf]; rfl)
    cases hr : (e.adapter.receive S d.wire d.received).1 with
    | error err =>
      -- refused: nothing of the stream can have been completed before
      have hnone : onStream stream dn.1 = [] := by
        by_contra hsome
        obtain ⟨r, hok⟩ := receive_takes hacc ho hf (htks hsome)
        rw [hr] at hok
        cases hok
      have hsm : (e.call S (.receive d.wire d.received)).returned = e.returned := by
        refine call_returned fun wire now heq => ?_
        cases heq
        exact ⟨err, hr⟩
      have hloop : pollLoop S (d :: ds) e dn = (.error err, e.call S (.receive d.wire d.received)) := by
        simp only [pollLoop, hr]
      rw [hloop]
      exact .raised hnone (hord.congr hsm) (recordsOn_congr hsm)
    | ok r =>
      have hnexts : ∀ g ∈ (S.codec.decode d.wire).toOption, g.stream = stream → e.adapter.LastChunk g →
          g.message = (recordsOn e stream).length := fun g hg => (hfr g hg).1
      obtain ⟨hordered₁, hrecs⟩ := hord.receive hacc hr hnexts
      have hret := afterDatagram_returned (S := S) (e := e) d
      rw [pollLoop_cons d ds dn hacc ho hr]
      refine Fetched.after (ih (fun d' hd' => hdec d' (mem_cons_of_mem d hd'))
        (afterDatagram_accounted d hacc) (afterDatagram_open d ho) (hordered₁.congr hret)
        (dn.1 ++ r.messages, dn.2 ++ r.events) (hrs r (by rw [hr]; rfl))) ?_
      rw [recordsOn_congr hret, hrecs]

/-- When records of the stream are completed, the retransmission at the end of the poll does not raise. -/
theorem pollLoop_retransmits (hacc : Accounted S e.adapter) (ho : e.adapter.closed = false) (dn : Completed)
    (h : InOrder S stream now ds e dn.1) {dn' : Completed} (hloop : pollLoop S ds e dn = (.ok dn', e'))
    (hsome : onStream stream dn'.1 ≠ []) : ∃ wires, (e'.adapter.retransmit S now).1 = .ok wires := by
  induction ds generalizing e dn with
  | nil =>
    cases hloop
    exact retransmit_takes hacc ho (h hsome)
  | cons d ds ih =>
    cases hr : (e.adapter.receive S d.wire d.received).1 with
    | error err =>
      simp only [pollLoop, hr] at hloop
      cases hloop
    | ok r =>
      rw [pollLoop_cons d ds dn hacc ho hr] at hloop
      exact ih (afterDatagram_accounted d hacc) (afterDatagram_open d ho)
        (dn.1 ++ r.messages, dn.2 ++ r.events) (h.2 r (by rw [hr]; rfl)) hloop

/-- **A poll of the endpoint.** -/
theorem endpointPoll_fetched (hdec : ∀ d ∈ ds, ∃ f, S.codec.decode d.wire = .ok f) (hacc : Accounted S e.adapter)
    (hord : Ordered stream e) (h : InOrder S stream now (ds.take 64) e []) :
    Fetched stream e [] (endpointPoll S e ds now) := by
  unfold endpointPoll
  split
  · exact .raised rfl hord rfl
  rename_i ho
  have ho : e.adapter.closed = false := by simpa using ho
  have hloop := pollLoop_fetched (fun d hd => hdec d (mem_of_mem_take hd)) hacc ho hord ([], []) h
  have hatt : ∀ done' e', pollLoop S (ds.take 64) e ([], []) = (.ok done', e') →
      onStream stream done'.1 ≠ [] → ∃ wires, (e'.adapter.retransmit S now).1 = .ok wires :=
    fun _ _ => pollLoop_retransmits hacc ho ([], []) h
  generalize pollLoop S (ds.take 64) e ([], []) = result at hloop hatt
  cases hloop with
  | raised hnone hord' hrecs => exact .raised hnone hord' hrecs
  | @returned done' e' new hdone hord' hrecs =>
    have hsm : (e'.call S (.retransmit now)).returned = e'.returned := call_returned (fun _ _ h => nomatch h)
    dsimp only
    split
    · rename_i err herr
      refine .raised rfl (hord'.congr hsm) ?_
      have hnone : onStream stream new = [] := by
        by_contra hsome
        obtain ⟨wires, hok⟩ := hatt done' e' rfl (by rwa [hdone, nil_append])
        rw [herr] at hok
        cases hok
      rw [recordsOn_congr hsm, hrecs, hnone, append_nil]
    · exact .returned new hdone (hord'.congr hsm) (by rw [recordsOn_congr hsm, hrecs])

/-! ## From completed records to the bytes read -/

/-- Every byte of the stream's completed records is accounted for, in order: read by the application, in the
    buffer of the session, in its queue, or in `owed`, the records about to be queued. Once the session is gone,
    what was read is still a prefix. -/
structure Fed (stream : Nat) (read : Bytes) (owed : List Bytes) (p : Pool τ) : Prop where
  ordered : Ordered stream p.endpoint
  handed : ∀ s, p.sessions.find? stream = some s →
    read ++ s.streamBuffer ++ s.received.flatten ++ owed.flatten = (recordsOn p.endpoint stream).flatten
  front : read <+: (recordsOn p.endpoint stream).flatten

variable {read : Bytes} {o : List Bytes} {p q : Pool τ}

/-- Only the session of the stream and the completed messages matter. -/
theorem Fed.congr (h : Fed stream read o p) (hsess : q.sessions.find? stream = p.sessions.find? stream)
    (hret : q.endpoint.returned = p.endpoint.returned) : Fed stream read o q := by
  refine ⟨h.ordered.congr hret, ?_, ?_⟩
  · intro s hs
    rw [recordsOn_congr hret]
    exact h.handed s (hsess ▸ hs)
  · rw [recordsOn_congr hret]
    exact h.front

/-- Without a session nothing is owed. -/
theorem Fed.gone {o' : List Bytes} (h : Fed stream read o p) (hsess : q.sessions.find? stream = none)
    (hret : q.endpoint.returned = p.endpoint.returned) : Fed stream read o' q := by
  refine ⟨h.ordered.congr hret, ?_, ?_⟩
  · intro s hs
    rw [hsess] at hs
    cases hs
  · rw [recordsOn_congr hret]
    exact h.front

/-- The session of the stream changes and still accounts for the same bytes. -/
theorem Fed.update {read' : Bytes} {o' : List Bytes} {s s' : Session} (h : Fed stream read o p)
    (hs : p.sessions.find? stream = some s) (hs' : q.sessions.find? stream = some s')
    (hret : q.endpoint.returned = p.endpoint.returned)
    (hsm : read' ++ s'.streamBuffer ++ s'.received.flatten ++ o'.flatten
      = read ++ s.streamBuffer ++ s.received.flatten ++ o.flatten) : Fed stream read' o' q := by
  have hall := h.handed s hs
  rw [← hsm] at hall
  refine ⟨h.ordered.congr hret, ?_, ?_⟩
  · intro s'' hs''
    rw [hs'] at hs''
    cases hs''
    rw [recordsOn_congr hret]
    exact hall
  · rw [recordsOn_congr hret, ← hall, append_assoc, append_assoc]
    exact prefix_append _ _

/-- A poll completes records: they are owed to the session. -/
theorem Fed.fetch {dn : Completed} {new : List (Nat × Bytes)} (h : Fed stream read [] p) (hdone : dn.1 = new)
    (hord : Ordered stream e') (hrecs : recordsOn e' stream = recordsOn p.endpoint stream ++ onStream stream new) :
    Fed stream read (onStream stream dn.1) { p with endpoint := e' } := by
  refine ⟨hord, ?_, ?_⟩
  · intro s hs
    have hall := h.handed s hs
    rw [flatten_nil, append_nil] at hall
    rw [hrecs, flatten_append, ← hall, hdone]
  · rw [hrecs, flatten_append]
    exact h.front.trans (prefix_append _ _)

namespace Pool

/-- Closing the pool ends the session; what was read stays. -/
theorem close_fed (h : Fed stream read o p) (ho : p.closed = false) : Fed stream read [] (p.close S) := by
  have hcls : p.close S = { endpoint := p.endpoint.call S .close, sessions := .empty, closed := true } := by
    simp [close, ho]
  rw [hcls]
  exact h.gone rfl (call_returned (fun _ _ h => nomatch h))

/-- The records of the stream go to the end of its queue, in the order in which they are owed. -/
theorem deliver_fed (rs : List (Nat × Bytes)) (ho : p.closed = false)
    (h : Fed stream read (onStream stream rs) p) : Fed stream read [] (p.deliver S rs).2 := by
  induction rs generalizing p with
  | nil => exact h
  | cons x rest ih =>
    obtain ⟨target, record⟩ := x
    unfold deliver
    split
    · rename_i hnone
      refine ih ho ?_
      by_cases htar : target = stream
      · exact h.gone (htar ▸ hnone) rfl
      · simpa [onStream, htar] using h
    rename_i s hs
    split
    · exact close_fed h ho
    refine ih ho ?_
    by_cases htar : target = stream
    · subst htar
      exact h.update hs (find?_set_self _ _ _) rfl (by simp [onStream])
    · have hrs : Fed stream read (onStream stream rest) p := by simpa [onStream, htar] using h
      exact hrs.congr (find?_set_of_ne _ _ (Ne.symm htar)) rfl

section

variable (h : Fed stream read [] p)
include h

/-- **A poll of the pool that keeps the stream in order.** -/
theorem poll_fed {b : Batch τ} (hdec : ∀ d ∈ b.datagrams, ∃ f, S.codec.decode d.wire = .ok f)
    (hacc : Accounted S p.endpoint.adapter) (hb : p.PollInOrder S stream b) :
    Fed stream read [] (p.poll S b.datagrams b.now).2 := by
  unfold poll
  split
  · exact h
  rename_i ho
  have ho : p.closed = false := by simpa using ho
  have hfet := endpointPoll_fetched hdec hacc h.ordered hb
  generalize endpointPoll S p.endpoint b.datagrams b.now = result at hfet
  cases hfet with
  | raised hnone hord hrecs =>
    have howed : Fed stream read (onStream stream []) { p with endpoint := _ } :=
      h.fetch (rfl : (([], []) : Completed).1 = []) hord (by rw [hrecs]; simp [onStream])
    exact howed
  | @returned done e' new hdone hord hrecs =>
    have howed := h.fetch hdone hord hrecs
    dsimp only
    split
    · exact close_fed howed ho
    · exact deliver_fed done.1 ho howed

/-- A record taken from its queue and put into the buffer stays accounted for. -/
theorem popRecord_fed {target : Nat} {record : Bytes} (hpop : (p.popRecord target).1 = some record) :
    Fed stream read [] ((p.popRecord target).2.extendBuffer target record) := by
  unfold popRecord at hpop ⊢
  split at hpop
  · rename_i maximum first rest buffer hs
    cases hpop
    have hpopp : (p.sessions.set target ⟨maximum, rest, buffer⟩).find? target = some ⟨maximum, rest, buffer⟩ :=
      find?_set_self _ _ _
    simp only [extendBuffer, hpopp]
    by_cases htar : target = stream
    · subst htar
      exact h.update hs (find?_set_self _ _ _) rfl (by simp)
    refine h.congr ?_ rfl
    rw [find?_set_of_ne _ _ (Ne.symm htar), find?_set_of_ne _ _ (Ne.symm htar)]
  · cases hpop

/-- Records that are taken on another stream do not matter. -/
theorem popRecord_fed_of_ne {tg : Nat} (htar : tg ≠ stream) : Fed stream read [] (p.popRecord tg).2 := by
  unfold popRecord
  split
  · exact h.congr (find?_set_of_ne _ _ (Ne.symm htar)) rfl
  · exact h

variable {ws : List Bytes} {t : Nat} {bs : List (Batch τ)}

/-- A record is returned from a pool in which it is accounted for. -/
theorem receiveRecord_fed (hdec : ∀ wr ∈ ws, ∃ f, S.codec.decode wr = .ok f)
    (hb : ∀ b ∈ bs, ∀ d ∈ b.datagrams, d.wire ∈ ws) (hacc : Accounted S p.endpoint.adapter)
    (hpls : t ∈ p.sessions → (p.popRecord t).1 = none →
      AlongPolls S t (PollInOrder S stream) bs p) :
    Waited (Fed stream read []) (fun _ => True) t (p.receiveRecord S t bs) := by
  refine (receiveRecord_waited (I := fun q => Accounted S q.endpoint.adapter ∧ Fed stream read [] q) ?_ ⟨hacc, h⟩ trivial
    hpls).imp fun q hq => hq.2
  intro q b hmem hq hok
  have hws := hb b hmem
  exact ⟨⟨(poll_moves hws q).accounted hq.1,
    poll_fed hq.2 (fun d hd => hdec d.wire (hws d hd)) hq.1 hok⟩, fun _ _ => trivial⟩

theorem takeBytes_fed (sz : Nat) : Fed stream (read ++ (p.takeBytes stream sz).1) [] (p.takeBytes stream sz).2 := by
  unfold takeBytes
  split
  · rename_i s hs
    refine h.update hs (find?_set_self _ _ _) rfl ?_
    simp
  · rw [append_nil]
    exact h

theorem takeBytes_fed_of_ne (htar : t ≠ stream) (sz : Nat) : Fed stream read [] (p.takeBytes t sz).2 := by
  unfold takeBytes
  split
  · exact h.congr (find?_set_of_ne _ _ (Ne.symm htar)) rfl
  · exact h

/-- What the reader of the stream has after a call of `receive` on `target`. -/
def readAfter (stream target : Nat) (read : Bytes) (answer : Except Error Bytes) : Bytes :=
  if target = stream then read ++ answer.toOption.getD [] else read

/-- **`receive`.** -/
theorem receive_fed {sz : Int} (hdec : ∀ wr ∈ ws, ∃ f, S.codec.decode wr = .ok f)
    (hb : ∀ b ∈ bs, ∀ d ∈ b.datagrams, d.wire ∈ ws) (hacc : Accounted S p.endpoint.adapter)
    (hpls : t ∈ p.sessions → p.bufferEmpty t = true → (p.popRecord t).1 = none →
      AlongPolls S t (PollInOrder S stream) bs p) :
    Fed stream (readAfter stream t read (p.receive S t sz bs).1) []
      (p.receive S t sz bs).2 := by
  have hnone : readAfter stream t read (.ok []) = read := by simp [readAfter, Except.toOption]
  refine (receive_leaves (I := fun bytes q => Fed stream (readAfter stream t read (.ok bytes)) [] q)
    (fun _ _ => trivial) ?_ ?_ ?_ ?_).pool
  · rwa [hnone]
  · rw [hnone]
    exact fun hnil => receiveRecord_fed h hdec hb hacc fun hs hpop => hpls hs hnil hpop
  · rw [hnone]
    exact fun q record hq hpop => popRecord_fed hq hpop
  · rw [hnone]
    intro q hq
    unfold readAfter
    split
    · rename_i heq
      subst heq
      exact takeBytes_fed hq sz.toNat
    · rename_i hne
      exact takeBytes_fed_of_ne hq hne sz.toNat

/-! Sending does not touch the sessions. -/

theorem sendRecord_fed (dt : Bytes) (now : τ) : Fed stream read [] (p.sendRecord S t dt now).2 := by
  unfold sendRecord
  split
  · exact h
  · split <;> exact h.congr rfl (call_returned (fun _ _ h => nomatch h))

theorem send_fed (dt : Bytes) (now : Nat → τ) : Fed stream read [] (p.send S t dt now).2 :=
  (send_leaves (I := Fed stream read []) (fun _ dt now hq => ⟨sendRecord_fed hq dt now, fun _ _ => trivial⟩) h now
    (fun _ _ => trivial) dt).pool

end

end Pool

/-- **A call of the reading side.** -/
theorem Client.call_fed {c : Client τ} {wr : List Bytes} {cl : Call τ}
    (hdec : ∀ wi ∈ wr, ∃ f, S.codec.decode wi = .ok f) (hacc : Accounted S c.pool.endpoint.adapter)
    (h : Fed stream (c.read stream) [] c.pool) (hby : cl.ReadsBytes stream)
    (hpls : c.AlongPolls S wr (Pool.PollInOrder S stream) cl) :
    Fed stream ((c.call S wr cl).read stream) [] (c.call S wr cl).pool := by
  cases cl with
  | sendRecord tg data now => exact Pool.sendRecord_fed h data now
  | send tg data now => exact Pool.send_fed h data now
  | receiveRecord tg ps =>
    have hwait := Pool.receiveRecord_fed h hdec (Poll.mem_batches ps) hacc hpls
    exact (hwait.leaves fun q hq => Pool.popRecord_fed_of_ne hq hby).pool
  | receive tg size ps =>
    have hrd : (c.call S wr (.receive tg size ps)).read stream = Pool.readAfter stream tg (c.read stream)
            (c.pool.receive S tg size (ps.map (Poll.batch wr))).1 := by
      show update c.read tg _ stream = _
      unfold Pool.readAfter
      split
      · rename_i heq
        subst heq
        rw [update_self]
      · rename_i hne
        rw [update_of_ne (Ne.symm hne)]
    rw [hrd]
    exact Pool.receive_fed h hdec (Poll.mem_batches ps) hacc hpls

end

/-! ## Two pools -/

section

variable {A : Attachment τ} {sys : System τ} {sd : Side} {stream : Nat}

/-- What one side gave to the network the other side can decode. -/
theorem Sound.decodes (h : Sound A sys) (side : Side) :
    ∀ wr ∈ wires sys side.other, ∃ f, (A.setup side).codec.decode wr = .ok f := by
  obtain ⟨ns, hlin⟩ := h.linked
  intro wr hwire
  obtain ⟨f, -, rfl, hadm, hack⟩ := (hlin.follows side.other).wires wr hwire
  exact ⟨f, A.toPair.decode_sealed side hadm hack⟩

/-- The reader's side of the stream is accounted for. -/
def Reading (stream : Nat) (side : Side) (sys : System τ) : Prop :=
  Fed stream ((sys side).read stream) [] (sys side).pool

theorem Reading.init (A : Attachment τ) (opn : Side → List (Int × Int)) (stream : Nat) (side : Side) :
    Reading stream side (A.init opn) := by
  have hend : (A.init opn side).pool.endpoint = A.toPair.init side :=
    openStreams_endpoint (A.setup side) (opn side) (.new (A.setup side))
  have hnone : recordsOn (A.init opn side).pool.endpoint stream = [] := by
    rw [hend]
    rfl
  refine ⟨?_, ?_, nil_prefix⟩
  · unfold Ordered
    rw [hnone, hend]
    rfl
  · intro s hs
    have hnil := opened_empty (A.setup side) (opn side) stream s hs
    rw [hnone, hnil.1, hnil.2]
    rfl

theorem Reading.step (hsd : Sound A sys) (h : Reading stream sd sys) {e : Event τ}
    (horder : A.KeepsOrder sd stream sys e) : Reading stream sd (A.step sys e) := by
  by_cases hside : e.side = sd
  · obtain ⟨hby, hpls⟩ := horder hside
    subst hside
    show Fed stream ((update sys e.side _ e.side).read stream) [] (update sys e.side _ e.side).pool
    rw [update_self]
    exact Client.call_fed (hsd.decodes e.side) (hsd.accounted e.side) h hby hpls
  show Fed stream ((update sys e.side _ sd).read stream) [] (update sys e.side _ sd).pool
  rw [update_of_ne (Ne.symm hside)]
  exact h

end

/-- Stream 0, open on both sides with a receive window of one record. -/
def oneStream : Side → List (Int × Int) := fun _ => [(0, 1)]

/-- One side sends the bytes 1 and 2, the other reads after the datagrams have arrived in the given order. -/
def readingRun (polls : List (Poll ℚ)) : List (Event ℚ) :=
  [⟨.a, .send 0 [1] fun _ => 0⟩, ⟨.a, .send 0 [2] fun _ => 0⟩, ⟨.b, .receive 0 10 polls⟩]

end Shadow6.Credited
