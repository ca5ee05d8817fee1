import Shadow6.Credited.Order

/-!
# `Credited.ReceiveWindow` — when a poll does not close the pool

The sender's credit counts the frames that are not acknowledged; a record is acknowledged when the adapter
completes it, not when the application takes it. So a sender within its credit can complete more records than the
receive window of a session holds, and the poll that finds the queue full closes the pool with all its sessions
(`credit_closes_pool`). A pool stays open in every run in which the polls complete a record only for a session with
room for it (`pool_stays_open`).
-/

namespace Shadow6.Credited

open Library NetworkAdapter List Attachment Pool

variable {τ : Type}

/-! ## The condition -/

/-- The datagrams of a poll find room, when the poll has completed `done` so far: one that brings the last chunk of
    a message for an open session finds fewer records waiting there and completed in this poll than the session's
    receive window. -/
def RoomFor (S : Setup τ) (sessions : Dict Nat Session) : List (Datagram τ) → Endpoint τ → List (Nat × Bytes) → Prop
  | [], _, _ => True
  | d :: ds, e, done =>
    (∀ f ∈ (S.codec.decode d.wire).toOption, e.adapter.LastChunk f →
      ∀ s ∈ sessions.find? f.stream, s.received.length + (onStream f.stream done).length < s.maximum) ∧
    ∀ r ∈ (e.adapter.receive S d.wire d.received).1.toOption,
      RoomFor S sessions ds (afterDatagram S e d) (done ++ r.messages)

instance decidableRoomFor (S : Setup τ) (sessions : Dict Nat Session) :
    ∀ ds e done, Decidable (RoomFor S sessions ds e done)
  | [], _, _ => inferInstanceAs (Decidable True)
  | _ :: ds, _, _ =>
    have := fun e done => decidableRoomFor S sessions ds e done
    inferInstanceAs (Decidable ((∀ f ∈ _, _ → ∀ s ∈ _, _ < _) ∧ ∀ r ∈ _, RoomFor S sessions ds _ _))

/-- A poll of the pool finds room for what it completes. -/
def Pool.PollWithRoom (S : Setup τ) (p : Pool τ) (b : Pool.Batch τ) : Prop :=
  RoomFor S p.sessions (b.datagrams.take 64) p.endpoint []

instance (S : Setup τ) (p : Pool τ) (b : Pool.Batch τ) : Decidable (p.PollWithRoom S b) :=
  decidableRoomFor S p.sessions (b.datagrams.take 64) p.endpoint []

/-- Every poll of the event finds room for what it completes. -/
def Attachment.KeepsRoom (A : Attachment τ) (sys : System τ) (e : Event τ) : Prop :=
  (sys e.side).AlongPolls (A.setup e.side) (wires sys e.side.other)
    (Pool.PollWithRoom (A.setup e.side)) e.call

instance (A : Attachment τ) (sys : System τ) (e : Event τ) : Decidable (A.KeepsRoom sys e) :=
  inferInstanceAs (Decidable (Client.AlongPolls _ _ (Pool.PollWithRoom _) _ _))

/-! ## One poll -/

/-- Every session has room for the records it is owed. -/
def Fits (sessions : Dict Nat Session) (records : List (Nat × Bytes)) : Prop :=
  ∀ stream s, sessions.find? stream = some s → s.received.length + (onStream stream records).length ≤ s.maximum

/-- The pool is open and no queue is longer than its window. -/
structure Calm (p : Pool τ) : Prop where
  isOpen : p.closed = false
  fits : Fits p.sessions []

/-- A call that leaves the pool so and does not report a violated window. -/
abbrev CalmAnswer {α : Type} (answer : Except Error α × Pool τ) : Prop :=
  Pool.Leaves Calm (· ≠ windowViolation) answer

section

variable {S : Setup τ} {e : Endpoint τ} {p : Pool τ} {ss : Dict Nat Session}

/-- A record for a session with room. -/
theorem Fits.snoc {dn : List (Nat × Bytes)} {stream : Nat} {dt : Bytes} (h : Fits ss dn)
    (hroom : ∀ s ∈ ss.find? stream, s.received.length + (onStream stream dn).length < s.maximum) :
    Fits ss (dn ++ [(stream, dt)]) := by
  intro stream' s hs
  rw [onStream_append, length_append]
  by_cases heq : stream = stream'
  · subst heq
    have hlt := hroom s hs
    simp only [onStream, decide_true, filter_cons_of_pos, filter_nil, map_cons, map_nil, length_singleton] at hlt ⊢
    omega
  · have hle := h stream' s hs
    simpa [onStream, heq] using hle

/-- **The loop of a poll with room**: what it returns fits, and there are no extension events. -/
theorem pollLoop_fits (hpl : S.extensions = []) {ds : List (Datagram τ)} (hacc : Accounted S e.adapter)
    (ho : e.adapter.closed = false) (dn : Completed) (heven : dn.2 = []) (h : Fits ss dn.1)
    (hroom : RoomFor S ss ds e dn.1) {dn' : Completed} {e' : Endpoint τ}
    (hloop : pollLoop S ds e dn = (.ok dn', e')) : Fits ss dn'.1 ∧ dn'.2 = [] := by
  induction ds generalizing e dn with
  | nil =>
    cases hloop
    exact ⟨h, heven⟩
  | cons d ds ih =>
    obtain ⟨hfr, hrs⟩ := hroom
    cases hr : (e.adapter.receive S d.wire d.received).1 with
    | error err =>
      simp only [pollLoop, hr] at hloop
      cases hloop
    | ok r =>
      rw [pollLoop_cons d ds dn hacc ho hr] at hloop
      have hnone : dn.2 ++ r.events = [] := by
        rw [heven, (receive_completes hacc hr).2 hpl]
        rfl
      have hfits : Fits ss (dn.1 ++ r.messages) := by
        rcases (receive_completes hacc hr).1 with hnot | ⟨f, data, hdec, hlast, hone⟩
        · rw [hnot, append_nil]
          exact h
        · rw [hone]
          exact h.snoc (hfr f (by rw [hdec]; rfl) hlast)
      exact ih (afterDatagram_accounted d hacc) (afterDatagram_open d ho)
        (dn.1 ++ r.messages, dn.2 ++ r.events) hnone hfits (hrs r (by rw [hr]; rfl)) hloop

theorem endpointPoll_fits (hpl : S.extensions = []) {ds : List (Datagram τ)} {now : τ}
    (hacc : Accounted S e.adapter) (h : Fits ss []) (hroom : RoomFor S ss (ds.take 64) e [])
    {dn : Completed} {e' : Endpoint τ} (hpoll : endpointPoll S e ds now = (.ok dn, e')) :
    Fits ss dn.1 ∧ dn.2 = [] := by
  unfold endpointPoll at hpoll
  split at hpoll
  · cases hpoll
  rename_i ho
  have ho : e.adapter.closed = false := by simpa using ho
  rcases hloop : pollLoop S (ds.take 64) e ([], []) with ⟨_ | dn', e''⟩
  · rw [hloop] at hpoll
    cases hpoll
  rw [hloop] at hpoll
  dsimp only at hpoll
  split at hpoll
  · cases hpoll
  · cases hpoll
    exact pollLoop_fits hpl hacc ho ([], []) rfl h hroom hloop

namespace Pool

theorem deliver_calm (rs : List (Nat × Bytes)) (ho : p.closed = false) (h : Fits p.sessions rs) :
    (p.deliver S rs).1 = .ok () ∧ Calm (p.deliver S rs).2 := by
  induction rs generalizing p with
  | nil => exact ⟨rfl, ho, h⟩
  | cons x rest ih =>
    obtain ⟨target, record⟩ := x
    -- the other sessions are owed what they were owed
    have hoth : ∀ stream s, stream ≠ target → p.sessions.find? stream = some s →
        s.received.length + (onStream stream rest).length ≤ s.maximum := by
      intro stream s hne hs
      have hle := h stream s hs
      simpa [onStream, Ne.symm hne] using hle
    unfold deliver
    split
    · rename_i hnone
      refine ih ho ?_
      intro stream s hs
      have hne : stream ≠ target := by
        rintro rfl
        rw [hnone] at hs
        cases hs
      exact hoth stream s hne hs
    rename_i s hs
    have hle := h target s hs
    simp only [onStream, decide_true, filter_cons_of_pos, map_cons, length_cons] at hle
    rw [if_neg (by omega)]
    refine ih ho ?_
    intro stream s' hs'
    rcases Dict.find?_set_cases hs' with ⟨rfl, rfl⟩ | ⟨heq, hs'⟩
    · simp only [onStream, length_append, length_singleton]
      omega
    · exact hoth stream s' heq hs'

section

variable (h : Calm p)
include h

/-- **A poll with room does not close the pool.** -/
theorem poll_calm (hpl : S.extensions = []) {b : Batch τ} (hacc : Accounted S p.endpoint.adapter)
    (hroom : p.PollWithRoom S b) : CalmAnswer (p.poll S b.datagrams b.now) := by
  unfold poll
  rw [if_neg (by simp [h.isOpen])]
  rcases hpoll : endpointPoll S p.endpoint b.datagrams b.now with ⟨err | done, e'⟩
  · exact .error ⟨h.isOpen, h.fits⟩ nofun
  obtain ⟨hfits, heven⟩ := endpointPoll_fits hpl hacc h.fits hroom hpoll
  dsimp only
  rw [if_neg (not_not.mpr heven)]
  have hdlv := deliver_calm (S := S) (p := { p with endpoint := e' }) done.1 h.isOpen hfits
  refine ⟨hdlv.2, ?_⟩
  intro err herr
  rw [hdlv.1] at herr
  cases herr

/-- Changing a session without lengthening its queue. -/
theorem Calm.set {q : Pool τ} {tg : Nat} {s s' : Session} (hs : p.sessions.find? tg = some s)
    (hq : q.sessions = p.sessions.set tg s') (hcl : q.closed = p.closed)
    (hlen : s'.received.length ≤ s.received.length) (hmax : s'.maximum = s.maximum) : Calm q := by
  refine ⟨hcl.trans h.isOpen, ?_⟩
  intro stream s'' hs''
  rw [hq] at hs''
  rcases Dict.find?_set_cases hs'' with ⟨-, rfl⟩ | ⟨-, hs''⟩
  · have hle := h.fits tg s hs
    simp only [onStream, filter_nil, map_nil, length_nil] at hle ⊢
    omega
  · exact h.fits stream s'' hs''

theorem popRecord_calm (tg : Nat) : Calm (p.popRecord tg).2 := by
  unfold popRecord
  split
  · rename_i hs
    exact Calm.set h hs rfl rfl (Nat.le_succ _) rfl
  · exact h

theorem extendBuffer_calm (tg : Nat) (r : Bytes) : Calm (p.extendBuffer tg r) := by
  unfold extendBuffer
  split
  · rename_i hs
    exact Calm.set h hs rfl rfl le_rfl rfl
  · exact h

theorem takeBytes_calm (tg sz : Nat) : Calm (p.takeBytes tg sz).2 := by
  unfold takeBytes
  split
  · rename_i hs
    exact Calm.set h hs rfl rfl le_rfl rfl
  · exact h

/-! ## The calls -/

variable {ws : List Bytes} {t : Nat} {bs : List (Batch τ)}

theorem receiveRecord_calm (hpl : S.extensions = []) (hb : ∀ b ∈ bs, ∀ d ∈ b.datagrams, d.wire ∈ ws)
    (hacc : Accounted S p.endpoint.adapter) (hpls : t ∈ p.sessions → (p.popRecord t).1 = none →
      AlongPolls S t (PollWithRoom S) bs p) :
    Waited Calm (· ≠ windowViolation) t (p.receiveRecord S t bs) := by
  refine (receiveRecord_waited (I := fun q => Accounted S q.endpoint.adapter ∧ Calm q) ?_ ⟨hacc, h⟩ (by decide)
    hpls).imp fun q hq => hq.2
  intro q b hmem hq hok
  have hcalm := poll_calm hq.2 hpl hq.1 hok
  exact ⟨⟨(poll_moves (hb b hmem) q).accounted hq.1, hcalm.pool⟩, hcalm.raised⟩

theorem receive_calm (sz : Int) (hpl : S.extensions = []) (hb : ∀ b ∈ bs, ∀ d ∈ b.datagrams, d.wire ∈ ws)
    (hacc : Accounted S p.endpoint.adapter)
    (hpls : t ∈ p.sessions → p.bufferEmpty t = true → (p.popRecord t).1 = none →
      AlongPolls S t (PollWithRoom S) bs p) : CalmAnswer (p.receive S t sz bs) :=
  receive_leaves (I := fun _ => Calm) (fun _ herr => herr) h
    (fun hnil => receiveRecord_calm h hpl hb hacc fun hs hpop => hpls hs hnil hpop)
    (fun _ record hq _ => extendBuffer_calm (popRecord_calm hq t) t record)
    fun _ hq => takeBytes_calm hq t sz.toNat

theorem sendRecord_calm (dt : Bytes) (now : τ) : CalmAnswer (p.sendRecord S t dt now) := by
  unfold sendRecord
  split
  · exact .error h (by decide)
  split
  · refine .error ⟨h.isOpen, h.fits⟩ ?_
    split_ifs
    · decide
    · exact nofun
  · exact .returned ⟨h.isOpen, h.fits⟩

end

end Pool

/-! ## Whole runs -/

/-- The client's pool is calm and its application has seen no violated window. -/
structure Undisturbed (c : Client τ) : Prop where
  pool : Calm c.pool
  raised : windowViolation ∉ c.raised

/-- The exception of a calm answer is not a violated window. -/
theorem calm_raisedBy {α : Type} {ans : Except Error α × Pool τ} (h : CalmAnswer ans) {l : List Error}
    (hl : windowViolation ∉ l) : windowViolation ∉ l ++ Credited.raisedBy ans.1 := by
  obtain ⟨err | value, q⟩ := ans
  · have hne := h.raised err rfl
    simp only [Credited.raisedBy, mem_append, mem_singleton, not_or]
    exact ⟨hl, Ne.symm hne⟩
  · simpa [Credited.raisedBy] using hl

theorem Client.call_undisturbed {c : Client τ} {wr : List Bytes} {cl : Call τ} (hpl : S.extensions = [])
    (hacc : Accounted S c.pool.endpoint.adapter) (h : Undisturbed c)
    (hpls : c.AlongPolls S wr (Pool.PollWithRoom S) cl) : Undisturbed (c.call S wr cl) := by
  have hans : ∀ {α : Type} {answer : Except Error α × Pool τ}, CalmAnswer answer →
      Undisturbed (c.answered answer) := fun hcalm => ⟨hcalm.pool, calm_raisedBy hcalm h.raised⟩
  cases cl with
  | sendRecord tg data now => exact hans (sendRecord_calm h.pool data now)
  | send tg data now =>
    exact hans (send_leaves (fun _ data now hq => sendRecord_calm hq data now) h.pool now (fun _ herr => herr) data)
  | receiveRecord tg ps =>
    have hwait := receiveRecord_calm h.pool hpl (Poll.mem_batches ps) hacc hpls
    exact hans (hwait.leaves fun q hq => popRecord_calm hq tg)
  | receive tg size ps =>
    have hcalm := receive_calm h.pool size hpl (Poll.mem_batches ps) hacc hpls
    exact ⟨hcalm.pool, calm_raisedBy hcalm h.raised⟩

end

section

variable {A : Attachment τ} {sys : System τ}

theorem undisturbed_init (A : Attachment τ) (opn : Side → List (Int × Int)) (s : Side) :
    Undisturbed (A.init opn s) := by
  refine ⟨⟨?_, ?_⟩, not_mem_nil⟩
  · exact openStreams_closed (A.setup s) (opn s)
  · intro stream session hsess
    rw [(opened_empty (A.setup s) (opn s) stream session hsess).2]
    exact Nat.zero_le _

theorem undisturbed_step (hsd : Sound A sys) (h : ∀ s, Undisturbed (sys s)) {e : Event τ}
    (hroom : A.KeepsRoom sys e) (s : Side) : Undisturbed (A.step sys e s) := by
  refine (Function.forall_update_iff sys fun _ c => Undisturbed c).mpr ⟨?_, fun s _ => h s⟩ s
  exact Client.call_undisturbed (A.plain e.side) (hsd.accounted e.side) (h e.side) hroom

/-- **No poll closes a pool or reports a violated window**, in every run in which a poll completes records only for
    sessions that have room for them. -/
theorem pool_stays_open (A : Attachment τ) (opened : Side → List (Int × Int)) (events : List (Event τ))
    (h : Along A.step A.KeepsRoom (A.init opened) events) (side : Side) :
    (A.run opened events side).pool.closed = false ∧ windowViolation ∉ (A.run opened events side).raised := by
  have hall : Sound A (A.run opened events) ∧ ∀ s, Undisturbed (A.run opened events s) :=
    h.invariant (I := fun sys => Sound A sys ∧ ∀ s, Undisturbed (sys s))
      (fun _ e hi hok => ⟨hi.1.step e, undisturbed_step hi.1 hi.2 hok⟩) ⟨.init A opened, undisturbed_init A opened⟩
  exact ⟨(hall.2 side).pool.isOpen, (hall.2 side).raised⟩

end

theorem pool_stays_open_one_by_one :
    Along small.step small.KeepsRoom (small.init oneStream)
        (readingRun [⟨[⟨0, 0, 0⟩], 0⟩]) ∧
      (small.run oneStream (readingRun [⟨[⟨0, 0, 0⟩], 0⟩]) .b).pool.closed = false ∧
      windowViolation ∉ (small.run oneStream (readingRun [⟨[⟨0, 0, 0⟩], 0⟩]) .b).raised :=
  ⟨by decide +kernel, pool_stays_open Attachment.small oneStream _ (by decide +kernel) .b⟩

/-- Two records within the sender's credit arrive in one poll of a session with a window of one record. -/
theorem credit_closes_pool :
    (small.run oneStream (readingRun [⟨[⟨0, 0, 0⟩, ⟨1, 0, 0⟩], 0⟩]) .a).raised = [] ∧
      (small.run oneStream (readingRun [⟨[⟨0, 0, 0⟩, ⟨1, 0, 0⟩], 0⟩]) .b).raised
        = [windowViolation] ∧
      (small.run oneStream (readingRun [⟨[⟨0, 0, 0⟩, ⟨1, 0, 0⟩], 0⟩]) .b).pool.closed = true := by
  decide +kernel

end Shadow6.Credited
