import Shadow6.Library.Machine
import Shadow6.NetworkAdapter.History
import Shadow6.Portable.Agreement

/-!
# `NetworkAdapter.Link` — two adapters and a lossy network

Two adapters with the same profile, limits and key on opposite sides. The network keeps every record it
was ever given and may deliver any of them, any number of times, in any order, or never; it cannot make
up records (the cipher authenticates header and payload). Clocks are arbitrary.

`Linked` ties the histories of the two sides together: what one side confirms the other side has emitted,
and what one side takes as acknowledged the other side has confirmed. Delivery integrity and, as long as
no unfinished reassembly expires, the absence of silent loss follow from it. `extension_accepted` says when an
extension of one side is an event of the other.
-/

namespace Shadow6.NetworkAdapter

open Library Json Portable ReliableAdapter List Function Setup

variable {τ : Type}

/-! ## An adapter with its carrier -/

/-- A message as the application sees it, with the number it travels under. -/
structure Message where
  stream : Nat
  number : Nat
  data : Bytes
deriving DecidableEq, Repr

/-- An adapter, the records it gave to its carrier, and the messages it took and returned. -/
structure Endpoint (τ : Type) where
  adapter : ReliableAdapter τ
  wires : List Bytes
  sent : List Message
  returned : List Message

/-- The message that a call to `send` or `send_flow_controlled` accepts: its data under the next number of
    the stream. -/
def ReliableAdapter.acceptedBy (a : ReliableAdapter τ) : Op τ → Except PyError Reply → List Message
  | .send stream data _, .ok _ => [⟨stream.toNat, a.nextMessage stream.toNat, data⟩]
  | .sendFlowControlled stream data _, .ok _ => [⟨stream.toNat, a.nextMessage stream.toNat, data⟩]
  | _, _ => []

/-- The messages that a call to `receive` returns, with the number of the record that completed them. -/
def Setup.returnedBy (S : Setup τ) : Op τ → Except PyError Reply → List Message
  | .receive wire _, .ok (.received r) =>
    match S.codec.decode wire with
    | .ok f => r.messages.map fun m => ⟨m.1, f.message, m.2⟩
    | .error _ => []
  | _, _ => []

/-- The records in the answer to a call. -/
def wiresOf : Except PyError Reply → List Bytes
  | .ok reply => reply.wires
  | .error _ => []

/-- One call, with its records given to the carrier. -/
def Endpoint.call (S : Setup τ) (op : Op τ) (e : Endpoint τ) : Endpoint τ where
  adapter := (S.apply e.adapter op).2
  wires := e.wires ++ wiresOf (S.apply e.adapter op).1
  sent := e.sent ++ e.adapter.acceptedBy op (S.apply e.adapter op).1
  returned := e.returned ++ S.returnedBy op (S.apply e.adapter op).1

/-! ## The link -/

/-- The two sides of a link. -/
inductive Side where
  | a | b
deriving DecidableEq, Repr

def Side.other : Side → Side
  | .a => .b
  | .b => .a

/-- The `side` argument of the constructor. -/
def Side.index : Side → Nat
  | .a => 0
  | .b => 1

@[simp] theorem Side.other_other (s : Side) : s.other.other = s := by cases s <;> rfl

theorem Side.other_ne (s : Side) : s.other ≠ s := by cases s <;> simp [Side.other]

/-- Two adapters built with the same profile, limits and key on opposite sides. -/
structure Pair (τ : Type) where
  crypto : Crypto
  lawful : crypto.Lawful
  core : Core
  key : Bytes
  limits : Limits
  transport : Option Transport
  setup : Side → Setup τ
  created : ∀ s, create crypto core key s.index (setup s).extensions (setup s).timing limits transport
    (setup s).nfc = .ok (setup s)

/-- The small configuration on both sides. -/
def Pair.small : Pair ℚ where
  crypto := .checksum
  lawful := Crypto.checksum_lawful
  core := .ada
  key := replicate 32 7
  limits := .small
  transport := none
  setup := fun s => Setup.small s.index
  created := by
    intro s
    cases s with
    | a => exact create_small (.inl rfl)
    | b => exact create_small (.inr rfl)

/-- The state of a link. -/
abbrev Link (τ : Type) := Side → Endpoint τ

/-- The calls of an application; records arrive only through the network. -/
def Op.isLocal : Op τ → Bool
  | .receive _ _ => false
  | _ => true

/-- What can happen: an application calls its adapter, or the network delivers the `n`-th record that the
    other side gave it. -/
inductive Event (τ : Type) where
  | call (side : Side) (op : Op τ) (hop : op.isLocal = true := by rfl)
  | deliver (side : Side) (n : Nat) (now : τ)

def Pair.init (P : Pair τ) : Link τ := fun s => ⟨(P.setup s).init, [], [], []⟩

/-- One event. -/
def Pair.step (P : Pair τ) (l : Link τ) : Event τ → Link τ
  | .call side op _ => update l side ((l side).call (P.setup side) op)
  | .deliver side n now =>
    match (l side.other).wires[n]? with
    | some wire => update l side ((l side).call (P.setup side) (.receive wire now))
    | none => l

def Pair.run (P : Pair τ) (events : List (Event τ)) : Link τ := events.foldl P.step P.init

/-! ## One side: the log of an endpoint and its history -/

/-- `f` was sealed for the carrier: it was emitted, or it acknowledges a confirmed frame. -/
def Carried (ns : List Note) (f : Frame) : Prop :=
  .emitted f ∈ ns ∨ ∃ g done, .confirmed g done ∈ ns ∧ f = ackFrame g

variable {f : Frame}

theorem Carried.append {ns : List Note} (h : Carried ns f) (ms : List Note) : Carried (ns ++ ms) f := by
  rcases h with h | ⟨g, done, hg, heq⟩
  · exact .inl (mem_append_left ms h)
  · exact .inr ⟨g, done, mem_append_left ms hg, heq⟩

/-- The endpoint's logs are read off its history. -/
structure Follows (S : Setup τ) (e : Endpoint τ) (ns : List Note) : Prop where
  accounted : Accounted S e.adapter
  numbering : Numbering S ns e.adapter
  tracking : Tracking S ns e.adapter
  wires : ∀ w ∈ e.wires, ∃ f, Carried ns f ∧ w = S.codec.sealed f ∧ S.codec.Admits f ∧
    (f.kind = .ack → f.payload = [])
  sent : ∀ m, m ∈ e.sent ↔ .accepted m.stream m.number m.data ∈ ns
  returned : ∀ m, m ∈ e.returned ↔
    ∃ f, .confirmed f (some (some m.data)) ∈ ns ∧ f.stream = m.stream ∧ f.message = m.number

variable {result : Except PyError Reply} {op : Op τ}

section

variable {S : Setup τ} {a b : ReliableAdapter τ} {e : Endpoint τ} {notes : List Note}

theorem mem_emitted {fs : List Frame} (h : f ∈ fs) :
    Note.emitted f ∈ fs.map Note.emitted := mem_map_of_mem h

/-- The records of an answer were sealed by its steps, or were in flight before. -/
theorem Served.wires (h : Served S a op result notes) :
    ∀ w ∈ wiresOf result, (∃ f, .emitted f ∈ notes ∧ w = S.codec.sealed f) ∨
      (∃ f done, .confirmed f done ∈ notes ∧ w = S.codec.sealed (ackFrame f) ∧ S.codec.Admits (ackFrame f)) ∨
      ∃ key p, a.pending.find? key = some p ∧ p.wire = w := by
  -- records made from frames that the notes list as emitted
  have hfrs : ∀ {frames : List Frame} {w : Bytes}, w ∈ frames.map S.codec.sealed →
      (∀ f ∈ frames, .emitted f ∈ notes) → ∃ f, .emitted f ∈ notes ∧ w = S.codec.sealed f := by
    intro frames w hw hnotes
    obtain ⟨f, hf, rfl⟩ := mem_map.mp hw
    exact ⟨f, hnotes f hf, rfl⟩
  intro w hw
  cases h with
  | refuse | refuseFrame | refuseExtension | exhaust | close | stale | release => simp [wiresOf, Reply.wires] at hw
  | send | sendFlowControlled =>
    exact .inl (hfrs hw fun f hf => mem_cons_of_mem _ (mem_emitted hf))
  | @extension _ _ _ f hk =>
    exact .inl ⟨f, mem_cons_self, mem_singleton.mp hw⟩
  | outbound => exact .inl (hfrs hw fun f hf => mem_emitted hf)
  | @confirm _ _ f done _ _ hdec hkd _ =>
    exact .inr (.inl ⟨f, done, by simp, mem_singleton.mp hw, Codec.ack_admits hdec⟩)
  | retransmit hws =>
    rcases mem_append.mp hw with hw | hw
    · exact .inr (.inr (hws w hw))
    · exact .inl (hfrs hw fun f hf =>
        mem_cons_of_mem _ (mem_cons_of_mem _ (mem_emitted hf)))

/-- The messages of an answer are those its steps accepted. -/
theorem Served.accepted (h : Served S a op result notes) (m : Message) :
    m ∈ a.acceptedBy op result ↔ .accepted m.stream m.number m.data ∈ notes := by
  obtain ⟨stream, number, data⟩ := m
  cases h with
  | refuse => cases op <;> simp [acceptedBy]
  | _ => simp [acceptedBy]

/-- The messages of an answer are those its steps completed. -/
theorem Served.returned (h : Served S a op result notes) (m : Message) : m ∈ S.returnedBy op result ↔
      ∃ f, .confirmed f (some (some m.data)) ∈ notes ∧ f.stream = m.stream ∧ f.message = m.number := by
  obtain ⟨stream, number, data⟩ := m
  cases h with
  | refuse => cases op <;> simp [returnedBy]
  | stale hdec | release hdec => simp [returnedBy, hdec]
  | confirm hdec _ hdone =>
    cases hdone with
    | nothing | event => simp [returnedBy, hdec]
    | message => simp [returnedBy, hdec]; grind
  | _ => simp [returnedBy]

theorem Follows.init : Follows S ⟨S.init, [], [], []⟩ [] := by
  refine ⟨.init, .init, .init, ?_, ?_, ?_⟩ <;> simp

/-- A call extends the history by the notes of its answer. -/
theorem Follows.call {ns ms : List Note} (h : Follows S e ns)
    (hserv : Served S e.adapter op (S.apply e.adapter op).1 ms)
    (hsts : Steps S e.adapter ms (S.apply e.adapter op).2) : Follows S (e.call S op) (ns ++ ms) := by
  obtain ⟨hacc, hnum, htrack⟩ := hsts.history (I := fun ns a => Accounted S a ∧ Numbering S ns a ∧ Tracking S ns a)
    (fun hi hs => ⟨hi.1.step hs, hi.2.1.step hi.1 hs, hi.2.2.step hi.2.1 hs⟩) ⟨h.accounted, h.numbering, h.tracking⟩
  refine ⟨hacc, hnum, htrack, ?_, ?_, ?_⟩
  · -- a frame in the history that was emitted is admissible and no acknowledgement
    have hemit : ∀ f, .emitted f ∈ ns ++ ms → ∃ g, Carried (ns ++ ms) g ∧
        S.codec.sealed f = S.codec.sealed g ∧ S.codec.Admits g ∧ (g.kind = .ack → g.payload = []) := fun f hf =>
      ⟨f, .inl hf, rfl, (hnum.admits f hf).1, fun hk => absurd hk (hnum.admits f hf).2⟩
    intro w hw
    rcases mem_append.mp hw with hw | hw
    · obtain ⟨f, hf, hrs⟩ := h.wires w hw
      exact ⟨f, hf.append ms, hrs⟩
    rcases hserv.wires w hw with ⟨f, hf, rfl⟩ | ⟨f, done, hf, rfl, hadm⟩ | ⟨key, p, hp, rfl⟩
    · exact hemit f (mem_append_right ns hf)
    · exact ⟨ackFrame f, .inr ⟨f, done, mem_append_right ns hf, rfl⟩, rfl, hadm, fun _ => rfl⟩
    obtain ⟨f, hf, heq⟩ := h.tracking.wires key p hp
    rw [heq]
    exact hemit f (mem_append_left ms hf)
  · intro m
    show m ∈ e.sent ++ _ ↔ _
    rw [mem_append, mem_append, h.sent, hserv.accepted]
  · intro m
    show m ∈ e.returned ++ _ ↔ _
    rw [mem_append, h.returned, hserv.returned]
    simp only [mem_append, or_and_right, exists_or]

end

/-! ## Two sides: what one hears the other has said -/

/-- The history `heard` of the adapter `a` against the history `said` of its peer. -/
structure Hears (S : Setup τ) (said heard : List Note) (a : ReliableAdapter τ) : Prop where
  confirmed : ∀ f done, .confirmed f done ∈ heard → .emitted f ∈ said
  released : ∀ key, .released key ∈ heard →
    ∃ f done, .confirmed f done ∈ said ∧ key = (f.stream, f.message, f.index)
  assembled : Assembled S.codec.payload (fun s m d => .accepted s m d ∈ said) a
  delivered : ∀ f data, .confirmed f (some (some data)) ∈ heard → .accepted f.stream f.message data ∈ said

section

variable {S T : Setup τ} {a b : ReliableAdapter τ} {sd heard ms : List Note}

theorem Hears.init : Hears S [] [] S.init := by
  refine ⟨?_, ?_, ?_, ?_⟩ <;> simp [Assembled, Setup.init]

/-- The peer says more. -/
theorem Hears.mono (h : Hears S sd heard a) (ms : List Note) : Hears S (sd ++ ms) heard a := by
  refine ⟨?_, ?_, ?_, ?_⟩
  · exact fun f done hf => mem_append_left ms (h.confirmed f done hf)
  · intro key hkey
    obtain ⟨f, done, hf, heq⟩ := h.released key hkey
    exact ⟨f, done, mem_append_left ms hf, heq⟩
  · intro id r hr
    obtain ⟨d, hd, hrs⟩ := h.assembled id r hr
    exact ⟨d, mem_append_left ms hd, hrs⟩
  · exact fun f data hf => mem_append_left ms (h.delivered f data hf)

theorem Hears.step {n : Note} {p : ReliableAdapter τ} (hacc : Accounted S a) (hsaid : Numbering T sd p)
    (hpay : S.codec.payload = T.codec.payload) (h : Hears S sd heard a)
    (hcon : ∀ f done, n = .confirmed f done → .emitted f ∈ sd) (hrel : ∀ key, n = .released key →
      ∃ f done, .confirmed f done ∈ sd ∧ key = (f.stream, f.message, f.index))
    (hstep : Step S a n b) : Hears S sd (heard ++ [n]) b := by
  obtain ⟨hass, hdel⟩ := h.assembled.step hacc hsaid.unique
    (fun f done hn hk => by rw [hpay]; exact hsaid.chunks f (hcon f done hn) hk) hstep
  refine ⟨?_, ?_, hass, ?_⟩
  · intro f done hf
    rcases mem_snoc.mp hf with hf | hn
    · exact h.confirmed f done hf
    · exact hcon f done hn.symm
  · intro key hkey
    rcases mem_snoc.mp hkey with hkey | hn
    · exact h.released key hkey
    · exact hrel key hn.symm
  · intro f data hf
    rcases mem_snoc.mp hf with hf | hn
    · exact h.delivered f data hf
    · exact hdel f data hn.symm

theorem Hears.steps {p : ReliableAdapter τ} (hacc : Accounted S a) (hsaid : Numbering T sd p)
    (hpay : S.codec.payload = T.codec.payload) (h : Hears S sd heard a)
    (hcon : ∀ f done, .confirmed f done ∈ ms → .emitted f ∈ sd) (hrel : ∀ key, .released key ∈ ms →
      ∃ f done, .confirmed f done ∈ sd ∧ key = (f.stream, f.message, f.index))
    (hsts : Steps S a ms b) : Hears S sd (heard ++ ms) b := by
  induction hsts generalizing heard with
  | refl => simpa using h
  | @head a b c n ms hs _ ih =>
    have hone := h.step hacc hsaid hpay (fun f done hn => hcon f done (hn ▸ mem_cons_self))
      (fun key hn => hrel key (hn ▸ mem_cons_self)) hs
    have hall := ih (hacc.step hs) hone (fun f done hf => hcon f done (mem_cons_of_mem _ hf))
      (fun key hk => hrel key (mem_cons_of_mem _ hk))
    rwa [append_assoc, singleton_append] at hall

/-- Frames are confirmed only by a call of `receive` that decodes them. -/
theorem Served.confirmed {done : Option (Option Bytes)} (h : Served S a op result ms) (hf : .confirmed f done ∈ ms) :
    ∃ wire now, op = .receive wire now ∧ S.codec.decode wire = .ok f ∧ f.kind ≠ .ack := by
  cases h with
  | @confirm wire now g _ _ _ hdec hkd _ =>
    have heq : f = g := by
      simp only [mem_cons, Note.confirmed.injEq, not_mem_nil, or_false] at hf
      rcases hf with hf | hf
      · cases hf
      · exact hf.1
    exact ⟨wire, now, rfl, heq ▸ hdec, heq ▸ hkd⟩
  | _ => simp at hf

/-- Chunks are released only by a call of `receive` that decodes their acknowledgement. -/
theorem Served.released {key : ChunkKey} (h : Served S a op result ms) (hk : .released key ∈ ms) :
    ∃ wire now f, op = .receive wire now ∧ S.codec.decode wire = .ok f ∧ f.kind = .ack ∧
      key = (f.stream, f.message, f.index) := by
  cases h with
  | @release wire now f hdec hkd =>
    simp only [mem_singleton, Note.released.injEq] at hk
    exact ⟨wire, now, f, rfl, hdec, hkd, hk⟩
  | _ => simp at hk

end

/-! ## The invariant of a link -/

/-- The histories of the two sides fit their endpoints and each other. -/
structure Linked (P : Pair τ) (l : Link τ) (ns : Side → List Note) : Prop where
  follows : ∀ s, Follows (P.setup s) (l s) (ns s)
  hears : ∀ s, Hears (P.setup s) (ns s.other) (ns s) (l s).adapter

section

variable {P : Pair τ} {l : Link τ} {ns : Side → List Note} {side : Side}

variable (P)

/-- The two sides agree on payload size, stream bound and primitives, and each receives under the key the
    other sends under. -/
theorem Pair.agree (s : Side) : (P.setup s).codec.payload = (P.setup s.other).codec.payload ∧
      (P.setup s).codec.maxStreams = (P.setup s.other).codec.maxStreams ∧
      (P.setup s).codec.crypto = (P.setup s.other).codec.crypto ∧
      (P.setup s).codec.rx = (P.setup s.other).codec.tx ∧ (P.setup s).codec.crypto = P.crypto := by
  obtain ⟨c, hc, -, hl, hcr, htx, hrx, hp⟩ := create_ok (P.created s)
  obtain ⟨c', hc', -, hl', hcr', htx', hrx', hp'⟩ := create_ok (P.created s.other)
  have hcore : c = c' := by
    rw [hc] at hc'
    exact Except.ok.inj hc'
  refine ⟨?_, ?_, ?_, ?_, hcr⟩
  · rw [hp, hp', hcore]
  · rw [(P.setup s).codec_streams, (P.setup s.other).codec_streams, hl, hl']
  · rw [hcr, hcr']
  · rw [hrx, htx']
    cases s <;> rfl

/-- A record that one side sealed is decoded to the same frame by the other. -/
theorem Pair.decode_sealed (s : Side) (hadm : (P.setup s.other).codec.Admits f)
    (hack : f.kind = .ack → f.payload = []) : (P.setup s).codec.decode ((P.setup s.other).codec.sealed f) = .ok f := by
  obtain ⟨hpay, hstrm, hcry, hkey, hC⟩ := P.agree s
  exact Codec.decode_encode (by rw [← hcry, hC]; exact P.lawful) hcry hkey hpay hstrm hadm hack

/-- Every event leaves the link alone or is a call on one side, which can only receive what the other
    side gave to the network. -/
theorem Pair.step_cases (l : Link τ) (e : Event τ) :
    P.step l e = l ∨ ∃ side op, P.step l e = update l side ((l side).call (P.setup side) op) ∧
      ∀ wr now, op = .receive wr now → wr ∈ (l side.other).wires := by
  cases e with
  | call side op hop =>
    refine .inr ⟨side, op, rfl, ?_⟩
    rintro wr now rfl
    cases hop
  | deliver side n now =>
    cases hw : (l side.other).wires[n]? with
    | none => exact .inl (by simp only [Pair.step, hw])
    | some wr =>
      refine .inr ⟨side, .receive wr now, by simp only [Pair.step, hw], ?_⟩
      intro wr' now' heq
      cases heq
      exact mem_of_getElem? hw

theorem Linked.init : Linked P P.init fun _ => [] :=
  ⟨fun _ => .init, fun _ => .init⟩

variable {P}

/-- A frame that one side decodes from a record of the other was sealed there. -/
theorem Linked.carried (h : Linked P l ns) {wr : Bytes} (hwire : wr ∈ (l side.other).wires)
    (hdec : (P.setup side).codec.decode wr = .ok f) : Carried (ns side.other) f := by
  obtain ⟨g, hcar, rfl, hadm, hack⟩ := (h.follows side.other).wires wr hwire
  rw [P.decode_sealed side hadm hack] at hdec
  exact Except.ok.inj hdec ▸ hcar

theorem Linked.call (h : Linked P l ns) {ms : List Note}
    (hauth : ∀ wire now, op = .receive wire now → wire ∈ (l side.other).wires)
    (hserv : Served (P.setup side) (l side).adapter op ((P.setup side).apply (l side).adapter op).1 ms)
    (hsts : Steps (P.setup side) (l side).adapter ms ((P.setup side).apply (l side).adapter op).2) :
    Linked P (update l side ((l side).call (P.setup side) op)) (update ns side (ns side ++ ms)) := by
  have hcon : ∀ f done, .confirmed f done ∈ ms → .emitted f ∈ ns side.other := by
    intro f done hf
    obtain ⟨wire, now, rfl, hdec, hkd⟩ := hserv.confirmed hf
    rcases h.carried (hauth wire now rfl) hdec with hem | ⟨g, _, _, rfl⟩
    · exact hem
    · exact absurd rfl hkd
  have hrel : ∀ key, .released key ∈ ms →
      ∃ f done, .confirmed f done ∈ ns side.other ∧ key = (f.stream, f.message, f.index) := by
    intro key hk
    obtain ⟨wire, now, f, rfl, hdec, hkd, hkey⟩ := hserv.released hk
    rcases h.carried (hauth wire now rfl) hdec with hem | ⟨g, done, hg, rfl⟩
    · exact absurd hkd ((h.follows side.other).numbering.admits f hem).2
    · exact ⟨g, done, hg, hkey⟩
  refine ⟨fun s => ?_, fun s => ?_⟩
  · by_cases hs : s = side
    · subst hs
      simp only [update_self]
      exact (h.follows s).call hserv hsts
    · simp only [update_of_ne hs]
      exact h.follows s
  by_cases hs : s = side
  · subst hs
    simp only [update_self, update_of_ne s.other_ne]
    exact (h.hears s).steps (h.follows s).accounted (h.follows s.other).numbering (P.agree s).1
      hcon hrel hsts
  have hoth : s.other = side := by cases s <;> cases side <;> first | rfl | exact absurd rfl hs
  simp only [update_of_ne hs, hoth, update_self]
  exact hoth ▸ (h.hears s).mono ms

theorem Linked.step (h : Linked P l ns) (e : Event τ) : ∃ ns', Linked P (P.step l e) ns' := by
  rcases P.step_cases l e with heq | ⟨side, op, heq, hauth⟩
  · rw [heq]
    exact ⟨ns, h⟩
  obtain ⟨ms, hserv, hsts⟩ := apply_served (h.follows side).accounted op
  rw [heq]
  exact ⟨_, h.call hauth hserv hsts⟩

theorem run_linked (P : Pair τ) (es : List (Event τ)) : ∃ ns, Linked P (P.run es) ns :=
  foldl_invariant (I := fun l => ∃ ns, Linked P l ns) (fun _ e hl => hl.elim fun _ h => h.step e)
    ⟨_, Linked.init P⟩ es

theorem Linked.returned_sent (h : Linked P l ns) {m : Message} (hm : m ∈ (l side).returned) :
    m ∈ (l side.other).sent := by
  obtain ⟨f, hf, hs, hn⟩ := ((h.follows side).returned m).mp hm
  rw [(h.follows side.other).sent, ← hs, ← hn]
  exact (h.hears side).delivered f m.data hf

/-- **Delivery integrity.** In every run of two adapters over a lossy network, a message that one side
    returns is the data of the send on that stream that got its number at the other side; and a number is
    given to one send only. -/
theorem returned_was_sent (P : Pair τ) (events : List (Event τ)) (side : Side) :
    (∀ m ∈ (P.run events side).returned, m ∈ (P.run events side.other).sent) ∧
    ∀ m ∈ (P.run events side).sent, ∀ m' ∈ (P.run events side).sent,
      m.stream = m'.stream → m.number = m'.number → m = m' := by
  obtain ⟨ns, h⟩ := run_linked P events
  refine ⟨fun m hm => h.returned_sent hm, ?_⟩
  · intro m hm m' hm' hs hn
    rw [(h.follows side).sent] at hm hm'
    rw [← hs, ← hn] at hm'
    have hdata := (h.follows side).numbering.unique _ _ _ _ hm hm'
    obtain ⟨s, n, d⟩ := m
    obtain ⟨s', n', d'⟩ := m'
    simp only [Message.mk.injEq]
    exact ⟨hs, hn, hdata⟩

end

/-! ## Extensions between the two sides -/

/-- A call of `extension` that takes a message number. -/
def TakesNumber (S : Setup τ) (a : ReliableAdapter τ) (stream : Int) (name : Text) (value : Json) : Prop :=
  a.closed = false ∧ (0 ≤ stream ∧ stream < S.limits.maxStreams) ∧ name ∈ S.extensions ∧
    (Python.portable (extensionValue name value)).isOk = true ∧ a.nextMessage stream.toNat < 2 ^ 64 - 1

/-- What `extension` does: nothing, or it takes a number and encodes the canonical payload. -/
theorem extension_cases (S : Setup τ) (a : ReliableAdapter τ) (stream : Int) (name : Text) (value : Json) :
    (¬ TakesNumber S a stream name value ∧ ∃ e, a.extension S stream name value = (.error e, a)) ∨
    (TakesNumber S a stream name value ∧ ∃ payload, name ∈ S.extensions ∧
      Python.portable (extensionValue name value) = .ok payload ∧
      stream.toNat < S.codec.maxStreams ∧ a.nextMessage stream.toNat < 2 ^ 64 ∧
      (a.extension S stream name value).1 =
        S.codec.encode (extensionFrame stream.toNat (a.nextMessage stream.toNat) payload) ∧
      (a.extension S stream name value).2.nextMessage = (a.reserve stream.toNat).nextMessage) := by
  rw [S.codec_streams]
  unfold extension TakesNumber
  by_cases hclosed : a.closed = true
  · exact .inl ⟨by simp [hclosed], _, if_pos hclosed⟩
  rw [if_neg hclosed]
  by_cases hstream : 0 ≤ stream ∧ stream < S.limits.maxStreams
  swap
  · exact .inl ⟨fun h => hstream h.2.1, _, if_pos hstream⟩
  rw [if_neg (not_not.mpr hstream)]
  by_cases hname : name ∈ S.extensions
  swap
  · exact .inl ⟨fun h => hname h.2.2.1, _, if_pos hname⟩
  rw [if_neg (not_not.mpr hname)]
  cases hp : Python.portable (extensionValue name value) with
  | error e => exact .inl ⟨by simp [Except.isOk, Except.toBool], _, rfl⟩
  | ok payload =>
    by_cases hlast : 2 ^ 64 - 1 ≤ a.nextMessage stream.toNat
    · exact .inl ⟨fun h => absurd h.2.2.2.2 (not_lt.mpr hlast), _, if_pos hlast⟩
    dsimp only
    rw [if_neg hlast]
    refine .inr ⟨⟨Bool.eq_false_iff.mpr hclosed, hstream, hname, rfl, not_le.mp hlast⟩, payload, hname, rfl,
      by omega, by omega, ?_⟩
    cases S.codec.encode (extensionFrame stream.toNat (a.nextMessage stream.toNat) payload) <;> exact ⟨rfl, rfl⟩

/-- An open adapter returns the event of an extension that it reads and has not completed yet. -/
theorem receive_event {S : Setup τ} {a : ReliableAdapter τ} {wire : Bytes} (hopen : a.closed = false)
    (hdecode : S.codec.decode wire = .ok f) (hkind : f.kind = .extension) (hnew : (f.stream, f.message) ∉ a.completed)
    (now : τ) : (a.receive S wire now).1 = (Python.readExtension S.nfc S.extensions f.payload).map fun event =>
      ⟨[S.codec.sealed (ackFrame f)], [], [(f.stream, event.1, event.2)]⟩ := by
  have hack : S.codec.encode (ackFrame f) = _ := Codec.encode_of_admits (Codec.ack_admits hdecode)
  simp only [receive, hopen, hdecode, hkind, hack, receiveExtension, note, hnew]
  cases Python.readExtension S.nfc S.extensions f.payload <;> rfl

/-- **Extensions between peers**, with one allowlist. A returned frame gives the other side the event (the members in
    the order of the payload) exactly if the strings of the payload are normalized without a NUL. A refusal leaves the
    message number as it is exactly if a call that takes a number has a payload that fits a frame. -/
theorem extension_accepted (P : Pair τ) (s : Side) (hallow : (P.setup s).extensions = (P.setup s.other).extensions)
    (a b : ReliableAdapter τ) (stream : Int) (name : Text) (value : Json)
    (hkeys : DistinctKeys (extensionValue name value)) :
    (∀ wire now, (a.extension (P.setup s.other) stream name value).1 = .ok wire → b.closed = false →
      (stream.toNat, a.nextMessage stream.toNat) ∉ b.completed →
      ((∃ ack, (b.receive (P.setup s) wire now).1
          = .ok ⟨[ack], [], [(stream.toNat, name, arrange Python.sortKeys value)]⟩) ↔
        Normalized (P.setup s).nfc (extensionValue name value))) ∧
    ∀ e, (a.extension (P.setup s.other) stream name value).1 = .error e →
      ((a.extension (P.setup s.other) stream name value).2.nextMessage = a.nextMessage ↔
        (TakesNumber (P.setup s.other) a stream name value →
          (utf8 (Python.dumps (extensionValue name value))).length ≤ (P.setup s.other).codec.payload)) := by
  obtain ⟨hnot, e, he⟩ | ⟨htakes, payload, hname, hp, hstream, hmessage, hencode, hnext⟩ :=
    extension_cases (P.setup s.other) a stream name value
  · rw [he]
    exact ⟨nofun, fun _ _ => iff_of_true rfl fun h => absurd h hnot⟩
  rw [hencode, hnext]
  have hbytes := (Python.portable_ok hp).2.1
  constructor
  · intro wire now hwire hopen hnew
    obtain ⟨hadmits, rfl⟩ := Codec.encode_eq_ok hwire
    rw [receive_event hopen (P.decode_sealed s hadmits nofun) rfl hnew now]
    constructor
    · rintro ⟨ack, hevent⟩
      cases hread : Python.readExtension (P.setup s).nfc (P.setup s).extensions payload with
      | error e =>
        rw [show (extensionFrame stream.toNat (a.nextMessage stream.toNat) payload).payload = payload from rfl,
          hread] at hevent
        cases hevent
      | ok event => exact Python.normalized_of_readExtension hp hkeys hread
    · intro hnormal
      have hread := Python.readExtension_portable hp hkeys hnormal (hallow ▸ hname)
      rw [show (extensionFrame stream.toNat (a.nextMessage stream.toNat) payload).payload = payload from rfl, hread]
      exact ⟨_, rfl⟩
  · intro e hfailed
    have hchanged : (a.reserve stream.toNat).nextMessage ≠ a.nextMessage := by
      intro heq
      have hone := congrFun heq stream.toNat
      simp [ReliableAdapter.reserve] at hone
    refine iff_of_false hchanged fun hfits => ?_
    have hadmits : (P.setup s.other).codec.Admits (extensionFrame stream.toNat (a.nextMessage stream.toNat) payload) :=
      ⟨hstream, hmessage, hbytes ▸ hfits htakes, le_rfl, Nat.le_add_left 1 65534, Nat.one_pos⟩
    rw [Codec.encode_of_admits hadmits] at hfailed
    cases hfailed

/-- The small configuration with the extension `x` enabled on both sides. -/
def Pair.named : Pair ℚ :=
  { Pair.small with
    setup := fun s => { Setup.small s.index with extensions := [['x']] }
    created := by intro s; cases s <;> rfl }

/-- What side `a` answers to `extension(0, name, value)` at the start. -/
def offered (name : Text) (value : Json) : Outcome ℚ Bytes :=
  (Pair.named.setup .a).init.extension (Pair.named.setup .a) 0 name value

/-- What side `b` answers to a record at the start. -/
def heard (wire : Bytes) : Outcome ℚ Received := (Pair.named.setup .b).init.receive (Pair.named.setup .b) wire 0

theorem extension_accepted_sample :
    (∃ wire ack, (offered ['x'] .null).1 = .ok wire ∧ (heard wire).1 = .ok ⟨[ack], [], [(0, ['x'], .null)]⟩) ∧
    ((offered ['y'] (.str (replicate 64 'x'))).1.isOk = false ∧
      (offered ['y'] (.str (replicate 64 'x'))).2.nextMessage = (Pair.named.setup .a).init.nextMessage) := by
  have hevent := extension_accepted .named .b rfl (Pair.named.setup .a).init (Pair.named.setup .b).init 0
    ['x'] .null (by unfold DistinctKeys; decide)
  have hlong := extension_accepted .named .b rfl (Pair.named.setup .a).init (Pair.named.setup .b).init 0
    ['y'] (.str (replicate 64 'x')) (by unfold DistinctKeys; decide)
  obtain ⟨ack, hack⟩ := (hevent.1 _ 0 rfl rfl (Finset.notMem_empty _)).mpr (by unfold Normalized; decide)
  -- the name is not enabled
  refine ⟨⟨_, ack, rfl, hack⟩, rfl, (hlong.2 _ rfl).mpr fun h => absurd h.2.2.1 (by decide)⟩

/-- A payload that does not fit a frame takes a message number; a string with a NUL is sent and refused. -/
theorem extension_refused :
    ((offered ['x'] (.str (replicate 64 'x'))).1.isOk = false ∧
      (offered ['x'] (.str (replicate 64 'x'))).2.nextMessage 0 = 1) ∧
    ∃ wire, (offered ['x'] (.str [Char.ofNat 0])).1 = .ok wire ∧ (heard wire).1.isOk = false :=
  ⟨⟨rfl, rfl⟩, _, rfl, by decide +kernel⟩

end Shadow6.NetworkAdapter
