import Shadow6.NetworkAdapter.Steps

/-!
# `NetworkAdapter.Accounting` — the linked containers stay in balance

The sender keeps a message in four places: `outgoing` (chunks not acknowledged, bytes), `pending` (chunks
in flight), its queue (chunks not sent) and the running total `buffered`. The receiver keeps reassembly
states next to the running total `incomingBytes`. `Sending` and `Reassembling` say how they fit together,
each with the freshness facts that make it inductive; every `Step` preserves both.
-/

namespace Shadow6.NetworkAdapter

open Library List Function Dict ReliableAdapter

variable {τ : Type}

namespace ReliableAdapter

/-! ## Counting the chunks of a message -/

/-- The chunks of a message in flight. -/
def pendingOf (a : ReliableAdapter τ) (id : Identity) : Int :=
  a.pending.sumOf fun key _ => if (key.1, key.2.1) = id then 1 else 0

/-- The chunks of a message that an item of its queue still holds. -/
def Item.unsent (message : Nat) (item : Item) : Int :=
  if item.message = message then (item.count : Int) - item.index else 0

/-- The chunks of a message not yet taken from its queue. -/
def unsentOf (a : ReliableAdapter τ) (id : Identity) : Int :=
  ((a.queues id.1).map (Item.unsent id.2)).sum

end ReliableAdapter

/-! ## The round robin -/

/-- The active list names every stream with a non-empty queue exactly once, and no other stream. -/
structure Scheduled (active : List Nat) (queues : Nat → List Item) : Prop where
  nodup : active.Nodup
  mem : ∀ s, s ∈ active ↔ queues s ≠ []

/-- A stream is listed when its queue stops being empty. -/
theorem Scheduled.push {active : List Nat} {queues : Nat → List Item} (h : Scheduled active queues)
    {stream : Nat} {item : Item} : Scheduled (if (queues stream).isEmpty then active ++ [stream] else active)
      (update queues stream (queues stream ++ [item])) := by
  by_cases hnil : queues stream = []
  · have hnot : stream ∉ active := fun hm => (h.mem stream).mp hm hnil
    rw [if_pos (isEmpty_iff.mpr hnil)]
    refine ⟨h.nodup.append (nodup_singleton _) (by simpa using hnot), fun s => ?_⟩
    by_cases hs : s = stream
    · simp [hs]
    · simp [hs, h.mem s]
  rw [if_neg (fun he => hnil (isEmpty_iff.mp he))]
  refine ⟨h.nodup, fun s => ?_⟩
  by_cases hs : s = stream
  · subst hs
    simp [h.mem s, hnil]
  · simp [hs, h.mem s]

/-- The served stream goes to the end of the list, or leaves it with its last item. -/
theorem Scheduled.serve {stream : Nat} {rest : List Nat} {q : Nat → List Item}
    (h : Scheduled (stream :: rest) q) (itm : List Item) :
    Scheduled (if itm.isEmpty then rest else rest ++ [stream]) (update q stream itm) := by
  obtain ⟨hnot, hrs⟩ := nodup_cons.mp h.nodup
  have hoth : ∀ s, s ≠ stream → (s ∈ rest ↔ q s ≠ []) := by
    intro s hs
    rw [← h.mem s, mem_cons, or_iff_right hs]
  by_cases hnil : itm = []
  · rw [if_pos (isEmpty_iff.mpr hnil)]
    refine ⟨hrs, fun s => ?_⟩
    by_cases hs : s = stream
    · simp [hs, hnil, hnot]
    · simp [hs, hoth s hs]
  rw [if_neg (fun he => hnil (isEmpty_iff.mp he))]
  refine ⟨hrs.append (nodup_singleton _) (by simpa using hnot), fun s => ?_⟩
  by_cases hs : s = stream
  · simp [hs, hnil]
  · simp [hs, hoth s hs]

open ReliableAdapter

/-! ## The invariant -/

/-- **The sender's books.** The last five fields keep identities fresh: what is in flight or queued
    belongs to an outgoing message, and a queue is ahead of everything it has already sent. -/
structure Sending (S : Setup τ) (a : ReliableAdapter τ) : Prop where
  buffered : a.buffered = a.outgoing.sumOf fun _ o => o.bytes
  buffered_le : a.buffered ≤ S.limits.maxInflight
  remaining : ∀ id o, a.outgoing.find? id = some o →
    0 < o.remaining ∧ o.remaining = a.pendingOf id + a.unsentOf id
  window : a.pending.size ≤ S.window
  active : Scheduled a.activeStreams a.queues
  pending_outgoing : ∀ key ∈ a.pending, (key.1, key.2.1) ∈ a.outgoing
  queued : ∀ s, ∀ item ∈ a.queues s, s < S.limits.maxStreams ∧ item.index < item.count ∧
    item.count ≤ 65535 ∧ (s, item.message) ∈ a.outgoing
  ordered : ∀ s, (a.queues s).Pairwise fun x y => x.message < y.message
  ahead : ∀ s, ∀ item ∈ a.queues s, ∀ i, (s, item.message, i) ∈ a.pending → i < item.index
  numbered : ∀ id ∈ a.outgoing, id.2 < a.nextMessage id.1 ∧ a.nextMessage id.1 < 2 ^ 64

/-- **The receiver's books.** A stored reassembly state is never complete. -/
structure Reassembling (S : Setup τ) (a : ReliableAdapter τ) : Prop where
  bytes : a.incomingBytes = a.incoming.sumOf fun _ r => r.bytes
  bytes_le : a.incomingBytes ≤ S.limits.maxInflight
  state : ∀ id r, a.incoming.find? id = some r →
    (r.bytes : Int) = (r.parts.sumOf fun _ p => p.length) ∧ r.parts.size < r.count ∧
      ∀ i ∈ r.parts, i < r.count

/-- Both books. -/
structure Accounted (S : Setup τ) (a : ReliableAdapter τ) : Prop where
  sending : Sending S a
  reassembling : Reassembling S a

section

variable {S : Setup τ} {a b : ReliableAdapter τ} {key : ChunkKey}

/-! ## Frames: what a step leaves alone -/

theorem pendingOf_of_keys (h : b.pending.entries.map Prod.fst = a.pending.entries.map Prod.fst)
    (id : Identity) : b.pendingOf id = a.pendingOf id := by
  unfold pendingOf
  rw [sumOf_key, sumOf_key, h]

/-- The sender's books read only the keys of the frames in flight. -/
theorem Sending.restamp {pd : Dict ChunkKey (Pending τ)} (h : Sending S a)
    (hkeys : pd.entries.map Prod.fst = a.pending.entries.map Prod.fst) :
    Sending S { a with pending := pd } := by
  have hmem : ∀ key, key ∈ pd ↔ key ∈ a.pending := by
    intro key
    show key ∈ pd.entries.map Prod.fst ↔ key ∈ a.pending.entries.map Prod.fst
    rw [hkeys]
  have hsz : pd.size = a.pending.size := by simpa [Dict.size] using congrArg List.length hkeys
  refine { h with remaining := ?_, window := ?_, pending_outgoing := ?_, ahead := ?_ }
  · intro id o ho
    rw [pendingOf_of_keys hkeys]
    exact h.remaining id o ho
  · rw [hsz]
    exact h.window
  · exact fun key hkey => h.pending_outgoing key ((hmem key).mp hkey)
  · exact fun s item hit i hi => h.ahead s item hit i ((hmem _).mp hi)

/-! ## Queuing a message -/

theorem pendingOf_eq_zero {id : Identity} (h : ∀ key ∈ a.pending, (key.1, key.2.1) ≠ id) : a.pendingOf id = 0 := by
  unfold pendingOf
  rw [sumOf_congr (g := fun _ _ => 0)]
  · simp [Dict.sumOf]
  · intro key p hkey
    exact if_neg (h key (mem_of_find? (find?_eq_some_iff.mpr hkey)))

theorem unsent_eq_zero {m : Nat} {itm : List Item} (h : ∀ item ∈ itm, item.message ≠ m) :
    (itm.map (Item.unsent m)).sum = 0 := by
  apply sum_eq_zero
  exact forall_mem_map.mpr fun item hit => if_neg (h item hit)

theorem Sending.fresh (h : Sending S a) (s : Nat) : (s, a.nextMessage s) ∉ a.outgoing :=
  fun hmem => lt_irrefl _ (h.numbered _ hmem).1

theorem unsentOf_enqueue (stream : Nat) (dt : Bytes) (id : Identity) :
    (a.enqueue S stream dt).unsentOf id = a.unsentOf id +
      if id = (stream, a.nextMessage stream) then (chunkCount dt.length S.codec.payload : Int) else 0 := by
  obtain ⟨s, m⟩ := id
  unfold unsentOf enqueue
  by_cases hs : s = stream
  · subst hs
    simp only [update_self, map_append, sum_append, map_cons, map_nil,
      sum_singleton, Item.unsent, Prod.mk.injEq, true_and, Nat.cast_zero, sub_zero]
    simp only [eq_comm (a := a.nextMessage s)]
  · simp [hs]

/-- A queue holds what it held, and the new message at the end of that of its stream. -/
theorem mem_enqueue {stream s : Nat} {dt : Bytes} {x : Item} (hx : x ∈ (a.enqueue S stream dt).queues s) :
    x ∈ a.queues s ∨ (s = stream ∧ x = ⟨a.nextMessage stream, dt, 0, chunkCount dt.length S.codec.payload⟩) := by
  by_cases hs : s = stream
  · subst hs
    simp only [enqueue, update_self, mem_append, mem_singleton] at hx
    exact hx.imp_right fun heq => ⟨rfl, heq⟩
  · simp only [enqueue, update_of_ne hs] at hx
    exact .inl hx

theorem Sending.accept {stream : Nat} {dt : Bytes} (h : Sending S a)
    (hstr : stream < S.limits.maxStreams) (hdt : dt ≠ [])
    (hcnt : chunkCount dt.length S.codec.payload ≤ 65535) (hroom : a.buffered + dt.length ≤ S.limits.maxInflight)
    (hnx : a.nextMessage stream < 2 ^ 64 - 1) : Sending S (a.enqueue S stream dt) := by
  have hfsh := h.fresh stream
  have habs : a.outgoing.find? (stream, a.nextMessage stream) = none := not_mem_iff_find?.mp hfsh
  have hpos : 0 < chunkCount dt.length S.codec.payload :=
    chunkCount_pos (lt_of_lt_of_le (by decide) S.codec.payload_bounds.1) (length_pos_iff.mpr hdt)
  -- a queued or pending chunk is of an outgoing message, hence not of the new one
  have hqu : ∀ item ∈ a.queues stream, item.message < a.nextMessage stream := fun item hit =>
    (h.numbered _ (h.queued stream item hit).2.2.2).1
  refine ⟨?_, hroom, ?_, h.window, ?_, ?_, ?_, ?_, ?_, ?_⟩
  · show a.buffered + dt.length = (a.outgoing.set _ _).sumOf _
    rw [sumOf_set_absent _ habs, h.buffered]
  · intro id o ho
    rw [unsentOf_enqueue]
    rcases find?_set_cases ho with ⟨rfl, rfl⟩ | ⟨hid, ho⟩
    · have hp : a.pendingOf (stream, a.nextMessage stream) = 0 :=
        pendingOf_eq_zero fun key hkey heq => hfsh (heq ▸ h.pending_outgoing key hkey)
      have hu : a.unsentOf (stream, a.nextMessage stream) = 0 :=
        unsent_eq_zero fun item hit => ne_of_lt (hqu item hit)
      show (0 : Int) < chunkCount dt.length S.codec.payload ∧
        (chunkCount dt.length S.codec.payload : Int) = a.pendingOf _ + _
      rw [hp, hu, if_pos rfl]
      omega
    · rw [if_neg hid, add_zero]
      exact h.remaining id o ho
  · exact h.active.push
  · intro key hkey
    exact mem_set.mpr (.inr (h.pending_outgoing key hkey))
  · intro s item hit
    rcases mem_enqueue hit with hit | ⟨rfl, rfl⟩
    · obtain ⟨h1, h2, h3, h4⟩ := h.queued s item hit
      exact ⟨h1, h2, h3, mem_set.mpr (.inr h4)⟩
    · exact ⟨hstr, hpos, hcnt, mem_set.mpr (.inl rfl)⟩
  · intro s
    by_cases hs : s = stream
    · subst hs
      simp only [enqueue, update_self]
      refine pairwise_append.mpr ⟨h.ordered s, pairwise_singleton _ _, ?_⟩
      intro x hx y hy
      rw [mem_singleton] at hy
      subst hy
      exact hqu x hx
    · simpa only [enqueue, update_of_ne hs] using h.ordered s
  · intro s item hit i hi
    rcases mem_enqueue hit with hit | ⟨rfl, rfl⟩
    · exact h.ahead s item hit i hi
    · exact absurd (h.pending_outgoing _ hi) hfsh
  · intro id hid
    rcases mem_set.mp hid with rfl | hid
    · simp only [enqueue, update_self]
      omega
    obtain ⟨h1, h2⟩ := h.numbered id hid
    by_cases hs : id.1 = stream
    · simp only [enqueue, hs, update_self] at h1 h2 ⊢
      omega
    · simpa only [enqueue, update_of_ne hs] using ⟨h1, h2⟩

/-! ## Sending a chunk -/

theorem unsent_advance (item : Item) (itm : List Item) (m : Nat) : ((advance item itm).map (Item.unsent m)).sum
      = ((item :: itm).map (Item.unsent m)).sum - if item.message = m then 1 else 0 := by
  unfold advance
  by_cases hlast : item.index + 1 = item.count
  · rw [if_pos hlast, map_cons, sum_cons]
    unfold Item.unsent
    split_ifs <;> omega
  rw [if_neg hlast]
  simp only [map_cons, sum_cons, Item.unsent]
  split_ifs
  · omega
  · omega

section transmit

variable {now : τ} {stream : Nat} {r : List Nat} {itm : Item} {it : List Item}

/-- After the front chunk of a stream was taken, a queue holds the front item advanced, or what it held. -/
theorem mem_transmitted {s : Nat} {x : Item} (hqu : a.queues stream = itm :: it)
    (hidx : itm.index < itm.count) (hx : x ∈ (a.transmitted S now stream r itm it).queues s) :
    (s = stream ∧ x = { itm with index := itm.index + 1 } ∧ x.index < x.count) ∨
      (x ∈ a.queues s ∧ (s = stream → x ∈ it)) := by
  by_cases hs : s = stream
  · subst hs
    simp only [transmitted, update_self, advance] at hx
    split_ifs at hx with hlast
    · exact .inr ⟨hqu ▸ mem_cons_of_mem _ hx, fun _ => hx⟩
    rcases mem_cons.mp hx with rfl | hx
    · exact .inl ⟨rfl, rfl, Nat.lt_of_le_of_ne hidx hlast⟩
    · exact .inr ⟨hqu ▸ mem_cons_of_mem _ hx, fun _ => hx⟩
  · simp only [transmitted, update_of_ne hs] at hx
    exact .inr ⟨hx, fun heq => absurd heq hs⟩

theorem unsentOf_transmitted (hqu : a.queues stream = itm :: it) (id : Identity) :
    (a.transmitted S now stream r itm it).unsentOf id
      = a.unsentOf id - if (stream, itm.message) = id then 1 else 0 := by
  obtain ⟨s, m⟩ := id
  unfold unsentOf transmitted
  by_cases hs : s = stream
  · subst hs
    simp only [update_self, unsent_advance itm it, hqu, Prod.mk.injEq, true_and]
  · have hs' : ¬ stream = s := fun h => hs h.symm
    simp [hs, hs']

theorem pendingOf_transmitted (hfsh : (stream, itm.message, itm.index) ∉ a.pending) (id : Identity) :
    (a.transmitted S now stream r itm it).pendingOf id
      = a.pendingOf id + if (stream, itm.message) = id then 1 else 0 :=
  sumOf_set_absent _ (not_mem_iff_find?.mp hfsh)

theorem Sending.transmit (h : Sending S a) (hwin : a.pending.size < S.window)
    (hact : a.activeStreams = stream :: r) (hqu : a.queues stream = itm :: it) :
    Sending S (a.transmitted S now stream r itm it) := by
  have hit : itm ∈ a.queues stream := hqu ▸ mem_cons_self
  obtain ⟨hstr, hidx, hcnt, hout⟩ := h.queued stream itm hit
  have hfsh : (stream, itm.message, itm.index) ∉ a.pending := fun hmem =>
    lt_irrefl _ (h.ahead stream itm hit itm.index hmem)
  have hord := h.ordered stream
  rw [hqu, pairwise_cons] at hord
  refine ⟨h.buffered, h.buffered_le, ?_, ?_, ?_, ?_, ?_, ?_, ?_, h.numbered⟩
  · intro id o ho
    rw [unsentOf_transmitted hqu, pendingOf_transmitted hfsh]
    obtain ⟨hpos, hsum⟩ := h.remaining id o ho
    exact ⟨hpos, by omega⟩
  · show (a.pending.set _ _).size ≤ _
    rw [size_set_absent (not_mem_iff_find?.mp hfsh)]
    exact hwin
  · exact Scheduled.serve (hact ▸ h.active) _
  · intro key hkey
    rcases mem_set.mp hkey with rfl | hkey
    · exact hout
    · exact h.pending_outgoing key hkey
  · intro s x hx
    rcases mem_transmitted hqu hidx hx with ⟨rfl, rfl, hlt⟩ | ⟨hx, -⟩
    · exact ⟨hstr, hlt, hcnt, hout⟩
    · exact h.queued s x hx
  · intro s
    by_cases hs : s = stream
    · subst hs
      simp only [transmitted, update_self, advance]
      split_ifs
      · exact hord.2
      · exact pairwise_cons.mpr hord
    · simpa only [transmitted, update_of_ne hs] using h.ordered s
  · intro s x hx i hi
    rcases mem_transmitted hqu hidx hx with ⟨rfl, rfl, -⟩ | ⟨hx, hmem⟩
    · rcases mem_set.mp hi with heq | hi
      · simp only [Prod.mk.injEq, true_and] at heq
        exact heq ▸ Nat.lt_succ_self _
      · exact Nat.lt_succ_of_lt (h.ahead s itm hit i hi)
    rcases mem_set.mp hi with heq | hi
    · simp only [Prod.mk.injEq] at heq
      exact absurd heq.2.1 (ne_of_gt (hord.1 x (hmem heq.1)))
    · exact h.ahead s x hx i hi

end transmit

/-! ## Taking a message number, releasing a chunk -/

theorem Sending.reserve {stream : Nat} (h : Sending S a) (hnx : a.nextMessage stream < 2 ^ 64 - 1) :
    Sending S (a.reserve stream) := by
  refine { h with numbered := ?_ }
  intro id hid
  obtain ⟨h1, h2⟩ := h.numbered id hid
  by_cases hs : id.1 = stream
  · simp only [ReliableAdapter.reserve, hs, update_self] at h1 h2 ⊢
    omega
  · simpa only [ReliableAdapter.reserve, update_of_ne hs] using ⟨h1, h2⟩

theorem pendingOf_erase {p : Pending τ} (hp : a.pending.find? key = some p) (id : Identity) :
    ({ a with pending := a.pending.erase key } : ReliableAdapter τ).pendingOf id
      = a.pendingOf id - if (key.1, key.2.1) = id then 1 else 0 :=
  sumOf_erase _ hp

theorem pendingOf_pos (h : key ∈ a.pending) : 0 < a.pendingOf (key.1, key.2.1) := by
  obtain ⟨p, hp⟩ := mem_iff_find?.mp h
  have hle := le_sumOf (f := fun (k : ChunkKey) (_ : Pending τ) =>
    if (k.1, k.2.1) = (key.1, key.2.1) then 1 else 0) (fun k _ _ => by split_ifs <;> decide) hp
  simp only [if_true] at hle
  exact hle

theorem Sending.unsent_nonneg (h : Sending S a) (id : Identity) :
    ∀ x ∈ (a.queues id.1).map (Item.unsent id.2), 0 ≤ x := by
  intro x hx
  obtain ⟨item, hit, rfl⟩ := mem_map.mp hx
  have hidx := (h.queued id.1 item hit).2.1
  unfold Item.unsent
  split_ifs <;> omega

theorem Sending.unsentOf_pos (h : Sending S a) {s : Nat} {item : Item} (hit : item ∈ a.queues s) :
    0 < a.unsentOf (s, item.message) := by
  have hidx := (h.queued s item hit).2.1
  have hle := single_le_sum (h.unsent_nonneg (s, item.message)) _ (mem_map_of_mem hit)
  have hone : 0 < Item.unsent item.message item := by
    unfold Item.unsent
    omega
  exact lt_of_lt_of_le hone hle

/-- Taking an acknowledged chunk out of `pending` and off the counter of its message. -/
theorem Sending.release {p : Pending τ} {o : Outgoing} (h : Sending S a) (hp : a.pending.find? key = some p)
    (ho : a.outgoing.find? (key.1, key.2.1) = some o) :
    Sending S ({ a with pending := a.pending.erase key }.release (key.1, key.2.1) o) := by
  obtain ⟨hpos, hsum⟩ := h.remaining _ o ho
  have hpend : ∀ key' ∈ a.pending.erase key, key' ∈ a.pending := fun _ hk => (mem_erase.mp hk).2
  have hwin : (a.pending.erase key).size ≤ S.window := by
    have hsz := size_erase hp
    have := h.window
    omega
  by_cases hlast : o.remaining - 1 = 0
  · -- the last chunk: the message has nothing else in flight and nothing queued
    have hone := pendingOf_pos (a := a) (mem_of_find? hp)
    have huns : 0 ≤ a.unsentOf (key.1, key.2.1) := sum_nonneg (h.unsent_nonneg (key.1, key.2.1))
    have hrs : ∀ key' ∈ a.pending.erase key, (key'.1, key'.2.1) ≠ (key.1, key.2.1) := by
      intro key' hk heq
      have hmore := pendingOf_pos (a := { a with pending := a.pending.erase key }) hk
      rw [heq, pendingOf_erase hp, if_pos rfl] at hmore
      omega
    have hqu : ∀ s, ∀ item ∈ a.queues s, (s, item.message) ≠ (key.1, key.2.1) := by
      intro s item hit heq
      have hmore := h.unsentOf_pos hit
      rw [heq] at hmore
      omega
    have hby := sumOf_erase (fun _ (o : Outgoing) => (o.bytes : Int)) ho
    unfold ReliableAdapter.release
    rw [if_pos hlast]
    refine ⟨?_, ?_, ?_, hwin, h.active, ?_, ?_, h.ordered, ?_, ?_⟩
    · rw [hby, h.buffered]
    · show a.buffered - o.bytes ≤ _
      have := h.buffered_le
      omega
    · intro id o' ho'
      rw [find?_erase] at ho'
      split_ifs at ho' with hid
      obtain ⟨hpos', hsum'⟩ := h.remaining id o' ho'
      have := pendingOf_erase hp id
      rw [if_neg (Ne.symm hid), sub_zero] at this
      exact ⟨hpos', this ▸ hsum'⟩
    · intro key' hk
      exact mem_erase.mpr ⟨hrs key' hk, h.pending_outgoing key' (hpend key' hk)⟩
    · intro s item hit
      obtain ⟨h1, h2, h3, h4⟩ := h.queued s item hit
      exact ⟨h1, h2, h3, mem_erase.mpr ⟨hqu s item hit, h4⟩⟩
    · exact fun s item hit i hi => h.ahead s item hit i (hpend _ hi)
    · exact fun id hid => h.numbered id (mem_erase.mp hid).2
  have hmem : ∀ id, id ∈ a.outgoing.set (key.1, key.2.1) { o with remaining := o.remaining - 1 } ↔ id ∈ a.outgoing := by
    intro id
    rw [Dict.mem_set, or_iff_right_of_imp]
    rintro rfl
    exact mem_of_find? ho
  unfold ReliableAdapter.release
  rw [if_neg hlast]
  refine ⟨?_, h.buffered_le, ?_, hwin, h.active, ?_, ?_, h.ordered, ?_, ?_⟩
  · rw [sumOf_set_present _ ho, h.buffered]
    exact (sub_add_cancel _ _).symm
  · intro id o' ho'
    have hpo := pendingOf_erase hp id
    rw [find?_set] at ho'
    split_ifs at ho' with hid
    · subst hid
      simp only [Option.some.injEq] at ho'
      subst ho'
      rw [if_pos rfl] at hpo
      change 0 < o.remaining - 1 ∧ o.remaining - 1 = pendingOf _ _ + _
      refine ⟨by omega, ?_⟩
      have hgoal : o.remaining - 1 = (a.pendingOf (key.1, key.2.1) - 1) + a.unsentOf (key.1, key.2.1) := by
        omega
      exact hpo ▸ hgoal
    obtain ⟨hpos', hsum'⟩ := h.remaining id o' ho'
    rw [if_neg (Ne.symm hid), sub_zero] at hpo
    exact ⟨hpos', hpo ▸ hsum'⟩
  · exact fun key' hk => (hmem _).mpr (h.pending_outgoing key' (hpend key' hk))
  · intro s item hit
    obtain ⟨h1, h2, h3, h4⟩ := h.queued s item hit
    exact ⟨h1, h2, h3, (hmem _).mpr h4⟩
  · exact fun s item hit i hi => h.ahead s item hit i (hpend _ hi)
  · exact fun id hid => h.numbered id ((hmem id).mp hid)

/-! ## Reassembly -/

variable {f : Frame}

section

variable (h : Reassembling S a)
include h

/-- The reassembly state a frame meets is well formed, whether it was stored or is fresh. -/
theorem Reassembling.current (now : τ) (hf : f.index < f.count) : ((a.reassemblyFor S now f).bytes : Int)
        = ((a.reassemblyFor S now f).parts.sumOf fun _ p => p.length) ∧
      (a.reassemblyFor S now f).parts.size < (a.reassemblyFor S now f).count ∧
      ∀ i ∈ (a.reassemblyFor S now f).parts, i < (a.reassemblyFor S now f).count := by
  unfold reassemblyFor
  cases hfd : a.incoming.find? (f.stream, f.message) with
  | some r => exact h.state _ r hfd
  | none =>
    refine ⟨rfl, ?_, ?_⟩
    · show 0 < f.count
      omega
    · intro i hi
      exact absurd hi (not_mem_empty i)

omit h in
theorem sumOf_absorbed {now : τ} : ((a.absorbed S now f).incoming.sumOf fun _ r => (r.bytes : Int))
      = (a.incoming.sumOf fun _ r => (r.bytes : Int)) + f.payload.length := by
  show ((a.incoming.set _ _).sumOf _) = _
  unfold reassemblyFor
  cases hfd : a.incoming.find? (f.stream, f.message) with
  | some r =>
    rw [sumOf_set_present _ hfd]
    simp only [Option.getD_some, Reassembly.add, Nat.cast_add]
    omega
  | none =>
    rw [sumOf_set_absent _ hfd]
    simp [Reassembly.add]

theorem Reassembling.added {now : τ} (hf : Absorbable S now f a) :
    (((a.reassemblyFor S now f).add f.index f.payload).bytes : Int)
        = (((a.reassemblyFor S now f).add f.index f.payload).parts.sumOf fun _ p => (p.length : Int)) ∧
      ((a.reassemblyFor S now f).add f.index f.payload).parts.size = (a.reassemblyFor S now f).parts.size + 1 ∧
      ∀ i ∈ ((a.reassemblyFor S now f).add f.index f.payload).parts, i < f.count := by
  obtain ⟨hby, -, hidx⟩ := h.current now hf.index
  refine ⟨?_, size_set_absent hf.absent, ?_⟩
  · show (((a.reassemblyFor S now f).bytes + f.payload.length : Nat) : Int)
      = ((a.reassemblyFor S now f).parts.set f.index f.payload).sumOf _
    rw [sumOf_set_absent _ hf.absent, ← hby, Nat.cast_add]
  · intro i hi
    rcases mem_set.mp hi with rfl | hi
    · exact hf.index
    · exact hf.count ▸ hidx i hi

theorem Reassembling.absorb {now : τ} (hf : Absorbable S now f a)
    (hps : ((a.reassemblyFor S now f).add f.index f.payload).parts.size ≠ f.count) :
    Reassembling S (a.absorbed S now f) := by
  obtain ⟨-, hsz, -⟩ := h.current now hf.index
  obtain ⟨hby, hsz', hidx⟩ := h.added hf
  refine ⟨?_, hf.inflight, ?_⟩
  · rw [sumOf_absorbed, ← h.bytes]
    rfl
  · intro id r hr
    rcases find?_set_cases hr with ⟨-, rfl⟩ | ⟨-, hr⟩
    · have hcnt : ((a.reassemblyFor S now f).add f.index f.payload).count = f.count := hf.count
      rw [hcnt]
      exact ⟨hby, by rw [hf.count] at hsz; omega, hidx⟩
    · exact h.state id r hr

theorem Reassembling.remember (id : Identity) : Reassembling S (a.remember id) := by
  obtain ⟨c, o, heq⟩ := remember_eq a id
  rw [heq]
  exact { h with }

theorem Reassembling.deliver {now : τ} (hf : Absorbable S now f a) : Reassembling S (a.delivered S now f) := by
  have hset : (a.absorbed S now f).incoming.find? (f.stream, f.message)
      = some ((a.reassemblyFor S now f).add f.index f.payload) := by
    show (a.incoming.set _ _).find? _ = _
    rw [find?_set, if_pos rfl]
  have hsum := sumOf_erase (fun _ (r : Reassembly τ) => (r.bytes : Int)) hset
  rw [sumOf_absorbed, ← h.bytes] at hsum
  refine Reassembling.remember ⟨?_, ?_, ?_⟩ _
  · exact hsum.symm
  · have hle := hf.inflight
    show a.incomingBytes + f.payload.length - _ ≤ _
    omega
  · intro id r hr
    change ((a.incoming.set _ _).erase _).find? id = some r at hr
    rw [find?_erase] at hr
    split_ifs at hr with hid
    rw [find?_set, if_neg hid] at hr
    exact h.state id r hr

theorem Reassembling.expire {now : τ} : Reassembling S (a.expire S now) := by
  have hspl := sumOf_filter_add a.incoming (fun _ r => S.timing.isReached now r.deadline) (fun _ r => (r.bytes : Int))
  have hnn : 0 ≤ (a.incoming.filter fun _ r => S.timing.isReached now r.deadline).sumOf
      (fun _ r => (r.bytes : Int)) := sumOf_nonneg fun _ _ _ => Int.natCast_nonneg _
  have hle := h.bytes_le
  rw [← h.bytes] at hspl
  refine ⟨?_, ?_, ?_⟩
  · unfold ReliableAdapter.expire
    dsimp only
    omega
  · show a.incomingBytes - _ ≤ _
    omega
  · intro id r hr
    change (a.incoming.filter _).find? id = some r at hr
    rw [Dict.find?_filter, Option.filter_eq_some_iff] at hr
    exact h.state id r hr.1

end

/-! ## Every step keeps the books -/

theorem Sending.init : Sending S S.init := by
  refine ⟨rfl, Int.natCast_nonneg _, ?_, Nat.zero_le _, ⟨nodup_nil, ?_⟩, ?_, ?_, ?_, ?_, ?_⟩
  all_goals simp [Setup.init]

theorem Accounted.init : Accounted S S.init := by
  refine ⟨Sending.init, rfl, Int.natCast_nonneg _, ?_⟩
  simp [Setup.init]

/-- A closed adapter is empty, or was closed before. -/
theorem Accounted.close (h : Accounted S a) : Accounted S a.close := by
  unfold ReliableAdapter.close
  split_ifs
  · exact h
  -- the fields that the books read are those of the initial state
  exact ⟨{ Sending.init with numbered := by simp }, { (Accounted.init (S := S)).reassembling with }⟩

theorem Accounted.step {n : Note} (h : Accounted S a) (hstep : Step S a n b) : Accounted S b := by
  obtain ⟨hs, hr⟩ := h
  cases hstep with
  | accept _ hstr hdt hcnt hroom hnx =>
    exact ⟨hs.accept hstr hdt hcnt hroom hnx, { hr with }⟩
  | transmit _ hwin hact hqu _ => exact ⟨hs.transmit hwin hact hqu, { hr with }⟩
  | reserve _ _ hnx => exact ⟨hs.reserve hnx, { hr with }⟩
  | extend _ hnx _ =>
    exact ⟨{ hs.reserve hnx with }, { hr with }⟩
  | noteAck _ => exact ⟨{ hs with }, { hr with }⟩
  | @acknowledge now key p o _ hp ho =>
    obtain ⟨e, heq⟩ := sampled_eq S now p (release (key.1, key.2.1) o { a with pending := a.pending.erase key })
    unfold acknowledged
    rw [heq]
    refine ⟨{ hs.release hp ho with }, ?_⟩
    unfold release
    split_ifs <;> exact { hr with }
  | again _ _ | duplicate _ _ _ => exact ⟨hs, hr⟩
  | event _ _ _ =>
    refine ⟨?_, hr.remember _⟩
    obtain ⟨c, o, heq⟩ := remember_eq a _
    rw [heq]
    exact { hs with }
  | absorb _ hf hps => exact ⟨{ hs with }, hr.absorb hf hps⟩
  | deliver _ hf _ _ =>
    refine ⟨?_, hr.deliver hf⟩
    obtain ⟨c, o, heq⟩ := remember_eq _ _
    unfold delivered
    rw [heq]
    exact { hs with }
  | expire _ => exact ⟨{ hs with }, hr.expire⟩
  | resend _ => exact ⟨hs.restamp (resendLoop_keys _ _ _ _), { hr with }⟩
  | close => exact Accounted.close ⟨hs, hr⟩

end

end Shadow6.NetworkAdapter
