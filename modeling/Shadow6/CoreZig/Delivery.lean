import Shadow6.CoreZig.Endpoint

/-!
# `CoreZig.Delivery` — two tunnels over a network

Two tunnels joined by a network that drops, duplicates and reorders packets: an event gives a tunnel any packet the
other one has ever sent, a chunk of its local connection, or a round of its worker. Each tunnel is sound towards what
the other one has queued (`Joined`), and that survives every event; what the local connections see follows.
-/

namespace Shadow6.CoreZig

open Library List Tunnel

namespace Pair

/-- A tunnel is sound towards the other one. -/
abbrev Towards (P : Pair) (x : End → Tunnel) (e : End) (base st : Tunnel) : Prop :=
  Tunnel.Sound P e (x e.other).queued ((x e.other).channel ≠ none) base st

/-- Each tunnel is sound towards the other one. -/
def Joined (P : Pair) (x : End → Tunnel) : Prop := ∀ e, P.Towards x e (x e) (x e)

variable {P : Pair} {x : End → Tunnel}

theorem Joined.init : P.Joined P.init := by
  have hblank : ∀ e up, Tunnel.Outer P e up (create P.master e.isClient) (create P.master e.isClient) :=
    fun e up => ⟨rfl, rfl, nofun, nofun, Nat.zero_le _, fun hlt => absurd hlt (Nat.not_lt_zero _), prefix_rfl, nofun⟩
  intro e
  cases e with
  | client =>
    -- the client has queued its opening
    have hfresh : Tunnel.Live P .client [] ((P.init .agent).channel ≠ none) (create P.master true)
        (create P.master true)
        (newChannel (Session.init P.crypto P.master P.sid true) P.attached false) :=
      Tunnel.Live.fresh P.attached 0 0 rfl rfl rfl false nofun
    have hsd : Tunnel.Sound P .client [] ((P.init .agent).channel ≠ none) (create P.master true)
        ((create P.master true).queueSend P.crypto
          (newChannel (Session.init P.crypto P.master P.sid true) P.attached false) .opening [] P.attached) :=
      Tunnel.Sound.queueSend P.attached (hblank .client _) hfresh (fun _ => ⟨rfl, rfl⟩) (by decide) (.inr rfl)
        fun hlt => absurd hlt (lt_irrefl 1)
    exact hsd.rebase
  | agent => exact ⟨hblank .agent _, fun _ => ⟨rfl, rfl, rfl, rfl, rfl⟩, nofun⟩

/-- An event leaves the tunnel it happens to sound. -/
theorem Joined.react (h : P.Joined x) (e : End) (v : Event) :
    P.Towards x e (x e) (P.react (x e) (x e.other).wires v) := by
  have hown : P.Towards x e (x e) (x e) := h e
  have hpeer := h e.other
  cases v with
  | read input now => exact hown.read input now
  | service ws now => exact hown.service ws now hpeer.outer.shaped hpeer.outer.limit
  | arrive index cs now =>
    unfold Pair.react
    dsimp only
    cases hpacket : (x e.other).wires[index]? with
    | none => exact hown
    | some packet =>
      have hmem := mem_of_getElem? hpacket
      refine hown.receive cs now (hpeer.outer.wires packet hmem) ?_
      -- a tunnel without a channel has sent nothing
      intro hnone
      rw [(hpeer.idle hnone).2.1] at hmem
      exact not_mem_nil hmem

/-- **Every event keeps both tunnels sound.** -/
theorem Joined.step (h : P.Joined x) (v : End × Event) : P.Joined (P.step x v) := by
  obtain ⟨e, v⟩ := v
  have hown := h.react e v
  have hoth := P.step_other x e v
  have hself := P.step_self x e v
  intro d
  by_cases hd : d = e
  · subst hd
    show Tunnel.Sound _ _ _ _ _ _
    rw [hoth, hself]
    exact hown.rebase
  have hd : d = e.other := by
    cases d <;> cases e <;> first | rfl | exact absurd rfl hd
  subst hd
  show Tunnel.Sound _ _ _ _ _ _
  rw [End.other_other, hoth, hself]
  obtain ⟨l, hl⟩ := hown.outer.accepts
  rw [← hl]
  have hpeer := h e.other
  unfold Towards at hpeer
  rw [End.other_other] at hpeer
  exact hpeer.more l fun hup hnone => hup (hown.idle hnone).2.2.2.2

theorem Joined.after (P : Pair) (run : List (End × Event)) : P.Joined (P.after run) :=
  foldl_invariant (I := P.Joined) (fun _ v h => h.step v) Joined.init run

/-- What the tunnels do in one direction, from `sender` to `receiver`. -/
structure Faithful (sender receiver : Tunnel) : Prop where
  /-- The bytes handed to the local connection are a front of those queued by the peer. -/
  front : receiver.written <+: payloads sender.queued
  /-- A filled slot holds a packet of the window with its number modulo 256. -/
  slots : ∀ ch, receiver.channel = some ch → ∀ i d, ch.secure.received i = some d →
    d.seq % 256 = i.val ∧ ch.secure.nextRx ≤ d.seq ∧ d.seq < ch.secure.nextRx + 256
  /-- The pump finds no packet out of place, whatever the writes take. -/
  pumps : ∀ ch, receiver.channel = some ch → ∀ writes, (receiver.pump ch writes).1 ≠ some .invalidSequence

/-- What was written is a front of what was queued, with a part of a record at its end. -/
theorem payloads_front {log : List (Kind × Bytes)} (n o : Nat) :
    payloads (log.take n) ++ ((log[n]?.map payloadOf).getD []).take o <+: payloads log := by
  rcases lt_or_ge n log.length with hn | hn
  · have hspl : payloads log = payloads (log.take n) ++ (payloadOf log[n] ++ payloads (log.drop (n + 1))) := by
      calc payloads log = payloads (log.take n ++ log.drop n) := by rw [take_append_drop]
        _ = payloads (log.take n) ++ payloads (log.drop n) := flatMap_append
        _ = payloads (log.take n) ++ payloads (log[n] :: log.drop (n + 1)) := by
            rw [drop_eq_getElem_cons hn]
        _ = _ := rfl
    rw [getElem?_eq_getElem hn, hspl, Option.map_some, Option.getD_some]
    exact prefix_append_right_inj _ |>.mpr (( take_prefix _ _).trans (prefix_append _ _))
  · rw [getElem?_eq_none hn, take_of_length_le hn]
    simp

/-- **The tunnels are faithful**: after any run, in either direction. -/
theorem tunnel_faithful (P : Pair) (run : List (End × Event)) (e : End) :
    Faithful (P.after run e) (P.after run e.other) := by
  have h := Joined.after P run
  generalize P.after run = x at h ⊢
  have hpeer := h e.other
  unfold Towards at hpeer
  rw [End.other_other] at hpeer
  refine ⟨?_, ?_, ?_⟩
  · cases hchannel : (x e.other).channel with
    | none =>
      rw [(hpeer.idle hchannel).2.2.2.1]
      exact nil_prefix
    | some ch =>
      rw [(hpeer.live ch hchannel).written]
      exact payloads_front _ _
  · intro ch hchannel i d hd
    obtain ⟨hslot, hlow, hhigh⟩ := (hpeer.live ch hchannel).windowed i d hd
    exact ⟨congrArg Fin.val hslot, hlow, hhigh⟩
  · intro ch hchannel writes
    have hlive := hpeer.live ch hchannel
    have hstart : Tunnel.Live P e.other (x e).queued ((x e).channel ≠ none) (x e.other)
        { x e.other with written := (x e.other).written ++ [] } ch :=
      { hlive with written := (append_nil _).trans hlive.written }
    exact (Tunnel.Live.pumpLoop hpeer.outer.role (by rw [End.other_other]; exact (h e).outer.shaped)
      (h e).outer.limit window writes [] hstart).2

end Pair

end Shadow6.CoreZig
