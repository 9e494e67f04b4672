import LightningLink.Network.Authenticity
import LightningLink.Server.Motion

/-!
# Positions stay inside the arena

Library `Network`. Nothing is assumed about the floating-point arithmetic: comparisons and
operations may round and yield values that are no numbers. Every position that the server
keeps, that a snapshot carries or that a client stores is the middle of the arena, where
players appear, or a result of `clampToArena`, and `clampf` yields the lower bound or a value
that compares greater, and never one above the upper bound.
-/

namespace LightningLink

open Support Proto FloatOps FloatArith

section

variable {F : Type} [FloatArith F]

/-- Within an interval, in the order in which `float` values compare. -/
def Within (lo hi v : F) : Prop := v = lo ∨ lt lo v = true ∧ (v = hi ∨ lt hi v = false)

/-- `clampf` yields a value within the interval. -/
theorem within_clampf (v lo hi : F) : Within lo hi (clampf v lo hi) := by
  have hmin : (if lt hi v then hi else v) = hi ∨ lt hi (if lt hi v then hi else v) = false := by
    split
    · exact Or.inl rfl
    · next h => exact Or.inr (Bool.eq_false_iff.mpr h)
  unfold clampf
  generalize (if lt hi v then hi else v) = m at hmin
  by_cases h : lt lo m = true
  · rw [if_pos h]
    exact Or.inr ⟨h, hmin⟩
  · rw [if_neg h]
    exact Or.inl rfl

/-- `clampf` leaves a value within the interval. -/
theorem clampf_of_within {v lo hi : F} (h : Within lo hi v) (hlt : lt hi lo = false) :
    clampf v lo hi = v := by
  unfold clampf
  rcases h with rfl | ⟨hlo, rfl | hhi⟩
  · simp [hlt]
  · simp [hlo]
  · simp [hlo, hhi]

/-- The middle of the arena, or inside it. -/
def Vec2.InArena (p : Vec2 F) : Prop :=
  p = Cl.initialPos ∨
    Within (ofInt 0) (arenaWidth F) p.x ∧ Within (ofInt 0) (arenaHeight F) p.y

/-- Clamped positions are in the arena. -/
theorem Vec2.inArena_clampToArena (p : Vec2 F) :
    (clampToArena p (arenaWidth F) (arenaHeight F)).InArena :=
  Or.inr ⟨within_clampf _ _ _, within_clampf _ _ _⟩

/-- All positions of a snapshot are in the arena. -/
def Proto.Snapshot.InArena (snap : Snapshot F) : Prop := ∀ ps ∈ snap.players, ps.pos.InArena

end

/-! ### The server -/

namespace Srv

section

variable {F : Type} [FloatArith F]

/-- All players of the world are in the arena. -/
def Server.InArena (s : Server F) : Prop :=
  ∀ id p, s.world.get id = some p → p.state.pos.InArena

/-- Without players. -/
theorem Server.inArena_init : (init : Server F).InArena := by
  intro id p hp
  cases hp

/-- Every event keeps the players in the arena. -/
theorem Server.InArena.step [FloatBits F] {s : Server F} (h : s.InArena) (ev : Event F) :
    (s.step ev).InArena := by
  intro id q hq
  rcases s.get_step ev id hq with ⟨_, rfl⟩ | ⟨p, hp, ⟨_, rfl⟩ | ⟨_, rfl | ⟨seq, mx, my, rfl⟩⟩⟩
  · exact Or.inl rfl
  · exact Vec2.inArena_clampToArena _
  · exact h id q hp
  · rw [(p.pos_input seq mx my).1]
    exact h id p hp

end

section

variable [FloatArith F32]

/-- All players of a reachable server are in the arena. -/
theorem Server.inArena_reached (evs : List (Event F32)) :
    (ValidServer.reached evs : ValidServer F32).server.InArena := by
  induction evs using List.reverseRecOn with
  | nil => exact Server.inArena_init
  | append_singleton evs ev ih =>
    rw [ValidServer.reached_concat]
    exact ih.step ev

/-- Broadcast snapshots are in the arena. -/
theorem Broadcasts.inArena {evs : List (Event F32)} {snap : Snapshot F32}
    (h : Broadcasts evs snap) : snap.InArena := by
  obtain ⟨past, now, order, _, _, _, rfl⟩ := h
  intro ps hps
  obtain ⟨id, p, hp, rfl⟩ := (Server.mem_tickSnapshot _ order ps).mp hps
  exact Server.inArena_reached _ id p hp

end
end Srv

/-! ### The clients -/

namespace Cl

/-- Positions shown for the own player are in the arena if the snapshots are. -/
theorem Placed.inArena {F : Type} [FloatArith F] {P : Snapshot F → Prop} {myPid : UInt16}
    {inputs : List (PredictedInput F)} {pos : Vec2 F} (h : Placed P myPid inputs pos)
    (hP : ∀ snap, P snap → snap.InArena) : pos.InArena := by
  obtain ⟨origin, moves, _, rfl, horigin⟩ := h
  apply List.foldlRecOn (motive := fun pos : Vec2 F ↦ pos.InArena)
  · rcases horigin with rfl | ⟨snap, hsnap, ps, hps, _, rfl⟩
    · exact Or.inl rfl
    · exact hP snap hsnap ps hps
  · exact fun _ _ _ _ ↦ Vec2.inArena_clampToArena _

/-- The local player, the predicted positions, the stored records and the samples are in the
arena. -/
structure Client.InArena {F : Type} [FloatArith F] (c : Client F) : Prop where
  localPos : c.localPos.InArena
  pending : ∀ seq x, c.pending.find? seq = some x → x.predictedPos.InArena
  stored : ∀ id ps, c.latestAuthoritative.find? id = some ps → ps.pos.InArena
  samples : ∀ id dq, c.interp.histories.find? id = some dq → ∀ x ∈ dq, x.pos.InArena

/-- What comes from snapshots in the arena is in the arena. -/
theorem Client.Sourced.inArena {F : Type} [FloatArith F] {P : Snapshot F → Prop}
    {inputs : List (PredictedInput F)} {c : Client F} (h : c.Sourced P inputs)
    (hP : ∀ snap, P snap → snap.InArena) : c.InArena where
  localPos := h.localPos.inArena hP
  pending seq x hx := (h.pending seq x hx).inArena hP
  stored id ps hps := by
    obtain ⟨_, snap, hsnap, hmem⟩ := h.stored id ps hps
    exact hP snap hsnap ps hmem
  samples id dq hdq x hx := by
    obtain ⟨_, snap, hsnap, ps, hmem, _, hpos, _⟩ := h.samples id dq hdq x hx
    exact hpos ▸ hP snap hsnap ps hmem

end Cl

/-! ### The system -/

namespace Net

open Srv Cl

variable {D : Type} [FloatOps D] {Q : PriorityQueue Pending Pending.deliverAtUs} [FloatArith F32]

omit [FloatOps D] in
/-- Every position of the server or of a client, or of a snapshot on its way to a client, in
its conditioner, in its hands or in its queue, is in the arena. -/
structure Conditioned.InArena (c : Conditioned D Q) : Prop where
  server : c.server.server.InArena
  down : ∀ e, ∀ payload ∈ c.down e, ∀ snap,
    Packet.read payload = some (.snapshot snap) → snap.InArena
  inHand : ∀ e x, c.inHand e = some x → ∀ snap,
    Packet.read x.bytes = some (.snapshot snap) → snap.InArena
  queue : ∀ e p, c.process e = .playing p → ∀ ss ∈ p.queue, ss.snap.InArena
  client : ∀ e p, c.process e = .playing p → p.client.InArena

/-- In every run, whatever the conditioners drop and delay and whatever the rounding, every
position that the server keeps, that a snapshot carries anywhere or that a client stores is in
the arena. -/
theorem Conditioned.inArena_run (serverEp : Endpoint) (cfg : Endpoint → LaggedSocketConfig D)
    (serverCfg : LaggedSocketConfig D) (as : List (Conditioned.Action D)) :
    ((init serverEp cfg serverCfg : Conditioned D Q).run as).InArena := by
  obtain ⟨acts, h, _, hsplits⟩ := exists_splits (Q := Q) serverEp cfg serverCfg as
  have hsourced := h.sourced hsplits.sourced
  have harena {evs : List (Srv.Event F32)} {e : Endpoint} {snap : Snapshot F32}
      (h : Sends evs e (.snapshot snap)) : snap.InArena := h.broadcasts.inArena
  refine ⟨(h.server.trans hsplits.1) ▸ Server.inArena_reached _, ?_, ?_, fun e p hp ↦ ?_,
    fun e p hp ↦ ?_⟩
  · exact fun e payload hpayload snap hr ↦ harena (hsourced.down e payload hpayload _ hr)
  · exact fun e x hx snap hr ↦ harena (hsourced.inHand e x hx _ hr)
  · have hprocess := hsourced.process e
    rw [hp] at hprocess
    exact fun ss hss ↦ harena (hprocess.2.2 ss hss)
  · have hprocess := hsourced.process e
    rw [hp] at hprocess
    obtain ⟨inputs, hclient⟩ := hprocess.exists_sourced
    exact hclient.inArena fun _ ↦ harena

end Net
end LightningLink
