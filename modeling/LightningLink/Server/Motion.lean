import LightningLink.Server.Acknowledgement
import LightningLink.Common.Reals
import LightningLink.Support.Plane
import Mathlib

/-!
# Motion of the players

Library `Server`. In exact real arithmetic every player stays inside the arena, at rest or at
`PLAYER_SPEED`, and no tick moves it farther than this speed allows, whatever inputs arrive
between the ticks.
-/

namespace LightningLink

open FloatOps FloatArith

namespace Vec2

/-- Euclidean length. -/
noncomputable def length (v : Vec2 ℝ) : ℝ := √(v.x ^ 2 + v.y ^ 2)

/-- Euclidean distance. -/
noncomputable def distance (a b : Vec2 ℝ) : ℝ := √((b.x - a.x) ^ 2 + (b.y - a.y) ^ 2)

/-- The vector as a point of the plane. -/
def toPlane (v : Vec2 ℝ) : ℂ := ⟨v.x, v.y⟩

/-- Lengths are norms. -/
theorem length_eq (v : Vec2 ℝ) : v.length = ‖v.toPlane‖ := by
  rw [Complex.norm_eq_sqrt_sq_add_sq]
  rfl

/-- Distances are those of the plane. -/
theorem distance_eq (a b : Vec2 ℝ) : a.distance b = dist b.toPlane a.toPlane := by
  rw [Complex.dist_eq_re_im]
  rfl

end Vec2

/-- `clampf` clamps. -/
theorem clampf_eq (v lo hi : ℝ) : clampf v lo hi = Support.clamp lo hi v := by
  have hdef : clampf v lo hi =
      if lo < (if hi < v then hi else v) then (if hi < v then hi else v) else lo := by
    unfold clampf
    simp only [FloatOps.lt, decide_eq_true_eq]
  have hmin : (if hi < v then hi else v) = min v hi := by
    split
    · next h => exact (min_eq_right h.le).symm
    · next h => exact (min_eq_left (not_lt.mp h)).symm
  rw [hdef, hmin, Support.clamp]
  split
  · next h => exact (max_eq_right h.le).symm
  · next h => exact (max_eq_left (not_lt.mp h)).symm

/-- A normalized direction has length 0 or 1. -/
theorem length_normalizeDir (mx my : Int8) :
    (normalizeDir mx my : Vec2 ℝ).length = 0 ∨ (normalizeDir mx my : Vec2 ℝ).length = 1 := by
  let x : ℝ := (mx.toInt : ℝ)
  let y : ℝ := (my.toInt : ℝ)
  let m : ℝ := √(x * x + y * y)
  have hdef : (normalizeDir mx my : Vec2 ℝ) =
      if ((0 : Int) : ℝ) < m then ⟨x / m, y / m⟩ else ⟨(0 : Int), (0 : Int)⟩ := by
    unfold normalizeDir
    simp only [FloatOps.lt, decide_eq_true_eq]
    rfl
  rw [hdef, Int.cast_zero]
  split
  · next hm =>
    right
    have hsq : m ^ 2 = x * x + y * y := Real.sq_sqrt (add_nonneg (mul_self_nonneg x) (mul_self_nonneg y))
    have hone : (x / m) ^ 2 + (y / m) ^ 2 = 1 := by
      field_simp
      rw [hsq]
      ring
    rw [Vec2.length, hone, Real.sqrt_one]
  · left
    simp [Vec2.length]

namespace Srv

/-- Position inside the arena, and velocity zero or of length `PLAYER_SPEED`. -/
structure ServerPlayer.Confined (p : ServerPlayer ℝ) : Prop where
  x : 0 ≤ p.state.pos.x ∧ p.state.pos.x ≤ arenaWidth ℝ
  y : 0 ≤ p.state.pos.y ∧ p.state.pos.y ≤ arenaHeight ℝ
  speed : p.state.vel.length = 0 ∨ p.state.vel.length = playerSpeed ℝ

/-- `PLAYER_SPEED` is 240. -/
theorem playerSpeed_eq : playerSpeed ℝ = 240 := Int.cast_ofNat 240

/-- `DT_SECONDS` as the ticks use it. -/
noncomputable def tickSeconds : ℝ := ofDouble (dtSeconds ℝ)

/-- `DT_SECONDS` is a sixtieth. -/
theorem tickSeconds_eq : tickSeconds = 60⁻¹ := by
  have h : tickSeconds = ((1 : Int) : ℝ) / ((60 : Int) : ℝ) := rfl
  rw [h]
  norm_num

theorem arenaWidth_eq : arenaWidth ℝ = 1280 := Int.cast_ofNat 1280

theorem arenaHeight_eq : arenaHeight ℝ = 720 := Int.cast_ofNat 720

namespace ServerPlayer

/-- A new player is confined. -/
theorem confined_spawn (id : UInt16) : (spawn id : ServerPlayer ℝ).Confined := by
  have hhalf : half ℝ = 1 / 2 := by
    have h : half ℝ = ((1 : Int) : ℝ) / ((2 : Int) : ℝ) := rfl
    rw [h]
    norm_num
  have hx : (spawn id : ServerPlayer ℝ).state.pos.x = arenaWidth ℝ * half ℝ := rfl
  have hy : (spawn id : ServerPlayer ℝ).state.pos.y = arenaHeight ℝ * half ℝ := rfl
  have hv : (spawn id : ServerPlayer ℝ).state.vel = ⟨((0 : Int) : ℝ), ((0 : Int) : ℝ)⟩ := rfl
  refine ⟨?_, ?_, Or.inl ?_⟩
  · rw [hx, hhalf, arenaWidth_eq]
    norm_num
  · rw [hy, hhalf, arenaHeight_eq]
    norm_num
  · rw [hv]
    simp [Vec2.length]

/-- Velocity after a tick, in the plane. -/
theorem vel_move (p : ServerPlayer ℝ) : p.move.state.vel.toPlane =
    playerSpeed ℝ * (normalizeDir p.pendingMx p.pendingMy : Vec2 ℝ).toPlane := by
  let dir : Vec2 ℝ := normalizeDir p.pendingMx p.pendingMy
  have h : p.move.state.vel = ⟨dir.x * playerSpeed ℝ, dir.y * playerSpeed ℝ⟩ := rfl
  rw [h]
  apply Complex.ext <;> simp [Vec2.toPlane, dir, mul_comm]

/-- Position after a tick, in the plane. -/
theorem pos_move (p : ServerPlayer ℝ) :
    p.move.state.pos.toPlane = Support.clampPoint (arenaWidth ℝ) (arenaHeight ℝ)
      (p.state.pos.toPlane + tickSeconds * p.move.state.vel.toPlane) := by
  have h : p.move.state.pos =
      ⟨clampf (p.state.pos.x + p.move.state.vel.x * tickSeconds) ((0 : Int) : ℝ) (arenaWidth ℝ),
        clampf (p.state.pos.y + p.move.state.vel.y * tickSeconds) ((0 : Int) : ℝ) (arenaHeight ℝ)⟩ := rfl
  rw [h, clampf_eq, clampf_eq, Int.cast_zero]
  apply Complex.ext <;> simp [Vec2.toPlane, Support.clampPoint, mul_comm]

/-- A tick gives a player a velocity of length 0 or `PLAYER_SPEED`. -/
theorem length_vel_move (p : ServerPlayer ℝ) :
    p.move.state.vel.length = 0 ∨ p.move.state.vel.length = playerSpeed ℝ := by
  have hlen : p.move.state.vel.length =
      playerSpeed ℝ * (normalizeDir p.pendingMx p.pendingMy : Vec2 ℝ).length := by
    rw [Vec2.length_eq, vel_move, norm_mul, Vec2.length_eq, playerSpeed_eq]
    simp
  rcases length_normalizeDir p.pendingMx p.pendingMy with h | h
  · left
    rw [hlen, h, mul_zero]
  · right
    rw [hlen, h, mul_one]

/-- A tick keeps a player confined. -/
theorem Confined.move {p : ServerPlayer ℝ} : p.move.Confined := by
  have hpos := p.pos_move
  refine ⟨?_, ?_, p.length_vel_move⟩
  · have hre := congrArg Complex.re hpos
    change p.move.state.pos.x = Support.clamp 0 _ _ at hre
    rw [hre]
    exact Support.clamp_mem (by rw [arenaWidth_eq]; norm_num) _
  · have him := congrArg Complex.im hpos
    change p.move.state.pos.y = Support.clamp 0 _ _ at him
    rw [him]
    exact Support.clamp_mem (by rw [arenaHeight_eq]; norm_num) _

/-- A tick moves a confined player no farther than its speed allows. -/
theorem Confined.distance_move {p : ServerPlayer ℝ} (h : p.Confined) :
    p.state.pos.distance p.move.state.pos ≤ playerSpeed ℝ * tickSeconds := by
  have hvel : ‖p.move.state.vel.toPlane‖ ≤ playerSpeed ℝ := by
    rw [← Vec2.length_eq]
    rcases p.length_vel_move with hv | hv
    · rw [hv, playerSpeed_eq]
      norm_num
    · exact hv.le
  have hdt : ‖(tickSeconds : ℂ)‖ = tickSeconds := by
    rw [Complex.norm_real, Real.norm_eq_abs, abs_of_nonneg]
    rw [tickSeconds_eq]
    norm_num
  rw [Vec2.distance_eq, pos_move]
  calc dist (Support.clampPoint _ _ _) p.state.pos.toPlane
      ≤ ‖(tickSeconds : ℂ) * p.move.state.vel.toPlane‖ :=
        Support.dist_clampPoint_add_le h.x h.y _
    _ = tickSeconds * ‖p.move.state.vel.toPlane‖ := by rw [norm_mul, hdt]
    _ ≤ tickSeconds * playerSpeed ℝ :=
        mul_le_mul_of_nonneg_left hvel (by rw [tickSeconds_eq]; norm_num)
    _ = playerSpeed ℝ * tickSeconds := mul_comm _ _

/-- An input leaves a player where it is. -/
theorem pos_input {F : Type} (p : ServerPlayer F) (seq : UInt32) (mx my : Int8) :
    (p.input seq mx my).state.pos = p.state.pos ∧ (p.input seq mx my).state.vel = p.state.vel := by
  unfold input
  split <;> exact ⟨rfl, rfl⟩

/-- An input keeps a player confined. -/
theorem Confined.input {p : ServerPlayer ℝ} (h : p.Confined) (seq : UInt32) (mx my : Int8) :
    (p.input seq mx my).Confined := by
  obtain ⟨hpos, hvel⟩ := p.pos_input seq mx my
  refine ⟨?_, ?_, ?_⟩
  · rw [hpos]
    exact h.x
  · rw [hpos]
    exact h.y
  · rw [hvel]
    exact h.speed

end ServerPlayer
/-! ### Records over a run -/

namespace Server

/-- Where a record after an event comes from: it is new, a tick has moved it, or another
event has left it or given it an input. -/
theorem get_step {F : Type} [FloatArith F] [FloatBits F] (s : Server F) (ev : Event F)
    (id : UInt16) {q : ServerPlayer F} (hq : (s.step ev).world.get id = some q) :
    s.world.get id = none ∧ q = ServerPlayer.spawn id ∨
      ∃ p, s.world.get id = some p ∧
        (ev.isTick = true ∧ q = p.move ∨
          ev.isTick = false ∧ (q = p ∨ ∃ seq mx my, q = p.input seq mx my)) := by
  cases ev with
  | tick now order =>
    change (s.tickAndMaybeBroadcast now order).1.world.get id = some q at hq
    rw [get_tick] at hq
    split at hq
    · cases hq
    · obtain ⟨p, hp, rfl⟩ := Option.map_eq_some_iff.mp hq
      exact Or.inr ⟨p, hp, Or.inl ⟨rfl, rfl⟩⟩
  | datagram now src payload =>
    have hkeep : s.world.get id = some q → ∃ p, s.world.get id = some p ∧
        ((Event.datagram now src payload : Event F).isTick = true ∧ q = p.move ∨
          (Event.datagram now src payload : Event F).isTick = false ∧
            (q = p ∨ ∃ seq mx my, q = p.input seq mx my)) :=
      fun h ↦ ⟨q, h, Or.inr ⟨rfl, Or.inl rfl⟩⟩
    change (s.handleInboundUdp now src payload).1.world.get id = some q at hq
    rw [handleInboundUdp_eq] at hq
    split at hq
    · unfold handleJoinRequest at hq
      split at hq
      · exact Or.inr (hkeep hq)
      · dsimp only at hq
        rw [WorldState.get_addPlayer] at hq
        split at hq
        · next hid =>
          obtain ⟨rfl, hnone⟩ := hid
          exact Or.inl ⟨hnone, (Option.some.inj hq).symm⟩
        · exact Or.inr (hkeep hq)
    · unfold handleInputCommand at hq
      split at hq
      · dsimp only at hq
        rw [WorldState.get_applyInput] at hq
        split at hq
        · obtain ⟨p, hp, rfl⟩ := Option.map_eq_some_iff.mp hq
          exact Or.inr ⟨p, hp, Or.inr ⟨rfl, Or.inr ⟨_, _, _, rfl⟩⟩⟩
        · exact Or.inr (hkeep hq)
      · exact Or.inr (hkeep hq)
    · unfold handleDisconnectNotice at hq
      split at hq
      · exact Or.inr (hkeep hq)
      · split at hq
        · dsimp only at hq
          rw [WorldState.get_removePlayer] at hq
          split at hq
          · cases hq
          · exact Or.inr (hkeep hq)
        · exact Or.inr (hkeep hq)
    · exact Or.inr (hkeep hq)

/-- The record of an id exists in every state of a run. -/
def Persists {F : Type} [FloatArith F] [FloatBits F] (s : Server F) (id : UInt16)
    (evs : List (Event F)) : Prop :=
  ∀ done, done <+: evs → ((s.run done).world.get id).isSome

/-- Persistence is decided prefix by prefix. -/
instance {F : Type} [FloatArith F] [FloatBits F] (s : Server F) (id : UInt16)
    (evs : List (Event F)) : Decidable (s.Persists id evs) :=
  decidable_of_iff (∀ k < evs.length + 1, ((s.run (evs.take k)).world.get id).isSome = true) (by
    constructor
    · intro h done hd
      rw [List.prefix_iff_eq_take.mp hd]
      exact h _ (Nat.lt_succ_of_le hd.length_le)
    · exact fun h k _ ↦ h _ (List.take_prefix k evs))

section

variable [FloatBits ℝ]

/-- Every record of a reachable state is confined. -/
theorem confined_run (past : List (Event ℝ)) (id : UInt16) {p : ServerPlayer ℝ}
    (hp : ((init : Server ℝ).run past).world.get id = some p) : p.Confined := by
  induction past using List.reverseRecOn generalizing p with
  | nil => cases hp
  | append_singleton past ev ih =>
    rw [run, List.foldl_append] at hp
    rcases get_step _ ev id hp with ⟨_, rfl⟩ | ⟨q, hq, ⟨_, rfl⟩ | ⟨_, rfl | ⟨seq, mx, my, rfl⟩⟩⟩
    · exact ServerPlayer.confined_spawn id
    · exact ServerPlayer.Confined.move
    · exact ih hq
    · exact (ih hq).input seq mx my

/-- A record that persists moves no farther than the ticks of the run allow. -/
theorem distance_run (past evs : List (Event ℝ)) (id : UInt16) {p q : ServerPlayer ℝ}
    (hp : ((init : Server ℝ).run past).world.get id = some p)
    (hpers : ((init : Server ℝ).run past).Persists id evs)
    (hq : (((init : Server ℝ).run past).run evs).world.get id = some q) :
    p.state.pos.distance q.state.pos ≤
      evs.countP Event.isTick * (playerSpeed ℝ * tickSeconds) := by
  induction evs using List.reverseRecOn generalizing q with
  | nil =>
    obtain rfl := Option.some.inj (hp.symm.trans hq)
    simp [Vec2.distance]
  | append_singleton evs ev ih =>
    have hsub : ((init : Server ℝ).run past).Persists id evs :=
      fun done hd ↦ hpers done (hd.trans (List.prefix_append _ _))
    obtain ⟨r, hr⟩ := Option.isSome_iff_exists.mp (hsub evs List.prefix_rfl)
    have hle := ih hsub hr
    rw [run, List.foldl_append] at hq
    rw [List.countP_append, List.countP_singleton]
    rcases get_step _ ev id hq with ⟨hnone, _⟩ | ⟨r', hr', hcase⟩
    · rw [show (List.foldl step (init.run past) evs).world.get id = some r from hr] at hnone
      cases hnone
    · obtain rfl : r = r' := Option.some.inj (hr.symm.trans hr')
      rcases hcase with ⟨ht, rfl⟩ | ⟨ht, hpos⟩
      · have hconf : r.Confined := by
          apply confined_run (past ++ evs) id
          rwa [run, List.foldl_append]
        have htri : p.state.pos.distance r.move.state.pos ≤
            p.state.pos.distance r.state.pos + r.state.pos.distance r.move.state.pos := by
          simp only [Vec2.distance_eq]
          rw [add_comm]
          exact dist_triangle _ _ _
        rw [if_pos ht, Nat.cast_add, Nat.cast_one, add_mul, one_mul]
        exact htri.trans (add_le_add hle hconf.distance_move)
      · have heq : q.state.pos = r.state.pos := by
          rcases hpos with rfl | ⟨seq, mx, my, rfl⟩
          · rfl
          · exact (r.pos_input seq mx my).1
        rw [ht, heq]
        simpa using hle

/-- In every reachable state every player is inside the arena, at rest or at the speed
limit, and a player whose record persists over a run with `k` ticks moves by no more than
`k * PLAYER_SPEED * DT_SECONDS`. -/
theorem run_speedLimit (past : List (Event ℝ)) (id : UInt16) (p : ServerPlayer ℝ)
    (hp : ((init : Server ℝ).run past).world.get id = some p) :
    let s : Server ℝ := init.run past
    (0 ≤ p.state.pos.x ∧ p.state.pos.x ≤ arenaWidth ℝ) ∧
    (0 ≤ p.state.pos.y ∧ p.state.pos.y ≤ arenaHeight ℝ) ∧
    (p.state.vel.length = 0 ∨ p.state.vel.length = playerSpeed ℝ) ∧
    ∀ evs q, s.Persists id evs → (s.run evs).world.get id = some q →
      p.state.pos.distance q.state.pos ≤
        evs.countP Event.isTick * (playerSpeed ℝ * tickSeconds) := by
  have h := confined_run past id hp
  exact ⟨h.x, h.y, h.speed, fun evs q hpers hq ↦ distance_run past evs id hp hpers hq⟩

end

/-- A player joins, sends an input with an extreme direction, and is moved by two ticks. -/
theorem run_speedLimit_two :
    letI : FloatBits ℝ :=
      ⟨fun x ↦ if x = 1280 then 0x44A00000 else if x = 720 then 0x44340000 else 0, fun _ ↦ 0⟩
    ∃ q, (((init : Server ℝ).run [.datagram 0 ⟨1, 1⟩ [1, 0, 2]]).run
        [.datagram 0 ⟨1, 1⟩ [3, 0, 1, 0, 0, 0, 1, 127, 128], .tick 0 .sorted,
          .tick 0 .sorted]).world.get 1 = some q ∧
      (ServerPlayer.spawn 1 : ServerPlayer ℝ).state.pos.distance q.state.pos ≤
        (2 : Nat) * (playerSpeed ℝ * tickSeconds) := by
  let _ : FloatBits ℝ :=
    ⟨fun x ↦ if x = 1280 then 0x44A00000 else if x = 720 then 0x44340000 else 0, fun _ ↦ 0⟩
  have hpers : ((init : Server ℝ).run [.datagram 0 ⟨1, 1⟩ [1, 0, 2]]).Persists 1
      [.datagram 0 ⟨1, 1⟩ [3, 0, 1, 0, 0, 0, 1, 127, 128], .tick 0 .sorted, .tick 0 .sorted] := by
    decide +kernel
  obtain ⟨q, hq⟩ := Option.isSome_iff_exists.mp (hpers _ List.prefix_rfl)
  exact ⟨q, hq, (run_speedLimit [.datagram 0 ⟨1, 1⟩ [1, 0, 2]] 1 (ServerPlayer.spawn 1)
    rfl).2.2.2 _ q hpers hq⟩

end Server
end Srv
end LightningLink
