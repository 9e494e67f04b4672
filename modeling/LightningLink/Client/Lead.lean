import LightningLink.Client.Correction

/-!
# How far prediction runs ahead

Library `Client`. Models the frame times of `client/client.cpp:260–263`. In exact arithmetic the
local player is never farther from the record of the server than a player gets at `PLAYER_SPEED`
in the time since the last input that the record acknowledges.
-/

namespace LightningLink.Cl

open Support Proto FloatOps FloatArith

/-! ### Frame times -/

section

variable {F : Type} [FloatArith F]

/-- Time over which an input is predicted, from the readings of the clock for the input before
it and for itself, in nanoseconds; `client/client.cpp:260–262`. -/
def frameTime (last now : Int) : Double F :=
  let dt : Double F := ofInt (now - last) / ofInt 1000000000
  if !lt (ofInt 0) dt || lt (ofInt 1 / ofInt 4) dt then dtSeconds F else dt

/-- Frame times of inputs sent one after another. -/
def frameTimes : Int → List Int → List (Double F)
  | _, [] => []
  | last, now :: nows => frameTime last now :: frameTimes now nows

/-- Inputs for which the clock reads as for the one before. -/
def repeats : Int → List Int → Nat
  | _, [] => 0
  | last, now :: nows => (if now = last then 1 else 0) + repeats now nows

/-- Frame times of the later inputs. -/
theorem drop_frameTimes (last : Int) (nows : List Int) (n : Nat) :
    (frameTimes last nows : List (Double F)).drop n =
      frameTimes ((nows.take n).getLastD last) (nows.drop n) := by
  induction nows generalizing last n with
  | nil => simp [frameTimes]
  | cons now nows ih =>
    cases n with
    | zero => rfl
    | succ n => rw [frameTimes, List.drop_succ_cons, ih, List.take_succ_cons, List.getLastD_cons,
        List.drop_succ_cons]

/-- Frame time of an input. -/
def Event.frame : Event F → Option (Double F)
  | .input _ _ dt _ _ => some dt
  | _ => none

/-- Inputs are recorded with their frame times. -/
theorem Client.map_dt_recorded (c : Client F) (evs : List (Event F)) :
    (c.recorded evs).map PredictedInput.dt = evs.filterMap Event.frame := by
  induction evs generalizing c with
  | nil => rfl
  | cons ev evs ih =>
    rw [recorded, List.map_append, ih]
    cases ev with
    | input mx my dt nowMs order =>
      have hrecord : (c.record (.input mx my dt nowMs order)).toList.map PredictedInput.dt =
          [dt] := by
        rw [record]
        split <;> rfl
      rw [hrecord]
      rfl
    | _ => rfl

end

/-! ### Exact arithmetic -/

/-- Nanoseconds in seconds. -/
noncomputable def seconds (ns : Int) : ℝ := ns * 1000000000⁻¹

/-- Frame time in seconds. -/
noncomputable def frameSeconds (last now : Int) : ℝ := ofDouble (frameTime last now : Double ℝ)

/-- A frame time is that between the readings, or a tick's. -/
theorem frameSeconds_eq (last now : Int) :
    let dt := seconds (now - last)
    frameSeconds last now = if 0 < dt ∧ dt ≤ 4⁻¹ then dt else Srv.tickSeconds := by
  intro dt
  have hcast : ((now - last : Int) : ℝ) / ((1000000000 : Int) : ℝ) = dt := by
    rw [Int.cast_ofNat]
    rfl
  have hquarter : ((1 : Int) : ℝ) / ((4 : Int) : ℝ) = 4⁻¹ := by
    norm_num
  have hdef : frameSeconds last now =
      if (!decide (((0 : Int) : ℝ) < ((now - last : Int) : ℝ) / ((1000000000 : Int) : ℝ)) ||
          decide (((1 : Int) : ℝ) / ((4 : Int) : ℝ) <
            ((now - last : Int) : ℝ) / ((1000000000 : Int) : ℝ))) = true
      then Srv.tickSeconds else ((now - last : Int) : ℝ) / ((1000000000 : Int) : ℝ) := rfl
  have hcond : (!decide (0 < dt) || decide (4⁻¹ < dt)) = true ↔ ¬(0 < dt ∧ dt ≤ 4⁻¹) := by
    rw [not_and_or, not_le, Bool.or_eq_true, decide_eq_true_eq, Bool.not_eq_true',
      decide_eq_false_iff_not]
  rw [hdef, hcast, hquarter, Int.cast_zero, if_congr hcond rfl rfl, ite_not]

/-- A tick takes some time. -/
theorem tickSeconds_pos : 0 < Srv.tickSeconds := by
  rw [Srv.tickSeconds_eq]
  norm_num

/-- Frame times are positive. -/
theorem frameSeconds_pos (last now : Int) : 0 < frameSeconds last now := by
  rw [frameSeconds_eq]
  split
  · next h => exact h.1
  · exact tickSeconds_pos

/-- A frame time is no longer than the time between the two readings unless they are equal. -/
theorem frameSeconds_le {last now : Int} (h : last ≤ now) :
    frameSeconds last now ≤
      seconds (now - last) + (if now = last then 1 else 0 : Nat) * Srv.tickSeconds := by
  have hnonneg : 0 ≤ seconds (now - last) :=
    mul_nonneg (Int.cast_nonneg (Int.sub_nonneg_of_le h)) (by norm_num)
  have hrepeat : 0 ≤ ((if now = last then 1 else 0 : Nat) : ℝ) * Srv.tickSeconds :=
    mul_nonneg (Nat.cast_nonneg _) tickSeconds_pos.le
  rw [frameSeconds_eq]
  split
  · exact le_add_of_nonneg_right hrepeat
  · next hout =>
    by_cases heq : now = last
    · -- The readings are equal, and a tick's time is taken.
      rw [if_pos heq, Nat.cast_one, one_mul]
      exact le_add_of_nonneg_left hnonneg
    · have hlt : last < now := lt_of_le_of_ne h (Ne.symm heq)
      have hpos : 0 < seconds (now - last) :=
        mul_pos (Int.cast_pos.mpr (Int.sub_pos_of_lt hlt)) (by norm_num)
      have hlong : 4⁻¹ < seconds (now - last) := not_le.mp fun hle ↦ hout ⟨hpos, hle⟩
      have htick : Srv.tickSeconds ≤ 4⁻¹ := by
        rw [Srv.tickSeconds_eq]
        norm_num
      linarith

/-- Frame times last no longer than the clock advances, but for equal readings. -/
theorem sum_frameTimes_le {last : Int} {nows : List Int} (h : (last :: nows).Pairwise (· ≤ ·)) :
    ((frameTimes last nows).map (ofDouble : Double ℝ → ℝ)).sum ≤
      seconds (nows.getLastD last - last) + repeats last nows * Srv.tickSeconds := by
  induction nows generalizing last with
  | nil => simp [frameTimes, repeats, seconds]
  | cons now nows ih =>
    obtain ⟨hlast, hnows⟩ := List.pairwise_cons.mp h
    have hfirst := frameSeconds_le (hlast now List.mem_cons_self)
    have hrest := ih hnows
    have hclock : seconds (nows.getLastD now - last) =
        seconds (now - last) + seconds (nows.getLastD now - now) := by
      unfold seconds
      push_cast
      ring
    rw [frameTimes, List.map_cons, List.sum_cons, ← frameSeconds, List.getLastD_cons, repeats,
      hclock, Nat.cast_add, add_mul]
    linarith

/-- Frame times are positive. -/
theorem frameTimes_pos {last : Int} {nows : List Int} {dt : Double ℝ}
    (h : dt ∈ (frameTimes last nows : List (Double ℝ))) : 0 < (ofDouble dt : ℝ) := by
  induction nows generalizing last with
  | nil => cases h
  | cons now nows ih =>
    rcases List.mem_cons.mp h with rfl | h
    · exact frameSeconds_pos last now
    · exact ih h

/-- Inside the rectangle of the arena. -/
def Inside (p : Vec2 ℝ) : Prop :=
  (0 ≤ p.x ∧ p.x ≤ arenaWidth ℝ) ∧ 0 ≤ p.y ∧ p.y ≤ arenaHeight ℝ

/-- A client starts inside the arena. -/
theorem inside_initialPos : Inside initialPos := by
  have h := Srv.ServerPlayer.confined_spawn 0
  exact ⟨h.x, h.y⟩

/-- A move ends inside the arena. -/
theorem inside_move (pos : Vec2 ℝ) (pi : PredictedInput ℝ) :
    Inside (PredictedInput.move pos pi) := by
  have h := toPlane_applyMove pos pi.mx pi.my pi.dt
  constructor
  · have hre := congrArg Complex.re h
    change (PredictedInput.move pos pi).x = Support.clamp 0 _ _ at hre
    rw [hre]
    exact clamp_mem (by rw [Srv.arenaWidth_eq]; norm_num) _
  · have him := congrArg Complex.im h
    change (PredictedInput.move pos pi).y = Support.clamp 0 _ _ at him
    rw [him]
    exact clamp_mem (by rw [Srv.arenaHeight_eq]; norm_num) _

/-- From inside the arena a move is no longer than `PLAYER_SPEED` allows. -/
theorem dist_move_le {pos : Vec2 ℝ} (hpos : Inside pos) {pi : PredictedInput ℝ}
    (hdt : 0 < (ofDouble pi.dt : ℝ)) :
    dist (PredictedInput.move pos pi) pos ≤ playerSpeed ℝ * ofDouble pi.dt := by
  let dt : ℝ := ofDouble pi.dt
  let dir : ℂ := (normalizeDir pi.mx pi.my : Vec2 ℝ).toPlane
  have hdir : ‖dir‖ ≤ 1 := by
    rw [← Vec2.length_eq]
    rcases length_normalizeDir pi.mx pi.my with h | h
    · exact h.trans_le zero_le_one
    · exact h.le
  have hspeed : (0 : ℝ) ≤ playerSpeed ℝ := by
    rw [Srv.playerSpeed_eq]
    norm_num
  change dist (applyMove pos pi.mx pi.my pi.dt).toPlane pos.toPlane ≤ _
  rw [toPlane_applyMove]
  calc dist (clampPoint _ _ _) pos.toPlane ≤ ‖(dt : ℂ) * (playerSpeed ℝ * dir)‖ :=
        dist_clampPoint_add_le hpos.1 hpos.2 _
    _ = dt * (playerSpeed ℝ * ‖dir‖) := by
        rw [norm_mul, norm_mul, Complex.norm_of_nonneg (le_of_lt hdt),
          Complex.norm_of_nonneg hspeed]
    _ ≤ dt * (playerSpeed ℝ * 1) :=
        mul_le_mul_of_nonneg_left (mul_le_mul_of_nonneg_left hdir hspeed) (le_of_lt hdt)
    _ = playerSpeed ℝ * ofDouble pi.dt := by rw [mul_one, mul_comm]

/-! ### Runs -/

/-- What a client has stored for a player it has received, or had before. -/
theorem mem_of_receive {F : Type} (snaps : List (Snapshot F))
    (cache : UInt32 × UMap UInt16 (PlayerState F)) {id : UInt16} {ps : PlayerState F}
    (h : (snaps.foldl (snapshotFeed F).receive cache).2.find? id = some ps) :
    (∃ snap ∈ snaps, ps ∈ snap.players ∧ ps.id = id) ∨ cache.2.find? id = some ps := by
  induction snaps using List.reverseRecOn with
  | nil => exact Or.inr h
  | append_singleton snaps snap ih =>
    rw [List.foldl_append] at h
    have hfind := (UMap.find?_foldl_assign PlayerState.id snap.players
      (snaps.foldl (snapshotFeed F).receive cache).2 id).symm.trans h
    rcases Option.or_eq_some_iff.mp hfind with hlast | ⟨_, hold⟩
    · have hmem := List.mem_filter.mp (List.mem_of_getLast? hlast)
      exact Or.inl ⟨snap, List.mem_append_right _ (List.mem_singleton_self snap), hmem.1,
        of_decide_eq_true hmem.2⟩
    · rcases ih hold with ⟨snap', hsnap', hps⟩ | hcache
      · exact Or.inl ⟨snap', List.mem_append_left _ hsnap', hps⟩
      · exact Or.inr hcache

namespace Client

/-- The record that the prediction starts from is inside the arena if those received are. -/
theorem base_inside (myPid : UInt16) (noPrediction noInterpolation : Bool)
    (evs : List (Event ℝ))
    (h : ∀ snap ∈ popped evs, ∀ ps ∈ snap.players, ps.id = myPid → Inside ps.pos) :
    Inside ((init myPid noPrediction noInterpolation).run evs).base.state := by
  let start : Client ℝ := init myPid noPrediction noInterpolation
  obtain ⟨hcache, hid⟩ := run_cache start evs
  cases hfind : (start.run evs).latestAuthoritative.find? (start.run evs).myPid with
  | none =>
    rw [base_of_none hfind]
    exact inside_initialPos
  | some auth =>
    rw [base_of_some hfind]
    have hget := (congrArg (fun x ↦ x.2.find? (start.run evs).myPid) hcache).symm.trans hfind
    rcases mem_of_receive _ _ hget with ⟨snap, hsnap, hauth, hauthId⟩ | hnew
    · exact h snap hsnap auth hauth (hauthId.trans hid)
    · cases hnew

end Client

/-- The last reading is the last one after any of them. -/
theorem getLastD_drop (last : Int) (nows : List Int) (n : Nat) :
    (nows.drop n).getLastD ((nows.take n).getLastD last) = nows.getLastD last := by
  have hlast : nows.getLast? = (nows.drop n).getLast?.or (nows.take n).getLast? := by
    rw [← List.getLast?_append, List.take_append_drop]
  rw [List.getLastD_eq_getLast?, List.getLastD_eq_getLast?, List.getLastD_eq_getLast?, hlast]
  cases (nows.drop n).getLast? <;> rfl

/-- The readings after any of them. -/
theorem pairwise_drop {last : Int} {nows : List Int} (h : (last :: nows).Pairwise (· ≤ ·))
    (n : Nat) : ((nows.take n).getLastD last :: nows.drop n).Pairwise (· ≤ ·) := by
  rw [← List.take_append_drop n nows, ← List.cons_append, List.pairwise_append] at h
  exact List.pairwise_cons.mpr ⟨fun x hx ↦ h.2.2 _ List.getLastD_mem_cons x hx, h.2.1⟩

/-- In every run with prediction on, the local player is no farther from the record that the
prediction starts from than a player gets at `PLAYER_SPEED` in the time between the last input
acknowledged, or the start, and the last input. -/
theorem Client.lead_run (myPid : UInt16) (noInterpolation : Bool) (evs : List (Event ℝ))
    (h : let start : Client ℝ := init myPid false noInterpolation
      EveryStep (fun past ev ↦ (start.run past).Predictable (start.recorded past).length ev) evs)
    (harena : ∀ snap ∈ popped evs, ∀ ps ∈ snap.players, ps.id = myPid → Inside ps.pos)
    (last : Int) (nows : List Int) (hclock : (last :: nows).Pairwise (· ≤ ·))
    (hframes : evs.filterMap Event.frame = frameTimes last nows) :
    let c := (init myPid false noInterpolation : Client ℝ).run evs
    let acked := (nows.take c.base.mark).getLastD last
    c.base.state.distance c.localPos ≤ playerSpeed ℝ *
      (seconds (nows.getLastD last - acked) +
        repeats acked (nows.drop c.base.mark) * Srv.tickSeconds) := by
  intro c acked
  let inputs := (init myPid false noInterpolation : Client ℝ).recorded evs
  have hpos : c.localPos = c.base.replay PredictedInput.move inputs :=
    (predicts_reached myPid noInterpolation evs h).localPos
  have hdts : inputs.map PredictedInput.dt = frameTimes last nows :=
    (map_dt_recorded _ evs).trans hframes
  have hdrop : (inputs.drop c.base.mark).map PredictedInput.dt =
      frameTimes acked (nows.drop c.base.mark) := by
    rw [List.map_drop, hdts, drop_frameTimes]
  have hmove : dist c.localPos c.base.state ≤
      ((inputs.drop c.base.mark).map fun pi ↦ playerSpeed ℝ * ofDouble pi.dt).sum := by
    rw [hpos]
    refine Checkpoint.dist_foldl_le (P := Inside) (fun pos pi _ ↦ inside_move pos pi)
      (fun pos pi hin hmem ↦ dist_move_le hin ?_) (base_inside _ _ _ _ harena)
    exact frameTimes_pos (hdrop ▸ List.mem_map_of_mem hmem)
  have hsum : ((inputs.drop c.base.mark).map fun pi ↦ playerSpeed ℝ * ofDouble pi.dt).sum =
      playerSpeed ℝ * ((frameTimes acked (nows.drop c.base.mark)).map ofDouble).sum := by
    rw [← hdrop, List.map_map, ← List.sum_map_mul_left]
    rfl
  have hspeed : (0 : ℝ) ≤ playerSpeed ℝ := by
    rw [Srv.playerSpeed_eq]
    norm_num
  have htime := sum_frameTimes_le (pairwise_drop hclock c.base.mark)
  rw [getLastD_drop] at htime
  rw [Vec2.distance_eq]
  calc dist c.localPos c.base.state ≤ _ := hmove
    _ = _ := hsum
    _ ≤ _ := mul_le_mul_of_nonneg_left htime hspeed

/-- Two inputs, of which the record acknowledges the first one, sent 16 ms before the second. -/
theorem Client.lead_run_two :
    let evs : List (Event ℝ) := [
      .input 1 0 (frameTime 0 16000000) 16 PendingInputSample.sorted,
      .snapshot ⟨⟨7, [⟨1, initialPos, Vec2.zero, 1⟩]⟩, 20⟩ 20 PendingInputSample.sorted,
      .input 0 1 (frameTime 16000000 32000000) 32 PendingInputSample.sorted]
    let c := (init 1 false false : Client ℝ).run evs
    c.base = ⟨initialPos, 1⟩ ∧ c.base.state.distance c.localPos ≤
      playerSpeed ℝ * (seconds 16000000 + (0 : Nat) * Srv.tickSeconds) := by
  intro evs c
  have h := lead_run 1 false evs (.cons (by decide) (.cons (by decide) (.cons (by decide) .nil)))
    (fun snap hsnap ps hps _ ↦ by
      rw [List.mem_singleton.mp hsnap] at hps
      rw [List.mem_singleton.mp hps]
      exact inside_initialPos)
    0 [16000000, 32000000] (by decide) rfl
  exact ⟨rfl, h⟩

end LightningLink.Cl
