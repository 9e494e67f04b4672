import LightningLink.Client.Inputs
import LightningLink.Client.Newest
import LightningLink.Server.Motion
import LightningLink.Support.Rollback

/-!
# Predicted position and its corrections

Library `Client`. As long as prediction is on, the local position is at every moment what the
unacknowledged inputs make of the newest record received. In exact arithmetic a reconciliation
moves it by no more than the two records miss each other.
-/

namespace LightningLink.Cl

open Support Proto FloatOps FloatArith

section

variable {F : Type} [FloatArith F]

/-- Move of a recorded input. -/
def PredictedInput.move (pos : Vec2 F) (pi : PredictedInput F) : Vec2 F :=
  applyMove pos pi.mx pi.my pi.dt

/-- Record that the prediction starts from, before the first one the initial position. -/
def Client.base (c : Client F) : Checkpoint (Vec2 F) :=
  match c.latestAuthoritative.find? c.myPid with
  | none => ⟨initialPos, 0⟩
  | some auth => ⟨auth.pos, auth.lastProcessedInputSeq.toNat⟩

namespace Predictor

/-- An acknowledgement of inputs that were recorded leaves the later ones. -/
theorem unacked_history (calls : List (RecordCall F)) (hn : calls.length < 2 ^ 32 - 1)
    (ack : UInt32) (hack : ack.toNat ≤ calls.length) :
    unacked ack (history calls) = (history calls).drop ack.toNat := by
  obtain ⟨past, later, rfl, hpast⟩ : ∃ past later, calls = past ++ later ∧
      past.length = ack.toNat :=
    ⟨_, _, (List.take_append_drop ack.toNat calls).symm, List.length_take_of_le hack⟩
  have h := unacked_history_append past later hn
  have hcat : history (past ++ later) = history past ++ numbered (past.length + 1) later := by
    rw [history, numbered, List.zipIdx_append, List.map_append, Nat.add_comm 1]
    rfl
  rw [hpast, UInt32.ofNat_toNat] at h
  rw [h, hcat, hpast]
  exact (List.drop_left' ((length_history past).trans hpast)).symm

/-- Reconciling with a record that acknowledges all but the inputs in the ring. -/
theorem reconcile_recordAll (calls : List (RecordCall F)) (hn : calls.length < 2 ^ 32 - 1)
    (auth : PlayerState F) (hack : auth.lastProcessedInputSeq.toNat ≤ calls.length)
    (hring : calls.length ≤ auth.lastProcessedInputSeq.toNat + inputHistorySize) :
    (recordAll calls).reconcile auth =
      Checkpoint.replay PredictedInput.move (history calls)
        ⟨auth.pos, auth.lastProcessedInputSeq.toNat⟩ := by
  have hunacked := unacked_history calls hn auth.lastProcessedInputSeq hack
  have hlen : (unacked auth.lastProcessedInputSeq (history calls)).length ≤ inputHistorySize := by
    rw [hunacked, List.length_drop, length_history]
    omega
  rw [(reconcile_replays calls hn auth hlen).1, hunacked]
  rfl

end Predictor

namespace Client

/-- Input that an event records. -/
def record (c : Client F) : Event F → Option (PredictedInput F)
  | .input mx my dt _ _ =>
    if c.predictionEnabled then some ⟨c.predictor.nextSeq, mx, my, dt⟩
    else some ⟨c.predictor.nextSeq, 0, 0, dt⟩
  | _ => none

/-- Inputs that a run records, in order. -/
def recorded (c : Client F) : List (Event F) → List (PredictedInput F)
  | [] => []
  | ev :: evs => (c.record ev).toList ++ recorded (c.step ev) evs

/-- Inputs recorded up to one more event. -/
theorem recorded_concat (c : Client F) (evs : List (Event F)) (ev : Event F) :
    c.recorded (evs ++ [ev]) = c.recorded evs ++ ((c.run evs).record ev).toList := by
  induction evs generalizing c with
  | nil => exact List.append_nil _
  | cons e evs ih =>
    rw [List.cons_append, recorded, ih, recorded, List.append_assoc]
    rfl

/-- An event that does not switch prediction off. A snapshot leaves the client with a record that
acknowledges inputs sent, among them all that the ring has lost; numbers do not wrap. -/
def Predictable (c : Client F) (inputs : Nat) : Event F → Prop
  | .togglePrediction => False
  | .snapshot ss nowMs order =>
    let ack := (c.step (.snapshot ss nowMs order)).base.mark
    ack ≤ inputs ∧ inputs ≤ ack + inputHistorySize
  | .prune _ _ => True
  | .input _ _ _ _ _ => inputs + 1 < 2 ^ 32 - 1

instance (c : Client F) (inputs : Nat) (ev : Event F) : Decidable (c.Predictable inputs ev) :=
  match ev with
  | .togglePrediction => .isFalse id
  | .snapshot _ _ _ => inferInstanceAs (Decidable (_ ∧ _))
  | .prune _ _ => .isTrue trivial
  | .input _ _ _ _ _ => inferInstanceAs (Decidable (_ < _))

/-- The local position is what the inputs not acknowledged make of the record. -/
structure Predicts (c : Client F) (inputs : List (PredictedInput F)) : Prop where
  enabled : c.predictionEnabled = true
  ring : ∃ calls, c.predictor = .recordAll calls ∧ history calls = inputs
  bound : inputs.length < 2 ^ 32 - 1
  mark : c.base.mark ≤ inputs.length
  localPos : c.localPos = c.base.replay PredictedInput.move inputs

/-- A client without a record of itself. -/
theorem base_of_none {c : Client F} (h : c.latestAuthoritative.find? c.myPid = none) :
    c.base = ⟨initialPos, 0⟩ := by
  rw [base, h]

/-- A client with a record of itself. -/
theorem base_of_some {c : Client F} {auth : PlayerState F}
    (h : c.latestAuthoritative.find? c.myPid = some auth) :
    c.base = ⟨auth.pos, auth.lastProcessedInputSeq.toNat⟩ := by
  rw [base, h]

/-- Draining leaves prediction as it is. -/
theorem drainSnapshot_enabled (ss : StampedSnapshot F) (nowMs : UInt64)
    (order : UMap.Traversal UInt32 (PendingInputSample F)) (c : Client F) :
    (c.drainSnapshot ss nowMs order).predictionEnabled = c.predictionEnabled := by
  rw [drainSnapshot_eq]
  split
  · rfl
  · next auth _ =>
    obtain ⟨err, delay, log, pending, h⟩ := (c.store ss).reconcileLocal_frame auth nowMs order
    rw [h]
    rfl

/-- A client that has no record of itself after a snapshot had none before it, and has not
moved. -/
theorem drainSnapshot_none {ss : StampedSnapshot F} {nowMs : UInt64}
    {order : UMap.Traversal UInt32 (PendingInputSample F)} {c : Client F}
    (h : (c.drainSnapshot ss nowMs order).latestAuthoritative.find? c.myPid = none) :
    c.latestAuthoritative.find? c.myPid = none ∧
      (c.drainSnapshot ss nowMs order).localPos = c.localPos := by
  have hstored : (c.store ss).latestAuthoritative.find? c.myPid = none :=
    (drainSnapshot_stores ss nowMs order c).2.2.1 ▸ h
  refine ⟨?_, ?_⟩
  · rw [store, UMap.find?_foldl_assign] at hstored
    exact (Option.or_eq_none_iff.mp hstored).2
  · rw [drainSnapshot_eq]
    simp only [hstored]
    rfl

namespace Predicts

variable {c : Client F} {inputs : List (PredictedInput F)}

/-- A snapshot. -/
theorem snapshot (h : c.Predicts inputs) {ss : StampedSnapshot F} {nowMs : UInt64}
    {order : UMap.Traversal UInt32 (PendingInputSample F)}
    (hev : c.Predictable inputs.length (.snapshot ss nowMs order)) :
    (c.step (.snapshot ss nowMs order)).Predicts inputs := by
  obtain ⟨hid, hpredictor⟩ := drainSnapshot_frame ss nowMs order c
  obtain ⟨calls, hcalls, rfl⟩ := h.ring
  refine ⟨?_, ⟨calls, hpredictor.trans hcalls, rfl⟩, h.bound, hev.1, ?_⟩
  · exact (drainSnapshot_enabled ss nowMs order c).trans h.enabled
  · change (c.drainSnapshot ss nowMs order).localPos = _
    cases hfind : (c.drainSnapshot ss nowMs order).latestAuthoritative.find? c.myPid with
    | none =>
      obtain ⟨hbefore, hpos⟩ := drainSnapshot_none hfind
      have hbase : (c.step (.snapshot ss nowMs order)).base = c.base :=
        (base_of_none (hid.symm ▸ hfind)).trans (base_of_none hbefore).symm
      rw [hpos, hbase]
      exact h.localPos
    | some auth =>
      have hbase : (c.step (.snapshot ss nowMs order)).base =
          ⟨auth.pos, auth.lastProcessedInputSeq.toNat⟩ := base_of_some (hid.symm ▸ hfind)
      obtain ⟨hack, hring⟩ : auth.lastProcessedInputSeq.toNat ≤ (history calls).length ∧
          (history calls).length ≤ auth.lastProcessedInputSeq.toNat + inputHistorySize := by
        have hev : (c.step (.snapshot ss nowMs order)).base.mark ≤ _ ∧ _ := hev
        rwa [hbase] at hev
      have hbound := h.bound
      rw [length_history] at hack hring hbound
      have hpos := ((drainSnapshot_spec ss nowMs order c).2 auth hfind).pos
      rw [hpos, if_pos h.enabled, hcalls, hbase]
      exact Predictor.reconcile_recordAll calls hbound auth hack hring

/-- An input. -/
theorem input (h : c.Predicts inputs) {mx my : Int8} {dt : Double F} {nowMs : UInt64}
    {order : UMap.Traversal UInt32 (PendingInputSample F)}
    (hev : inputs.length + 1 < 2 ^ 32 - 1) :
    (c.step (.input mx my dt nowMs order)).Predicts
      (inputs ++ [⟨c.predictor.nextSeq, mx, my, dt⟩]) := by
  obtain ⟨calls, hcalls, rfl⟩ := h.ring
  have hseq : c.predictor.nextSeq = UInt32.ofNat (calls.length + 1) := by
    rw [hcalls, Predictor.recordAll_eq]
  have hsend : (c.step (.input mx my dt nowMs order)).predictor =
      (c.predictor.recordAndStep mx my dt c.localPos).2.2 ∧
      (c.step (.input mx my dt nowMs order)).localPos = applyMove c.localPos mx my dt := by
    change (c.sendInput mx my dt nowMs order).1.predictor = _ ∧
      (c.sendInput mx my dt nowMs order).1.localPos = _
    unfold sendInput
    rw [if_pos h.enabled]
    exact ⟨rfl, rfl⟩
  have hbase : (c.step (.input mx my dt nowMs order)).base = c.base := rfl
  refine ⟨h.enabled, ⟨calls ++ [⟨mx, my, dt, c.localPos⟩], ?_, ?_⟩, ?_, ?_, ?_⟩
  · rw [hsend.1, hcalls, Predictor.recordAll_concat]
  · rw [history_concat, hseq]
  · rwa [List.length_append]
  · rw [hbase, List.length_append]
    exact Nat.le_add_right_of_le h.mark
  · rw [hsend.2, hbase, Checkpoint.replay_concat h.mark, ← h.localPos]
    rfl

/-- An event that leaves the prediction to itself. -/
theorem step (h : c.Predicts inputs) {ev : Event F} (hev : c.Predictable inputs.length ev) :
    (c.step ev).Predicts (inputs ++ (c.record ev).toList) := by
  cases ev with
  | togglePrediction => exact hev.elim
  | snapshot ss nowMs order => exact (List.append_nil inputs).symm ▸ h.snapshot hev
  | prune nowMs order =>
    exact (List.append_nil inputs).symm ▸ ⟨h.enabled, h.ring, h.bound, h.mark, h.localPos⟩
  | input mx my dt nowMs order =>
    rw [record, if_pos h.enabled]
    exact h.input hev

end Predicts

/-- Nothing recorded or received. -/
theorem predicts_init (myPid : UInt16) (noInterpolation : Bool) :
    (init myPid false noInterpolation : Client F).Predicts [] where
  enabled := rfl
  ring := ⟨[], rfl, rfl⟩
  bound := (by decide : 0 < 2 ^ 32 - 1)
  mark := Nat.zero_le _
  localPos := by rw [base_of_none rfl]; rfl

/-- Every run with prediction on. -/
theorem predicts_reached (myPid : UInt16) (noInterpolation : Bool) (evs : List (Event F))
    (h : let start : Client F := init myPid false noInterpolation
      EveryStep (fun past ev ↦ (start.run past).Predictable (start.recorded past).length ev) evs) :
    let start : Client F := init myPid false noInterpolation
    (start.run evs).Predicts (start.recorded evs) := by
  intro start
  induction evs using List.reverseRecOn with
  | nil => exact predicts_init myPid noInterpolation
  | append_singleton evs ev ih =>
    rw [run_concat, recorded_concat]
    exact (ih h.init).step h.last

/-- With prediction on, what is recorded is what is sent. -/
theorem command_record {c : Client F} (h : c.predictionEnabled = true) (ev : Event F) :
    (c.record ev).toList.map PredictedInput.command =
      (c.sends ev).toList.map InputPacket.command := by
  cases ev with
  | input mx my dt nowMs order =>
    rw [record, if_pos h, sends, (sendInput_spec mx my dt nowMs order c).1]
    rfl
  | _ => rfl

/-- In every run with prediction on, whatever snapshots arrive in whatever order, the local
position is what the inputs sent and not acknowledged make of the record. -/
theorem predicts_run (myPid : UInt16) (noInterpolation : Bool) (evs : List (Event F))
    (h : let start : Client F := init myPid false noInterpolation
      EveryStep (fun past ev ↦ (start.run past).Predictable (start.recorded past).length ev) evs) :
    let start : Client F := init myPid false noInterpolation
    let inputs := start.recorded evs
    inputs.map PredictedInput.command = (start.sent evs).map InputPacket.command ∧
      (start.run evs).localPos = (start.run evs).base.replay PredictedInput.move inputs := by
  intro start inputs
  refine ⟨?_, (predicts_reached myPid noInterpolation evs h).localPos⟩
  induction evs using List.reverseRecOn with
  | nil => rfl
  | append_singleton evs ev ih =>
    have henabled := (predicts_reached myPid noInterpolation evs h.init).enabled
    change (start.recorded (evs ++ [ev])).map _ = _
    rw [recorded_concat, sent_concat, List.map_append, List.map_append, command_record henabled]
    exact congrArg (· ++ _) (ih h.init)

/-- Two inputs, a record that acknowledges the first one, and a third input. -/
theorem predicts_run_three :
    let evs : List (Event F32) := [
      .input 1 0 (dtSeconds F32) 0 PendingInputSample.sorted,
      .input 0 1 (dtSeconds F32) 16 PendingInputSample.sorted,
      .snapshot ⟨⟨7, [⟨1, initialPos, Vec2.zero, 1⟩]⟩, 20⟩ 20 PendingInputSample.sorted,
      .input 0 1 (dtSeconds F32) 32 PendingInputSample.sorted]
    let c : Client F32 := (init 1 false false).run evs
    c.localPos = applyMove (applyMove initialPos 0 1 (dtSeconds F32)) 0 1 (dtSeconds F32) := by
  intro evs c
  exact (predicts_run 1 false evs
    (.cons (by decide) (.cons (by decide) (.cons (by decide) (.cons (by decide) .nil))))).2

/-- The error that a reconciliation reports. -/
theorem drainSnapshot_error {ss : StampedSnapshot F} {nowMs : UInt64}
    {order : UMap.Traversal UInt32 (PendingInputSample F)} {c : Client F} {auth : PlayerState F}
    (h : (c.drainSnapshot ss nowMs order).latestAuthoritative.find? c.myPid = some auth) :
    let c' := c.drainSnapshot ss nowMs order
    let dx := c'.localPos.x - c.localPos.x
    let dy := c'.localPos.y - c.localPos.y
    c'.lastReconErrPx = sqrt (dx * dx + dy * dy) := by
  have hstored : (c.store ss).latestAuthoritative.find? c.myPid = some auth :=
    (drainSnapshot_stores ss nowMs order c).2.2.1 ▸ h
  rw [drainSnapshot_eq]
  simp only [hstored]
  unfold reconcileLocal
  dsimp only
  obtain ⟨delay, log, pending, hmatch⟩ :=
    foldl_matchPending nowMs (order.order (c.store ss).pending) _
  rw [hmatch]
  rfl

end Client
end

/-! ### Exact arithmetic -/

/-- The distances of the plane. -/
noncomputable instance : PseudoMetricSpace (Vec2 ℝ) := .induced Vec2.toPlane inferInstance

/-- Distances are those of the plane. -/
theorem distance_eq_dist (a b : Vec2 ℝ) : a.distance b = dist a b :=
  (Vec2.distance_eq a b).trans (dist_comm _ _)

/-- A move displaces a point by a multiple of its direction and clamps it. -/
theorem toPlane_applyMove (p : Vec2 ℝ) (mx my : Int8) (dt : ℝ) :
    (applyMove p mx my dt).toPlane = clampPoint (arenaWidth ℝ) (arenaHeight ℝ)
      (p.toPlane + dt * (playerSpeed ℝ * (normalizeDir mx my : Vec2 ℝ).toPlane)) := by
  let dir : Vec2 ℝ := normalizeDir mx my
  have h : applyMove p mx my dt =
      ⟨clampf (p.x + dir.x * playerSpeed ℝ * dt) ((0 : Int) : ℝ) (arenaWidth ℝ),
        clampf (p.y + dir.y * playerSpeed ℝ * dt) ((0 : Int) : ℝ) (arenaHeight ℝ)⟩ := rfl
  rw [h, clampf_eq, clampf_eq, Int.cast_zero]
  apply Complex.ext <;> simp [Vec2.toPlane, clampPoint, dir, mul_comm]

/-- Moves do not drive positions apart. -/
theorem lipschitzWith_move (pi : PredictedInput ℝ) :
    LipschitzWith 1 fun pos ↦ PredictedInput.move pos pi := by
  refine LipschitzWith.mk_one fun p q ↦ ?_
  change dist (applyMove p pi.mx pi.my pi.dt).toPlane (applyMove q pi.mx pi.my pi.dt).toPlane ≤
    dist p.toPlane q.toPlane
  rw [toPlane_applyMove, toPlane_applyMove]
  exact (dist_clampPoint_le _ _ _ _).trans (dist_add_right _ _ _).le

/-- In every run with prediction on, a snapshot moves the local player by no more than the new
record misses the forecast from the record before it or, where it is an older one, than its
forecast misses that record. The error reported is the distance moved. -/
theorem Client.correction_run (myPid : UInt16) (noInterpolation : Bool) (past : List (Event ℝ))
    (ss : StampedSnapshot ℝ) (nowMs : UInt64)
    (order : UMap.Traversal UInt32 (PendingInputSample ℝ))
    (h : let start : Client ℝ := init myPid false noInterpolation
      EveryStep (fun past ev ↦ (start.run past).Predictable (start.recorded past).length ev)
        (past ++ [.snapshot ss nowMs order])) :
    let start : Client ℝ := init myPid false noInterpolation
    let inputs := start.recorded past
    let c := start.run past
    let c' := start.run (past ++ [.snapshot ss nowMs order])
    (c.base.mark ≤ c'.base.mark → c.localPos.distance c'.localPos ≤
      (c.base.forecast PredictedInput.move inputs c'.base.mark).distance c'.base.state) ∧
    (c'.base.mark ≤ c.base.mark → c.localPos.distance c'.localPos ≤
      c.base.state.distance (c'.base.forecast PredictedInput.move inputs c.base.mark)) ∧
    ∀ auth, c'.latestAuthoritative.find? c.myPid = some auth →
      c'.lastReconErrPx = c.localPos.distance c'.localPos := by
  intro start inputs c c'
  have hbefore : c.Predicts inputs := predicts_reached myPid noInterpolation past h.init
  have hafter : c'.Predicts inputs := by
    have hrun : c'.Predicts (start.recorded _) := predicts_reached myPid noInterpolation _ h
    rw [recorded_concat] at hrun
    exact List.append_nil inputs ▸ hrun
  have hc' : c' = c.drainSnapshot ss nowMs order := run_concat start past _
  rw [distance_eq_dist, distance_eq_dist, distance_eq_dist, hbefore.localPos, hafter.localPos]
  refine ⟨fun hle ↦ ?_, fun hle ↦ ?_, fun auth hauth ↦ ?_⟩
  · have hdist := Checkpoint.dist_replay_le lipschitzWith_move inputs hle le_rfl
    rwa [Checkpoint.forecast_self] at hdist
  · have hdist := Checkpoint.dist_replay_le lipschitzWith_move inputs le_rfl hle
    rwa [Checkpoint.forecast_self] at hdist
  · rw [← hbefore.localPos, ← hafter.localPos, ← distance_eq_dist, Vec2.distance, sq, sq]
    rw [hc'] at hauth ⊢
    exact drainSnapshot_error hauth

/-- An input, a record that acknowledges it, and an older record that arrives after it. -/
theorem Client.correction_run_two :
    let past : List (Event ℝ) := [
      .input 1 0 (dtSeconds ℝ) 0 PendingInputSample.sorted,
      .snapshot ⟨⟨7, [⟨1, ⟨644, 360⟩, Vec2.zero, 1⟩]⟩, 20⟩ 20 PendingInputSample.sorted]
    let last : Event ℝ :=
      .snapshot ⟨⟨4, [⟨1, initialPos, Vec2.zero, 0⟩]⟩, 24⟩ 24 PendingInputSample.sorted
    let start : Client ℝ := init 1 false false
    (start.run past).base = ⟨⟨644, 360⟩, 1⟩ ∧
    (start.run past).localPos.distance (start.run (past ++ [last])).localPos ≤
      (⟨644, 360⟩ : Vec2 ℝ).distance (applyMove initialPos 1 0 (dtSeconds ℝ)) := by
  intro past last start
  have h := correction_run 1 false past ⟨⟨4, [⟨1, initialPos, Vec2.zero, 0⟩]⟩, 24⟩ 24
    PendingInputSample.sorted (.cons (by decide) (.cons (by decide) (.cons (by decide) .nil)))
  exact ⟨rfl, h.2.1 (by decide)⟩

end LightningLink.Cl
