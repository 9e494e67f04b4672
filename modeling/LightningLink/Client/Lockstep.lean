import LightningLink.Client.History
import LightningLink.Server.WorldState

/-!
# Prediction against the authoritative simulation

Library `Client`. A server that applies one input per tick and a client that predicts the
same inputs stay at the same position, and reconciling against any acknowledged state that
the ring still covers changes nothing. The arithmetic is arbitrary.
-/

namespace LightningLink.Cl

open Support Srv FloatArith

variable {F : Type} [FloatArith F]

/-- A direction `(mx, my)`. -/
abbrev Dir := Int8 × Int8

/-- Components in `{-1, 0, 1}`. -/
def Dir.Valid (d : Dir) : Prop := (d.1 = -1 ∨ d.1 = 0 ∨ d.1 = 1) ∧ (d.2 = -1 ∨ d.2 = 0 ∨ d.2 = 1)

instance (d : Dir) : Decidable d.Valid := by unfold Dir.Valid; infer_instance

/-- The server applies input `i` and ticks, for each direction, with `i` counted from 1. -/
def serverLockstep (id : UInt16) (w : WorldState F) (ds : List Dir) : WorldState F :=
  (ds.zipIdx 1).foldl
    (fun w d ↦ (w.applyInput id (UInt32.ofNat d.2) d.1.1 d.1.2).2.stepTick) w

/-- The client predicts each direction over `DT_SECONDS`. -/
def clientLockstep (ds : List Dir) : Predictor F × Vec2 F :=
  ds.foldl (fun c d ↦
    let r := c.1.recordAndStep d.1 d.2 (dtSeconds F) c.2
    (r.2.2, r.2.1)) (Predictor.init, initialPos)

/-- Position after the moves of several directions. -/
def moves (pos : Vec2 F) (ds : List Dir) : Vec2 F :=
  ds.foldl (fun pos d ↦ applyMove pos d.1 d.2 (dtSeconds F)) pos

/-- Inputs as the predictor records them. -/
def recorded (ds : List Dir) : List (PredictedInput F) :=
  (ds.zipIdx 1).map fun d ↦ ⟨UInt32.ofNat d.2, d.1.1, d.1.2, dtSeconds F⟩

/-- A tick moves a player as the client predicts it. -/
theorem move_pos (p : ServerPlayer F) :
    p.move.state.pos = applyMove p.state.pos p.pendingMx p.pendingMy (dtSeconds F) := rfl

private theorem clampDir_of_valid {v : Int8} (h : v = -1 ∨ v = 0 ∨ v = 1) : clampDir v = v := by
  rcases h with rfl | rfl | rfl <;> decide

/-- The server's record after a lockstep run from the spawn record. -/
theorem get_serverLockstep (id : UInt16) (w : WorldState F)
    (hw : w.get id = some (ServerPlayer.spawn id)) (ds : List Dir) (hd : ∀ d ∈ ds, d.Valid)
    (hn : ds.length < 2 ^ 32 - 1) :
    ∃ p, (serverLockstep id w ds).get id = some p ∧ p.state.pos = moves initialPos ds ∧
      p.state.lastProcessedInputSeq = UInt32.ofNat ds.length ∧
      p.latestSeenSeq = UInt32.ofNat ds.length := by
  induction ds using List.reverseRecOn with
  | nil => exact ⟨_, hw, rfl, rfl, rfl⟩
  | append_singleton ds d ih =>
    rw [List.length_append, List.length_singleton] at hn
    obtain ⟨p, hp, hpos, hack, hseen⟩ :=
      ih (fun x hx ↦ hd x (List.mem_append_left _ hx)) (by omega)
    have hvalid := hd d (List.mem_append_right _ (List.mem_singleton_self d))
    have hseq : ¬UInt32.ofNat (1 + ds.length) < p.latestSeenSeq := by
      rw [hseen, UInt32.lt_iff_toNat_lt, UInt32.toNat_ofNat', UInt32.toNat_ofNat']
      omega
    refine ⟨(p.accept (UInt32.ofNat (1 + ds.length)) d.1 d.2).move, ?_, ?_, ?_, ?_⟩
    · have hstep : serverLockstep id w (ds ++ [d]) =
          ((serverLockstep id w ds).applyInput id (UInt32.ofNat (1 + ds.length))
            d.1 d.2).2.stepTick := by
        simp [serverLockstep, List.zipIdx_append]
      rw [hstep, WorldState.get_stepTick, WorldState.get_applyInput, if_pos rfl, hp,
        Option.map_some, Option.map_some, ServerPlayer.input, if_neg hseq]
    · rw [move_pos]
      change applyMove p.state.pos (clampDir d.1) (clampDir d.2) _ = _
      rw [clampDir_of_valid hvalid.1, clampDir_of_valid hvalid.2, hpos]
      simp [moves]
    · rw [List.length_append, List.length_singleton, Nat.add_comm]
      rfl
    · rw [List.length_append, List.length_singleton, Nat.add_comm]
      rfl

/-- The client's state after a lockstep run. -/
theorem clientLockstep_eq (ds : List Dir) :
    (clientLockstep ds : Predictor F × Vec2 F) =
      (⟨(recorded ds).foldl (fun r x ↦ r.push x) (Ring.empty ⟨0, 0, 0, FloatOps.ofInt 0⟩),
        UInt32.ofNat (ds.length + 1)⟩, moves initialPos ds) := by
  induction ds using List.reverseRecOn with
  | nil => rfl
  | append_singleton ds d ih =>
    have hrec : (recorded (ds ++ [d]) : List (PredictedInput F)) =
        recorded ds ++ [⟨UInt32.ofNat (ds.length + 1), d.1, d.2, dtSeconds F⟩] := by
      simp [recorded, List.zipIdx_append, Nat.add_comm]
    have hstep : (clientLockstep (ds ++ [d]) : Predictor F × Vec2 F) =
        let c : Predictor F × Vec2 F := clientLockstep ds
        let r := c.1.recordAndStep d.1 d.2 (dtSeconds F) c.2
        (r.2.2, r.2.1) := by
      simp [clientLockstep]
    rw [hstep, ih, hrec]
    simp [Predictor.recordAndStep, moves, UInt32.ofNat_add]

/-! ### The client's inputs as a history -/

/-- Calls of `record_and_step` that predict directions from a position. -/
def calls (pos : Vec2 F) : List Dir → List (RecordCall F)
  | [] => []
  | d :: ds => ⟨d.1, d.2, dtSeconds F, pos⟩ :: calls (applyMove pos d.1 d.2 (dtSeconds F)) ds

private theorem length_calls (pos : Vec2 F) (ds : List Dir) : (calls pos ds).length = ds.length := by
  induction ds generalizing pos with
  | nil => rfl
  | cons d ds ih => exact congrArg (· + 1) (ih _)

private theorem calls_append (pos : Vec2 F) (ds es : List Dir) :
    calls pos (ds ++ es) = calls pos ds ++ calls (moves pos ds) es := by
  induction ds generalizing pos with
  | nil => rfl
  | cons d ds ih => exact congrArg (_ :: ·) (ih _)

/-- The calls lead along the moves. -/
theorem leads_calls (pos : Vec2 F) (ds : List Dir) : Leads pos (calls pos ds) (moves pos ds) := by
  induction ds generalizing pos with
  | nil => rfl
  | cons d ds ih => exact ⟨rfl, ih _⟩

private theorem numbered_calls (pos : Vec2 F) (ds : List Dir) (n : Nat) :
    numbered n (calls pos ds) =
      (ds.zipIdx n).map fun d ↦ ⟨UInt32.ofNat d.2, d.1.1, d.1.2, dtSeconds F⟩ := by
  induction ds generalizing pos n with
  | nil => rfl
  | cons d ds ih => exact congrArg (_ :: ·) (ih _ (n + 1))

/-- The predictor after a lockstep run has recorded the calls. -/
theorem predictor_clientLockstep (ds : List Dir) :
    (clientLockstep ds : Predictor F × Vec2 F).1 = .recordAll (calls initialPos ds) := by
  rw [clientLockstep_eq, Predictor.recordAll_eq, length_calls, history, numbered_calls, recorded]

/-- Prediction agrees with the authoritative simulation in lockstep: the positions are equal
after all inputs, and reconciling against the state after `k` of them, with at most
`INPUT_HISTORY_SIZE` not acknowledged, leaves the local position as it is. -/
theorem lockstep (id : UInt16) (w : WorldState F) (hid : w.get id = none) (ds : List Dir)
    (hd : ∀ d ∈ ds, d.Valid) (hn : ds.length < 2 ^ 32 - 1) (k : Nat) (hk : k ≤ ds.length)
    (hwindow : ds.length - k ≤ inputHistorySize) :
    let server := (w.addPlayer id).2
    let client : Predictor F × Vec2 F := clientLockstep ds
    (∃ p, (serverLockstep id server ds).get id = some p ∧ p.state.pos = client.2) ∧
    (∃ p, (serverLockstep id server (ds.take k)).get id = some p ∧
      p.state.lastProcessedInputSeq = UInt32.ofNat k ∧ client.1.reconcile p.state = client.2) := by
  have hspawn : (w.addPlayer id).2.get id = some (ServerPlayer.spawn id) := by
    rw [WorldState.get_addPlayer, if_pos ⟨rfl, hid⟩]
  have hlen : (ds.take k).length = k := List.length_take_of_le hk
  obtain ⟨p, hp, hpos, _, _⟩ := get_serverLockstep id _ hspawn ds hd hn
  obtain ⟨q, hq, hqpos, hqack, _⟩ := get_serverLockstep id _ hspawn (ds.take k)
    (fun d hd' ↦ hd d (List.mem_of_mem_take hd')) (by omega)
  rw [hlen] at hqack
  have hfinal : (clientLockstep ds : Predictor F × Vec2 F).2 = moves initialPos ds := by
    rw [clientLockstep_eq]
  have hsplit : calls initialPos ds = calls (F := F) initialPos (ds.take k) ++
      calls (moves initialPos (ds.take k)) (ds.drop k) := by
    rw [← calls_append, List.take_append_drop]
  have hmoves : moves (moves initialPos (ds.take k)) (ds.drop k) = moves (F := F) initialPos ds := by
    rw [moves, moves, ← List.foldl_append, List.take_append_drop, ← moves]
  have hcalls : (calls (F := F) initialPos (ds.take k)).length = k := by
    rw [length_calls, hlen]
  have hbound : (calls (F := F) initialPos ds).length < 2 ^ 32 - 1 := by
    rwa [length_calls]
  -- The ring holds the inputs that are not acknowledged.
  have hunacked : unacked (UInt32.ofNat k) (history (calls initialPos ds)) =
      numbered (F := F) (k + 1) (calls (moves initialPos (ds.take k)) (ds.drop k)) := by
    have h := unacked_history_append _ _ (hsplit ▸ hbound)
    rwa [← hsplit, hcalls] at h
  have hwindow' : (unacked (UInt32.ofNat k) (history (calls (F := F) initialPos ds))).length ≤
      inputHistorySize := by
    rw [hunacked, numbered, List.length_map, List.length_zipIdx, length_calls, List.length_drop]
    exact hwindow
  refine ⟨⟨p, hp, hpos.trans hfinal.symm⟩, q, hq, hqack, ?_⟩
  rw [predictor_clientLockstep, Predictor.reconcile_eq_replayAll, Predictor.toList_recordAll, hqack,
    unacked_drop _ hbound _ hwindow', hunacked, hqpos, hfinal, ← hmoves]
  exact ((leads_calls _ _).eq_replayAll (k + 1)).symm

/-- Two inputs, of which the server has acknowledged the first one. -/
theorem lockstep_two :
    ∃ p, (serverLockstep 1 ((WorldState.init : WorldState F32).addPlayer 1).2
        ([(1, 0), (0, -1)].take 1)).get 1 = some p ∧
      p.state.lastProcessedInputSeq = UInt32.ofNat 1 ∧
      (clientLockstep [(1, 0), (0, -1)]).1.reconcile p.state =
        (clientLockstep [(1, 0), (0, -1)] : Predictor F32 × Vec2 F32).2 :=
  (lockstep 1 WorldState.init (by decide) [(1, 0), (0, -1)] (by simp [Dir.Valid]) (by decide) 1
    (by decide) (by decide)).2

end LightningLink.Cl
