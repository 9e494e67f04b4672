import LightningLink.Client.Prediction

/-!
# Full input history

Library `Client`. The ring of the predictor stands for the list of all inputs recorded so
far, numbered from 1. Reconciliation replays exactly the unacknowledged inputs of this list
as long as they are no more than the ring holds.
-/

namespace LightningLink.Cl

open Support FloatOps FloatArith

/-- Arguments of one `record_and_step`. -/
structure RecordCall (F : Type) [FloatArith F] where
  mx : Int8
  my : Int8
  dt : Double F
  localPos : Vec2 F

variable {F : Type} [FloatArith F]

/-- Position that the call leaves in `local_pos`. -/
def RecordCall.result (c : RecordCall F) : Vec2 F := applyMove c.localPos c.mx c.my c.dt

/-- Each call starts where the one before it has left `local_pos`: the calls lead from one
position to another. -/
def Leads (pos : Vec2 F) : List (RecordCall F) → Vec2 F → Prop
  | [], final => final = pos
  | c :: cs, final => c.localPos = pos ∧ Leads c.result cs final

/-- Inputs as they are recorded, numbered from `n`. -/
def numbered (n : Nat) (calls : List (RecordCall F)) : List (PredictedInput F) :=
  (calls.zipIdx n).map fun c ↦ ⟨UInt32.ofNat c.2, c.1.mx, c.1.my, c.1.dt⟩

/-- All inputs recorded by the calls. -/
def history (calls : List (RecordCall F)) : List (PredictedInput F) := numbered 1 calls

/-- Positions after the moves of recorded inputs. -/
def replayAll (pos : Vec2 F) (inputs : List (PredictedInput F)) : Vec2 F :=
  inputs.foldl (fun pos pi ↦ applyMove pos pi.mx pi.my pi.dt) pos

/-- Inputs that an acknowledgement leaves to replay. -/
def unacked (ack : UInt32) (inputs : List (PredictedInput F)) : List (PredictedInput F) :=
  inputs.filter fun pi ↦ ack < pi.seq

/-- Predictor after calls of `record_and_step`, from the start. -/
def Predictor.recordAll (calls : List (RecordCall F)) : Predictor F :=
  calls.foldl (fun p c ↦ (p.recordAndStep c.mx c.my c.dt c.localPos).2.2) init

@[simp] theorem length_history (calls : List (RecordCall F)) :
    (history calls).length = calls.length := by
  simp [history, numbered]

/-- One more call is numbered next. -/
theorem history_concat (calls : List (RecordCall F)) (c : RecordCall F) :
    history (calls ++ [c]) =
      history calls ++ [⟨UInt32.ofNat (calls.length + 1), c.mx, c.my, c.dt⟩] := by
  simp [history, numbered, List.zipIdx_append, Nat.add_comm]

/-- The input at a position is that of the call there. -/
theorem getElem?_history (calls : List (RecordCall F)) (i : Nat) :
    (history calls)[i]? = calls[i]?.map fun c ↦ ⟨UInt32.ofNat (i + 1), c.mx, c.my, c.dt⟩ := by
  simp [history, numbered, List.getElem?_zipIdx, Nat.add_comm, Function.comp_def]

/-- Inputs are numbered by their position. -/
theorem seq_history (calls : List (RecordCall F)) (i : Nat) (h : i < (history calls).length) :
    (history calls)[i].seq = UInt32.ofNat (i + 1) := by
  simp [history, numbered, Nat.add_comm]

/-- The number of an input is not wrapped below `2 ^ 32`. -/
theorem toNat_seq_history (calls : List (RecordCall F)) (hn : calls.length < 2 ^ 32 - 1)
    (i : Nat) (h : i < (history calls).length) : (history calls)[i].seq.toNat = i + 1 := by
  rw [length_history] at h
  rw [seq_history, UInt32.toNat_ofNat', Nat.mod_eq_of_lt (by omega)]

/-- One more call. -/
theorem Predictor.recordAll_concat (calls : List (RecordCall F)) (c : RecordCall F) :
    recordAll (calls ++ [c]) =
      ((recordAll calls).recordAndStep c.mx c.my c.dt c.localPos).2.2 := by
  rw [recordAll, List.foldl_append]
  rfl

/-- The predictor after the calls: the ring has been pushed their inputs. -/
theorem Predictor.recordAll_eq (calls : List (RecordCall F)) :
    recordAll calls =
      ⟨(history calls).foldl (fun r x ↦ r.push x) (Ring.empty ⟨0, 0, 0, ofInt 0⟩),
        UInt32.ofNat (calls.length + 1)⟩ := by
  induction calls using List.reverseRecOn with
  | nil => rfl
  | append_singleton calls c ih =>
    rw [recordAll_concat, ih, history_concat, List.foldl_append, List.length_append, List.length_singleton]
    unfold recordAndStep
    dsimp only
    congr 1
    rw [UInt32.ofNat_add (calls.length + 1) 1]
    rfl

/-- The ring holds the last inputs of the history. -/
theorem Predictor.toList_recordAll (calls : List (RecordCall F)) :
    (recordAll calls).ring.toList = (history calls).drop (calls.length - inputHistorySize) := by
  rw [recordAll_eq, ← length_history calls]
  exact (Ring.toList_foldl_push _ _).1

/-- Reconciliation replays the unacknowledged inputs of the ring. -/
theorem Predictor.reconcile_eq_replayAll (auth : PlayerState F) (p : Predictor F) :
    p.reconcile auth = replayAll auth.pos (unacked auth.lastProcessedInputSeq p.ring.toList) := by
  rw [reconcile_eq, replayAll, unacked, List.foldl_filter]
  unfold replay
  simp only [decide_eq_true_eq]

/-- Where the ring holds as many inputs as an acknowledgement leaves, it holds all of them. -/
theorem unacked_drop (calls : List (RecordCall F)) (hn : calls.length < 2 ^ 32 - 1)
    (ack : UInt32) (h : (unacked ack (history calls)).length ≤ inputHistorySize) :
    unacked ack ((history calls).drop (calls.length - inputHistorySize)) =
      unacked ack (history calls) := by
  have hsplit := congrArg (unacked ack)
    (List.take_append_drop (calls.length - inputHistorySize) (history calls))
  rw [unacked, List.filter_append] at hsplit
  rw [← hsplit]
  refine (List.append_left_eq_self.mpr ?_).symm
  rw [List.filter_eq_nil_iff]
  intro pi hpi hseq
  obtain ⟨i, hi, rfl⟩ := List.mem_iff_getElem.mp hpi
  rw [List.length_take, length_history] at hi
  rw [List.getElem_take] at hseq
  -- An unacknowledged input that the ring has lost is followed by too many of them.
  have hall : unacked ack ((history calls).drop i) = (history calls).drop i := by
    rw [unacked, List.filter_eq_self]
    intro x hx
    obtain ⟨j, hj, rfl⟩ := List.mem_iff_getElem.mp hx
    rw [List.length_drop, length_history] at hj
    have h1 := toNat_seq_history calls hn i (by rw [length_history]; omega)
    have h2 := toNat_seq_history calls hn (i + j) (by rw [length_history]; omega)
    rw [decide_eq_true_eq, UInt32.lt_iff_toNat_lt] at hseq ⊢
    rw [List.getElem_drop]
    omega
  have hle : ((history calls).drop i).length ≤ (unacked ack (history calls)).length := by
    rw [← hall]
    exact ((List.drop_sublist i _).filter _).length_le
  rw [List.length_drop, length_history] at hle
  omega

/-- Calls that lead from a position end where replaying their inputs ends. -/
theorem Leads.eq_replayAll {pos final : Vec2 F} {calls : List (RecordCall F)}
    (h : Leads pos calls final) (n : Nat) :
    final = replayAll pos (numbered n calls) := by
  induction calls generalizing pos n with
  | nil => exact h
  | cons c cs ih =>
    obtain ⟨rfl, h⟩ := h
    exact ih h (n + 1)

/-- An acknowledgement of the first inputs leaves the later ones. -/
theorem unacked_history_append (past later : List (RecordCall F))
    (hn : (past ++ later).length < 2 ^ 32 - 1) :
    unacked (UInt32.ofNat past.length) (history (past ++ later)) =
      numbered (past.length + 1) later := by
  have hcat : history (past ++ later) = history past ++ numbered (past.length + 1) later := by
    rw [history, numbered, List.zipIdx_append, List.map_append, Nat.add_comm 1]
    rfl
  have hack : (UInt32.ofNat past.length).toNat = past.length := by
    rw [List.length_append] at hn
    rw [UInt32.toNat_ofNat', Nat.mod_eq_of_lt (by omega)]
  have hseq := toNat_seq_history (past ++ later) hn
  rw [hcat, unacked, List.filter_append]
  have hpast : (history past).filter (fun pi ↦ UInt32.ofNat past.length < pi.seq) = [] := by
    rw [List.filter_eq_nil_iff]
    intro pi hpi
    obtain ⟨i, hi, rfl⟩ := List.mem_iff_getElem.mp hpi
    have h1 := hseq i (by rw [hcat, List.length_append]; omega)
    simp only [hcat, List.getElem_append_left hi] at h1
    rw [length_history] at hi
    rw [decide_eq_true_eq, UInt32.lt_iff_toNat_lt, hack, h1]
    omega
  rw [hpast, List.nil_append, List.filter_eq_self]
  intro pi hpi
  obtain ⟨i, hi, rfl⟩ := List.mem_iff_getElem.mp hpi
  have h1 := hseq (past.length + i) (by
    rw [hcat, List.length_append, length_history]
    omega)
  simp only [hcat] at h1
  rw [List.getElem_append_right (by rw [length_history]; omega)] at h1
  simp only [length_history, Nat.add_sub_cancel_left] at h1
  rw [decide_eq_true_eq, UInt32.lt_iff_toNat_lt, hack, h1]
  omega

/-- Reconciliation with an acknowledgement that leaves no more inputs than the ring holds:
the position is the replay of the whole recorded history beyond it, and is the predicted
position where the authoritative one is the client's own right after the last input
acknowledged. -/
theorem Predictor.reconcile_replays (calls : List (RecordCall F)) (hn : calls.length < 2 ^ 32 - 1)
    (auth : PlayerState F)
    (hack : (unacked auth.lastProcessedInputSeq (history calls)).length ≤ inputHistorySize) :
    (recordAll calls).reconcile auth =
        replayAll auth.pos (unacked auth.lastProcessedInputSeq (history calls)) ∧
      ∀ past later localPos, calls = past ++ later →
        auth.lastProcessedInputSeq = UInt32.ofNat past.length →
        Leads auth.pos later localPos → (recordAll calls).reconcile auth = localPos := by
  have hrec : (recordAll calls).reconcile auth =
      replayAll auth.pos (unacked auth.lastProcessedInputSeq (history calls)) := by
    rw [reconcile_eq_replayAll, toList_recordAll, unacked_drop calls hn _ hack]
  refine ⟨hrec, ?_⟩
  rintro past later localPos rfl hseq hleads
  rw [hrec, hseq, unacked_history_append past later hn]
  exact (hleads.eq_replayAll (past.length + 1)).symm

/-- Three inputs, of which the first one is acknowledged at the position it led to. -/
theorem Predictor.reconcile_replays_three :
    let start : Vec2 F32 := initialPos
    let c₁ : RecordCall F32 := ⟨1, 0, dtSeconds F32, start⟩
    let c₂ : RecordCall F32 := ⟨0, -1, dtSeconds F32, c₁.result⟩
    let c₃ : RecordCall F32 := ⟨1, 1, dtSeconds F32, c₂.result⟩
    (recordAll [c₁, c₂, c₃]).reconcile ⟨1, c₁.result, Vec2.zero, 1⟩ = c₃.result := by
  intro start c₁ c₂ c₃
  exact (reconcile_replays [c₁, c₂, c₃] (by decide) ⟨1, c₁.result, Vec2.zero, 1⟩ (by
      change (unacked 1 (history [c₁, c₂, c₃])).length ≤ inputHistorySize
      simp [unacked, history, numbered, inputHistorySize])).2 [c₁] [c₂, c₃] c₃.result rfl rfl
    ⟨rfl, rfl, rfl⟩

end LightningLink.Cl
