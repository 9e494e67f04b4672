import LightningLink.Common.Types
import LightningLink.Support.Ring

/-!
# Client-side prediction

Library `Client`. Models `client/prediction.hpp` and `client/prediction.cpp`: the movement
formula, the ring of recent local inputs and the replay on top of an authoritative record.
-/

namespace LightningLink.Cl

open Support FloatOps FloatArith

/-- `client/prediction.hpp:12–17`. -/
structure PredictedInput (F : Type) [FloatArith F] where
  seq : UInt32
  mx : Int8
  my : Int8
  dt : Double F

/-- Ring of the last `INPUT_HISTORY_SIZE` inputs, and the next sequence number. -/
structure Predictor (F : Type) [FloatArith F] where
  ring : Ring (PredictedInput F) inputHistorySize
  nextSeq : UInt32

variable {F : Type} [FloatArith F]

/-- `client/prediction.cpp:7–12`. -/
def applyMove (p : Vec2 F) (mx my : Int8) (dt : Double F) : Vec2 F :=
  let dir : Vec2 F := normalizeDir mx my
  let vel := dir * playerSpeed F
  let next := p + vel * (ofDouble dt : F)
  clampToArena next (arenaWidth F) (arenaHeight F)

/-- Position of a client that has not moved; `client/client.cpp:138`. -/
def initialPos : Vec2 F := ⟨arenaWidth F * half F, arenaHeight F * half F⟩

instance : NeZero inputHistorySize := ⟨by decide⟩

namespace Predictor

/-- Predictor of a client that has just started. -/
def init : Predictor F := ⟨Ring.empty ⟨0, 0, 0, ofInt 0⟩, 1⟩

/-- Sequence number, position and predictor after an input; `client/prediction.cpp:15–27`. -/
def recordAndStep (mx my : Int8) (dt : Double F) (localPos : Vec2 F) (p : Predictor F) :
    UInt32 × Vec2 F × Predictor F :=
  (p.nextSeq, applyMove localPos mx my dt,
    ⟨p.ring.push ⟨p.nextSeq, mx, my, dt⟩, p.nextSeq + 1⟩)

/-- Newest recorded input with a sequence number; `client/prediction.cpp:29–35`. -/
def findInputBySeq (seq : UInt32) (p : Predictor F) : Option (PredictedInput F) :=
  ((List.range p.ring.count).map p.ring.newest).find? fun pi ↦ pi.seq = seq

/-- Move of a replayed input, unless it is acknowledged; the loop body of
`client/prediction.cpp:43–49`. -/
def replay (ack : UInt32) (pos : Vec2 F) (pi : PredictedInput F) : Vec2 F :=
  if ack < pi.seq then applyMove pos pi.mx pi.my pi.dt else pos

/-- Snap to the authoritative position and replay, oldest input first;
`client/prediction.cpp:37–50`. -/
def reconcile (authoritative : PlayerState F) (p : Predictor F) : Vec2 F :=
  (List.range p.ring.count).foldl
    (fun pos i ↦ replay authoritative.lastProcessedInputSeq pos (p.ring.oldest i))
    authoritative.pos

/-- Reconciliation replays the elements of the ring. -/
theorem reconcile_eq (authoritative : PlayerState F) (p : Predictor F) :
    p.reconcile authoritative =
      p.ring.toList.foldl (replay authoritative.lastProcessedInputSeq) authoritative.pos := by
  rw [reconcile, Ring.toList, List.foldl_map]

end Predictor
end LightningLink.Cl
