import LightningLink.Common.Types
import LightningLink.Support.Bracket
import LightningLink.Support.UnorderedMap

/-!
# Interpolation histories

Library `Client`. Models the sample histories of `client/interpolation.hpp` and
`client/interpolation.cpp`: ingesting a sample, dropping stale entities, and the position
of an entity a fixed delay in the past.
-/

namespace LightningLink.Cl

open Support FloatOps FloatArith

/-- `SNAPSHOT_HISTORY_SIZE`. -/
def snapshotHistorySize : Nat := 32

/-- `ENTITY_STALE_SEC = 2.0` in milliseconds; `client/interpolation.cpp:53`. -/
def entityStaleMs : UInt64 := 2000

/-- `INTERP_DELAY_SEC = 0.100` in milliseconds; `client/interpolation.cpp:18`. -/
def interpDelayMs : UInt64 := 100

/-- `client/interpolation.hpp:15–19`. -/
structure InterpSample (F : Type) where
  pos : Vec2 F
  vel : Vec2 F
  recvWallMs : UInt64

/-- Histories of the remote entities, oldest sample first. -/
structure Interpolator (F : Type) where
  histories : UMap UInt16 (List (InterpSample F))

namespace InterpSample

variable {F : Type}

/-- The stamps of two samples bracket a time; `client/interpolation.cpp:32`. -/
def Brackets (target : UInt64) (a b : InterpSample F) : Prop :=
  a.recvWallMs ≤ target ∧ target ≤ b.recvWallMs

instance (target : UInt64) (a b : InterpSample F) : Decidable (Brackets target a b) :=
  inferInstanceAs (Decidable (_ ∧ _))

/-- Position between two samples at a time that they bracket;
`client/interpolation.cpp:33–41`. -/
def between [FloatArith F] (target : UInt64) (a b : InterpSample F) : Vec2 F :=
  if b.recvWallMs = a.recvWallMs then b.pos
  else
    let t : F := ofDouble
      (ofInt (target - a.recvWallMs).toNat / ofInt (b.recvWallMs - a.recvWallMs).toNat)
    lerp a.pos b.pos t

/-- Position in a history at a time: between the first two samples that bracket it, else at
the oldest or the newest sample; `client/interpolation.cpp:28–49`. -/
def positionAt [FloatArith F] (target : UInt64) (dq : List (InterpSample F))
    (front back : InterpSample F) : Vec2 F :=
  match firstPair (Brackets target) dq with
  | some (a, b) => between target a b
  | none => if target < front.recvWallMs then front.pos else back.pos

end InterpSample

namespace Interpolator

variable {F : Type}

/-- Interpolator of a client that has just started. -/
def init : Interpolator F := ⟨UMap.empty⟩

/-- `client/interpolation.cpp:6–10`. -/
def ingest (remoteId : UInt16) (s : InterpSample F) (i : Interpolator F) : Interpolator F :=
  let dq := (i.histories.find? remoteId).getD [] ++ [s]
  ⟨i.histories.assign remoteId (dq.drop (dq.length - snapshotHistorySize))⟩

/-- The test of `client/interpolation.cpp:55–56`, in wrapping 64-bit arithmetic. -/
def stale (nowMs : UInt64) (dq : List (InterpSample F)) : Bool :=
  match dq.getLast? with
  | none => true
  | some s => entityStaleMs < nowMs - s.recvWallMs

/-- `client/interpolation.cpp:52–62`. -/
def prune (nowMs : UInt64) (order : UMap.Traversal UInt16 (List (InterpSample F)))
    (i : Interpolator F) : Interpolator F :=
  ⟨(order.order i.histories).foldl
    (fun h e ↦ if stale nowMs e.2 then h.erase e.1 else h) i.histories⟩

/-- Position of an entity, `none` where it is not to be drawn; `client/interpolation.cpp:12–50`. -/
def renderPosition [FloatArith F] (remoteId : UInt16) (nowMs : UInt64) (i : Interpolator F) :
    Option (Vec2 F) :=
  match i.histories.find? remoteId with
  | none => none
  | some dq =>
    match dq.head?, dq.getLast? with
    | some front, some back =>
      if nowMs < interpDelayMs then some back.pos
      else
        let target := nowMs - interpDelayMs
        if entityStaleMs < nowMs - back.recvWallMs then none
        else some (InterpSample.positionAt target dq front back)
    | _, _ => none

/-- `client/interpolation.cpp:64–67`. -/
def bufferDepth (remoteId : UInt16) (i : Interpolator F) : Nat :=
  match i.histories.find? remoteId with
  | none => 0
  | some dq => dq.length

end Interpolator
end LightningLink.Cl
