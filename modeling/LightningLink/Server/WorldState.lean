import LightningLink.Common.Types
import LightningLink.Support.UnorderedMap

/-!
# Authoritative world

Library `Server`. Models `server/world_state.hpp` and `server/world_state.cpp`: the player
records with their pending direction, the stale-input filter and the simulation tick. The
lemmas say which record each operation changes and how.
-/

namespace LightningLink.Srv

open Support FloatOps FloatArith

/-- Authoritative record of a player; `server/world_state.hpp:13–20`. -/
structure ServerPlayer (F : Type) where
  state : PlayerState F
  pendingMx : Int8
  pendingMy : Int8
  hasPending : Bool
  latestSeenSeq : UInt32
  deriving DecidableEq

/-- Player records by id, and the tick counter. -/
structure WorldState (F : Type) where
  players : UMap UInt16 (ServerPlayer F)
  tick : UInt32

/-- Clamp of a direction component to `{-1, 0, 1}`, by `std::min` and then `std::max`;
`server/world_state.cpp:41–43`. -/
def clampDir (v : Int8) : Int8 :=
  let m := if v < 1 then v else 1
  if -1 < m then m else -1

namespace ServerPlayer

variable {F : Type}

/-- Record of a new player in the middle of the arena; `server/world_state.cpp:8–10`. -/
def spawn [FloatArith F] (id : UInt16) : ServerPlayer F :=
  ⟨⟨id, ⟨arenaWidth F * half F, arenaHeight F * half F⟩, Vec2.zero, 0⟩, 0, 0, false, 0⟩

/-- Record after an accepted input; `server/world_state.cpp:40–45`. -/
def accept (p : ServerPlayer F) (seq : UInt32) (mx my : Int8) : ServerPlayer F where
  state := { p.state with lastProcessedInputSeq := seq }
  pendingMx := clampDir mx
  pendingMy := clampDir my
  hasPending := true
  latestSeenSeq := seq

/-- Record after a simulation tick, the loop body of `server/world_state.cpp:51–54`. -/
def move [FloatArith F] (p : ServerPlayer F) : ServerPlayer F :=
  let dt : F := ofDouble (dtSeconds F)
  let dir : Vec2 F := normalizeDir p.pendingMx p.pendingMy
  let vel := dir * playerSpeed F
  let pos := p.state.pos + vel * dt
  { p with state := { p.state with
      vel := vel
      pos := clampToArena pos (arenaWidth F) (arenaHeight F) } }

/-- Record after an input, accepted or not. -/
def input (p : ServerPlayer F) (seq : UInt32) (mx my : Int8) : ServerPlayer F :=
  if seq < p.latestSeenSeq then p else p.accept seq mx my

@[simp] theorem spawn_id [FloatArith F] (id : UInt16) : (spawn id : ServerPlayer F).state.id = id := rfl

@[simp] theorem accept_id (p : ServerPlayer F) (seq : UInt32) (mx my : Int8) :
    (p.accept seq mx my).state.id = p.state.id := rfl

@[simp] theorem move_id [FloatArith F] (p : ServerPlayer F) : p.move.state.id = p.state.id := rfl

@[simp] theorem input_id (p : ServerPlayer F) (seq : UInt32) (mx my : Int8) :
    (p.input seq mx my).state.id = p.state.id := by
  unfold input
  split <;> rfl

end ServerPlayer

namespace WorldState

variable {F : Type}

/-- World of a server that has just started. -/
def init : WorldState F := ⟨UMap.empty, 0⟩

/-- Lookup; `server/world_state.cpp:23–31`. -/
def get (w : WorldState F) (id : UInt16) : Option (ServerPlayer F) := w.players.find? id

/-- `server/world_state.cpp:6–13`. -/
def addPlayer [FloatArith F] (w : WorldState F) (id : UInt16) : Bool × WorldState F :=
  if (w.players.find? id).isSome then (false, w)
  else (true, { w with players := w.players.emplace id (ServerPlayer.spawn id) })

/-- `server/world_state.cpp:15–17`. -/
def removePlayer (w : WorldState F) (id : UInt16) : Bool × WorldState F :=
  ((w.players.find? id).isSome, { w with players := w.players.erase id })

/-- Reject a strictly older sequence number, else store the direction and acknowledge;
`server/world_state.cpp:33–47`. -/
def applyInput (w : WorldState F) (id : UInt16) (seq : UInt32) (mx my : Int8) :
    Bool × WorldState F :=
  match w.get id with
  | none => (false, w)
  | some p =>
    if seq < p.latestSeenSeq then (false, w)
    else (true, { w with players := w.players.assign id (p.accept seq mx my) })

/-- `server/world_state.cpp:49–57`. Entries are updated independently of each other. -/
def stepTick [FloatArith F] (w : WorldState F) : WorldState F :=
  ⟨w.players.map fun _ p ↦ p.move, w.tick + 1⟩

/-- States in traversal order; `server/world_state.cpp:59–66`. -/
def collectPlayerStates (w : WorldState F) (order : UMap.Traversal UInt16 (ServerPlayer F)) :
    List (PlayerState F) :=
  (order.order w.players).map fun e ↦ e.2.state

/-! ### Lookups after each operation -/

/-- Adding a player creates a spawned record unless the id has one. -/
theorem get_addPlayer [FloatArith F] (w : WorldState F) (id a : UInt16) :
    (w.addPlayer id).2.get a = if a = id ∧ w.get id = none then some (ServerPlayer.spawn id)
      else w.get a := by
  unfold addPlayer get
  cases h : w.players.find? id with
  | none => by_cases ha : a = id <;> simp [h, ha, UMap.find?_emplace]
  | some p => simp

/-- Adding a player that exists does nothing. -/
theorem addPlayer_of_some [FloatArith F] (w : WorldState F) (id : UInt16) (p : ServerPlayer F)
    (h : w.get id = some p) : w.addPlayer id = (false, w) :=
  if_pos (Option.isSome_iff_exists.mpr ⟨p, h⟩)

/-- Removing a player leaves the other records alone. -/
theorem get_removePlayer (w : WorldState F) (id a : UInt16) :
    (w.removePlayer id).2.get a = if a = id then none else w.get a :=
  UMap.find?_erase _ _ _

/-- An input changes at most the record of its player. -/
theorem get_applyInput (w : WorldState F) (id a : UInt16) (seq : UInt32) (mx my : Int8) :
    (w.applyInput id seq mx my).2.get a =
      if a = id then (w.get a).map fun p ↦ p.input seq mx my else w.get a := by
  unfold applyInput
  by_cases ha : a = id
  · subst ha
    rw [if_pos rfl]
    cases h : w.get a with
    | none => simp [h]
    | some p =>
      by_cases hs : seq < p.latestSeenSeq
      · simp [hs, h, ServerPlayer.input]
      · simp [hs, get, UMap.find?_assign, ServerPlayer.input]
  · rw [if_neg ha]
    cases h : w.get id with
    | none => rfl
    | some p =>
      by_cases hs : seq < p.latestSeenSeq
      · simp [hs]
      · simp [hs, get, UMap.find?_assign, ha]

/-- A tick moves every player. -/
@[simp] theorem get_stepTick [FloatArith F] (w : WorldState F) (id : UInt16) :
    w.stepTick.get id = (w.get id).map ServerPlayer.move :=
  UMap.find?_map _ _ _

/-- The result of `apply_input` says whether the record has taken the input. -/
theorem applyInput_fst (w : WorldState F) (id : UInt16) (seq : UInt32) (mx my : Int8) :
    (w.applyInput id seq mx my).1 = true ↔ ∃ p, w.get id = some p ∧ p.latestSeenSeq ≤ seq := by
  unfold applyInput
  cases h : w.get id with
  | none => simp
  | some p =>
    by_cases hs : seq < p.latestSeenSeq
    · simp [hs]
    · simpa [hs] using UInt32.not_lt.mp hs

/-- Only a tick changes the tick counter. -/
@[simp] theorem tick_applyInput (w : WorldState F) (id : UInt16) (seq : UInt32) (mx my : Int8) :
    (w.applyInput id seq mx my).2.tick = w.tick := by
  unfold applyInput
  split
  · rfl
  · split <;> rfl

@[simp] theorem tick_addPlayer [FloatArith F] (w : WorldState F) (id : UInt16) :
    (w.addPlayer id).2.tick = w.tick := by
  unfold addPlayer
  split <;> rfl

end WorldState
end LightningLink.Srv
