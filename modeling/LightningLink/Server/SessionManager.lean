import LightningLink.Common.Types
import LightningLink.Support.UnorderedMap

/-!
# Endpoint-bound sessions

Library `Server`. Models `server/session_manager.hpp` and `server/session_manager.cpp`: the
session table, the table of used ids and the operations on both. `WF` is the relation the
two tables have to each other; every operation keeps it. Clock readings are nanoseconds.
-/

namespace LightningLink.Srv

open Support

/-- `server/session_manager.hpp:13–17`. -/
structure Session where
  playerId : UInt16
  endpoint : Endpoint
  lastInputTime : Int
  deriving DecidableEq, Repr

/-- Sessions by endpoint, and the endpoint of every used id. -/
structure SessionManager where
  sessions : UMap Endpoint Session
  idToEndpoint : UMap UInt16 Endpoint

/-- The test of `reap_timeouts`; `server/session_manager.cpp:59`. -/
def Session.expired (now : Int) (s : Session) : Bool := clientTimeout < now - s.lastInputTime

namespace SessionManager

/-- Session table of a server that has just started. -/
def init : SessionManager := ⟨UMap.empty, UMap.empty⟩

/-- First id of `1..MAX_PLAYERS` that is not in use, else 0;
`server/session_manager.cpp:7–12`. -/
def nextFreeId (m : SessionManager) : UInt16 :=
  (((List.range maxPlayers).map fun i ↦ UInt16.ofNat (i + 1)).find? fun id ↦
    (m.idToEndpoint.find? id).isNone).getD 0

/-- `server/session_manager.cpp:14–30`. -/
def registerOrGet (now : Int) (ep : Endpoint) (m : SessionManager) :
    Option UInt16 × SessionManager :=
  match m.sessions.find? ep with
  | some s =>
    (some s.playerId, { m with sessions := m.sessions.assign ep { s with lastInputTime := now } })
  | none =>
    let id := m.nextFreeId
    if id = 0 then (none, m)
    else (some id, ⟨m.sessions.emplace ep ⟨id, ep, now⟩, m.idToEndpoint.assign id ep⟩)

/-- `server/session_manager.cpp:32–35`. -/
def byEndpoint (m : SessionManager) (ep : Endpoint) : Option Session := m.sessions.find? ep

/-- `server/session_manager.cpp:37–41`. -/
def byPlayerId (m : SessionManager) (id : UInt16) : Option Session :=
  (m.idToEndpoint.find? id).bind m.byEndpoint

/-- `server/session_manager.hpp:41`. -/
def size (m : SessionManager) : Nat := m.sessions.size

/-- `server/session_manager.cpp:43–46`. -/
def verifyInput (m : SessionManager) (ep : Endpoint) (claimedId : UInt16) : Bool :=
  match m.byEndpoint ep with
  | none => false
  | some s => s.playerId = claimedId

/-- `server/session_manager.cpp:48–52`. -/
def touch (now : Int) (ep : Endpoint) (m : SessionManager) : SessionManager :=
  { m with sessions := m.sessions.modify ep fun s ↦ { s with lastInputTime := now } }

/-- One iteration of `server/session_manager.cpp:62–70`. -/
def reapEntry (now : Int) (acc : List UInt16 × SessionManager) (e : Endpoint × Session) :
    List UInt16 × SessionManager :=
  if e.2.expired now then
    (acc.1 ++ [e.2.playerId],
      ⟨acc.2.sessions.erase e.1, acc.2.idToEndpoint.erase e.2.playerId⟩)
  else acc

/-- `server/session_manager.cpp:54–72`. Erasing keeps the order of the other entries, so the
loop visits the entries in the order they have at its start. -/
def reapTimeouts (now : Int) (order : UMap.Traversal Endpoint Session) (m : SessionManager) :
    List UInt16 × SessionManager :=
  (order.order m.sessions).foldl (reapEntry now) ([], m)

/-- `server/session_manager.cpp:74–80`. -/
def removeByEndpoint (ep : Endpoint) (m : SessionManager) : Bool × SessionManager :=
  match m.sessions.find? ep with
  | none => (false, m)
  | some s => (true, ⟨m.sessions.erase ep, m.idToEndpoint.erase s.playerId⟩)

/-- Endpoints in traversal order; `server/session_manager.cpp:82–87`. -/
def allEndpoints (m : SessionManager) (order : UMap.Traversal Endpoint Session) : List Endpoint :=
  (order.order m.sessions).map Prod.fst

/-! ### Free ids -/

/-- The searched ids do not wrap. -/
theorem toNat_searched {i : Nat} (h : i < maxPlayers) :
    (UInt16.ofNat (i + 1)).toNat = i + 1 := by
  have hlt : i < 8 := h
  exact UInt16.toNat_ofNat_of_lt' (by change i + 1 < 65536; omega)

/-- Every positive id is searched at its place. -/
theorem searched_eq {id : UInt16} (hpos : 1 ≤ id.toNat) :
    UInt16.ofNat (id.toNat - 1 + 1) = id := by
  rw [Nat.sub_add_cancel hpos, UInt16.ofNat_toNat]

/-- The search ends at the first unused id, or at 0 where all are in use. -/
private theorem nextFreeId_cases (m : SessionManager) :
    (m.nextFreeId = 0 ∧
      ∀ i, i < maxPlayers → (m.idToEndpoint.find? (UInt16.ofNat (i + 1))).isSome) ∨
    ∃ i, i < maxPlayers ∧ m.nextFreeId = UInt16.ofNat (i + 1) ∧
      m.idToEndpoint.find? m.nextFreeId = none ∧
      ∀ j, j < i → (m.idToEndpoint.find? (UInt16.ofNat (j + 1))).isSome := by
  rw [nextFreeId, List.find?_map]
  cases hf : (List.range maxPlayers).find?
      ((fun id ↦ (m.idToEndpoint.find? id).isNone) ∘ fun i ↦ UInt16.ofNat (i + 1)) with
  | none =>
    refine Or.inl ⟨rfl, fun i hi ↦ ?_⟩
    simpa [Option.isSome_iff_ne_none] using List.find?_range_eq_none.mp hf i hi
  | some i =>
    obtain ⟨hfree, hi, hused⟩ := List.find?_range_eq_some.mp hf
    refine Or.inr ⟨i, List.mem_range.mp hi, rfl, by simpa using hfree, fun j hj ↦ ?_⟩
    simpa [Option.isSome_iff_ne_none] using hused j hj

/-- The next free id is unused and in range, or it is 0. -/
theorem nextFreeId_spec (m : SessionManager) (h : m.nextFreeId ≠ 0) :
    (1 ≤ m.nextFreeId.toNat ∧ m.nextFreeId.toNat ≤ maxPlayers) ∧
      m.idToEndpoint.find? m.nextFreeId = none := by
  rcases m.nextFreeId_cases with ⟨hz, _⟩ | ⟨i, hi, hid, hfree, _⟩
  · exact absurd hz h
  · refine ⟨?_, hfree⟩
    rw [hid, toNat_searched hi]
    omega

/-- Where no id is free, every id in range is in use. -/
theorem isSome_of_nextFreeId_eq_zero (m : SessionManager) (h : m.nextFreeId = 0) (id : UInt16)
    (hpos : 1 ≤ id.toNat) (hle : id.toNat ≤ maxPlayers) : (m.idToEndpoint.find? id).isSome := by
  rcases m.nextFreeId_cases with ⟨_, hused⟩ | ⟨i, hi, hid, _⟩
  · rw [← searched_eq hpos]
    exact hused _ (by omega)
  · have hn := toNat_searched hi
    rw [← hid, h] at hn
    simp at hn

/-- Every smaller id than the next free one is in use. -/
theorem isSome_of_lt_nextFreeId (m : SessionManager) (id : UInt16) (hpos : 1 ≤ id.toNat)
    (hlt : id < m.nextFreeId) : (m.idToEndpoint.find? id).isSome := by
  rcases m.nextFreeId_cases with ⟨hz, _⟩ | ⟨i, hi, hid, _, hused⟩
  · rw [hz] at hlt
    exact absurd hlt (by simp)
  · rw [← searched_eq hpos]
    have hn : id.toNat < i + 1 := by
      rw [← toNat_searched hi, ← hid]
      exact UInt16.lt_iff_toNat_lt.mp hlt
    exact hused _ (by omega)

/-! ### Lookups after each operation -/

/-- A registration changes at most the session of its endpoint. -/
theorem sessions_registerOrGet (now : Int) (ep a : Endpoint) (m : SessionManager) (h : a ≠ ep) :
    (m.registerOrGet now ep).2.sessions.find? a = m.sessions.find? a := by
  unfold registerOrGet
  cases hs : m.sessions.find? ep with
  | some s => exact (UMap.find?_assign _ _ _ _).trans (if_neg h)
  | none =>
    dsimp only
    split
    · rfl
    · exact (UMap.find?_emplace _ _ _ _ hs).trans (if_neg h)

/-- Refreshing a session changes its clock reading only. -/
theorem sessions_touch (now : Int) (ep a : Endpoint) (m : SessionManager) :
    (m.touch now ep).sessions.find? a =
      if a = ep then (m.sessions.find? a).map fun s ↦ { s with lastInputTime := now }
      else m.sessions.find? a :=
  UMap.find?_modify _ _ _ _

/-- Removing an endpoint leaves the sessions of the others. -/
theorem sessions_removeByEndpoint (ep a : Endpoint) (m : SessionManager) :
    (m.removeByEndpoint ep).2.sessions.find? a =
      if a = ep then none else m.sessions.find? a := by
  unfold removeByEndpoint
  split
  · next h =>
    split
    · next ha => rw [ha, h]
    · rfl
  · exact UMap.find?_erase _ _ _

private theorem foldl_reapEntry (now : Int) (xs : List (Endpoint × Session))
    (acc : List UInt16 × SessionManager) :
    xs.foldl (reapEntry now) acc =
      let dead := xs.filter fun e ↦ e.2.expired now
      (acc.1 ++ dead.map fun e ↦ e.2.playerId,
        ⟨(dead.map Prod.fst).foldl UMap.erase acc.2.sessions,
          (dead.map fun e ↦ e.2.playerId).foldl UMap.erase acc.2.idToEndpoint⟩) := by
  induction xs generalizing acc with
  | nil => simp
  | cons e xs ih =>
    rw [List.foldl_cons, ih, reapEntry]
    by_cases hx : e.2.expired now = true <;> simp [hx]

/-- Reaping returns the ids of the expired sessions in visiting order. -/
theorem reapTimeouts_fst (now : Int) (order : UMap.Traversal Endpoint Session)
    (m : SessionManager) : (m.reapTimeouts now order).1 =
      ((order.order m.sessions).filter fun e ↦ e.2.expired now).map fun e ↦ e.2.playerId := by
  rw [reapTimeouts, foldl_reapEntry]
  rfl

/-- Reaping returns exactly the ids of the expired sessions. -/
theorem mem_reapTimeouts (now : Int) (order : UMap.Traversal Endpoint Session)
    (m : SessionManager) (id : UInt16) :
    id ∈ (m.reapTimeouts now order).1 ↔
      ∃ ep s, m.sessions.find? ep = some s ∧ s.expired now = true ∧ s.playerId = id := by
  rw [reapTimeouts, foldl_reapEntry]
  simp [(order.enumerates m.sessions).2, and_assoc]

/-- Reaping removes exactly the expired sessions. -/
theorem sessions_reapTimeouts (now : Int) (order : UMap.Traversal Endpoint Session)
    (m : SessionManager) (a : Endpoint) :
    (m.reapTimeouts now order).2.sessions.find? a =
      (m.sessions.find? a).filter fun s ↦ !s.expired now := by
  rw [reapTimeouts, foldl_reapEntry]
  dsimp only
  rw [UMap.find?_foldl_erase]
  simp only [List.mem_map, List.mem_filter, Prod.exists, exists_and_right, exists_eq_right,
    (order.enumerates m.sessions).2]
  cases h : m.sessions.find? a with
  | none => simp
  | some s => by_cases hx : s.expired now = true <;> simp [hx, Option.filter]

/-- Reaping frees exactly the ids it returns. -/
theorem idToEndpoint_reapTimeouts (now : Int) (order : UMap.Traversal Endpoint Session)
    (m : SessionManager) (id : UInt16) :
    (m.reapTimeouts now order).2.idToEndpoint.find? id =
      if id ∈ (m.reapTimeouts now order).1 then none else m.idToEndpoint.find? id := by
  rw [reapTimeouts, foldl_reapEntry]
  exact UMap.find?_foldl_erase _ _ _

end SessionManager
end LightningLink.Srv
