import LightningLink.Baseline.Client
import LightningLink.Baseline.Exact
import LightningLink.Client.Rendering

/-!
# Departed players

Library `Baseline`. The baseline client draws everyone whom any snapshot has ever had, as the
optimized client does without interpolation: no player leaves its map. Departed players
disappear from the frames of the optimized client that are drawn with interpolation, and from
no others.
-/

namespace LightningLink.Baseline

open Support Cl FloatArith

namespace BaselineClient

variable {F : Type} [FloatArith F] {Q : PriorityQueue DelayedLine DelayedLine.deliverAtMs}

/-- The list `to_draw` of a frame; `client/tcp_baseline_client.cpp:301–306`. -/
def toDraw (order : UMap.Traversal UInt16 (PlayerState F)) (c : BaselineClient F Q) :
    List (RenderedPlayer F) :=
  (order.order c.latest).map fun e ↦ ⟨e.1, e.2.pos, e.1 = c.myPid, false⟩

/-- Every stored player is drawn. -/
theorem mem_toDraw (order : UMap.Traversal UInt16 (PlayerState F)) (c : BaselineClient F Q)
    (id : UInt16) : (∃ p ∈ c.toDraw order, p.id = id) ↔ id ∈ c.latest.keys := by
  rw [UMap.mem_keys, ← (order.enumerates c.latest).mem_keys]
  unfold toDraw
  simp only [List.mem_map]
  constructor
  · rintro ⟨_, ⟨e, he, rfl⟩, rfl⟩
    exact ⟨e, he, rfl⟩
  · rintro ⟨e, he, rfl⟩
    exact ⟨_, ⟨e, he, rfl⟩, rfl⟩

variable [FloatText F]

/-- Snapshot of a line that is handled at a time. -/
def sighting (nowMs : UInt64) (line : List Char) : Option Sighting :=
  (parseSnapshot line).map fun snap ↦ ⟨nowMs, (snap.2 : List (PlayerState F)).map PlayerState.id⟩

/-- Snapshots that an event processes. -/
def sights (c : BaselineClient F Q) : ClientEvent F → Multiset Sighting
  | .releaseIn clock nowMs _ =>
    ((c.cond.releaseIn clock).2.zipIdx.filterMap fun l ↦
      sighting (F := F) (nowMs l.2) l.1.data : List Sighting)
  | _ => 0

/-- Snapshots processed in a run. -/
def seen (c : BaselineClient F Q) (evs : List (ClientEvent F)) : Multiset Sighting :=
  observed step sights c evs

/-- A line stores the players of its snapshot. -/
theorem stored_handleLine {seen : Multiset Sighting} {c : BaselineClient F Q}
    (h : Stored seen c.latest) (line : List Char) (nowMs : UInt64)
    (order : UMap.Traversal UInt32 BaselinePendingInput) :
    Stored (seen + ((sighting (F := F) nowMs line).toList : List Sighting))
      (c.handleLine line nowMs order).latest := by
  cases hparse : (parseSnapshot line : Option (UInt32 × List (PlayerState F))) with
  | none =>
    unfold handleLine sighting
    rw [hparse]
    dsimp only
    rw [ite_self, Option.map_none, Option.toList_none, Multiset.coe_nil, add_zero]
    exact h
  | some snap =>
    rw [(handleLine_stores hparse nowMs order c).2, sighting, hparse]
    exact h.snapshot nowMs snap.2

/-- So do several. -/
theorem stored_foldl {seen : Multiset Sighting} (nowMs : Nat → UInt64)
    (order : Nat → UMap.Traversal UInt32 BaselinePendingInput) (ls : List (DelayedLine × Nat))
    (c : BaselineClient F Q) (h : Stored seen c.latest) :
    Stored (seen + (ls.filterMap fun l ↦ sighting (F := F) (nowMs l.2) l.1.data : List Sighting))
      (ls.foldl (fun c l ↦ c.handleLine l.1.data (nowMs l.2) (order l.2)) c).latest := by
  induction ls generalizing c seen with
  | nil =>
    rw [List.filterMap_nil, Multiset.coe_nil, add_zero]
    exact h
  | cons l ls ih =>
    have hsplit : ((l :: ls).filterMap fun l ↦ sighting (F := F) (nowMs l.2) l.1.data) =
        (sighting (F := F) (nowMs l.2) l.1.data).toList ++
          ls.filterMap fun l ↦ sighting (F := F) (nowMs l.2) l.1.data := by
      rw [List.filterMap_cons]
      cases sighting (F := F) (nowMs l.2) l.1.data <;> rfl
    rw [hsplit, ← Multiset.coe_add, ← add_assoc]
    exact ih _ (stored_handleLine h l.1.data (nowMs l.2) (order l.2))

/-- An event stores the players of the snapshots that it processes. -/
theorem stored_step {seen : Multiset Sighting} {c : BaselineClient F Q}
    (h : Stored seen c.latest) (ev : ClientEvent F) :
    Stored (seen + c.sights ev) (c.step ev).latest := by
  cases ev with
  | releaseIn clock nowMs order => exact stored_foldl nowMs order _ _ h
  | handshake received =>
    obtain ⟨pid, w, height, hframe⟩ := c.handshake_frame received
    change Stored (seen + 0) (c.handshake received).latest
    rw [hframe, add_zero]
    exact h
  | _ => exact (add_zero seen).symm ▸ h

/-- The stored players follow the snapshots of a run. -/
theorem stored_run (latency : Int) (lossProb : Double F) (evs : List (ClientEvent F)) :
    let start : BaselineClient F Q := .init latency lossProb
    Stored (start.seen evs) (start.run evs).latest :=
  observed_invariant (P := fun seen (c : BaselineClient F Q) ↦ Stored seen c.latest) stored_empty
    (fun _ _ ev h ↦ stored_step h ev) evs

omit [FloatText F] in
/-- The baseline client draws only present players exactly where nobody has departed. -/
theorem onlyPresent_toDraw_iff {seen : Multiset Sighting} {c : BaselineClient F Q}
    (h : Stored seen c.latest) (nowMs : UInt64)
    (order : UMap.Traversal UInt16 (PlayerState F)) :
    OnlyPresent seen c.myPid nowMs (c.toDraw order) ↔ NobodyDeparted seen c.myPid nowMs := by
  apply onlyPresent_iff
  intro id _
  rw [c.mem_toDraw order, h id]

end BaselineClient

/-! ### Both clients -/

variable {F : Type} [FloatArith F] [FloatText F]
  {Q : PriorityQueue DelayedLine DelayedLine.deliverAtMs}

/-- In every frame after every run, remote players are drawn only if a snapshot of the last
`ENTITY_STALE_SEC` has them, exactly where interpolation is on or nobody has departed. The
baseline client has no interpolation. The time of a frame is at least `ENTITY_STALE_SEC`, or not
before any receipt time. -/
theorem onlyPresent_drawn_iff (pid : UInt16) (noPrediction noInterpolation : Bool)
    (evs : List (ScreenEvent F)) (latency : Int) (lossProb : Double F)
    (baselineEvs : List (ClientEvent F)) (nowMs : UInt64)
    (order : UMap.Traversal UInt16 (PlayerState F)) :
    let start : Screen F := .init pid noPrediction noInterpolation
    let s := start.run evs
    let baseline : BaselineClient F Q := .init latency lossProb
    let c := baseline.run baselineEvs
    ((entityStaleMs ≤ nowMs ∨ ∀ x ∈ start.seen evs, x.recvMs ≤ nowMs) →
      (OnlyPresent (start.seen evs) s.client.myPid nowMs (s.toDraw nowMs order) ↔
        s.interpolationEnabled = true ∨
          NobodyDeparted (start.seen evs) s.client.myPid nowMs)) ∧
    (s.interpolationEnabled = false →
      (OnlyPresent (start.seen evs) s.client.myPid nowMs (s.toDraw nowMs order) ↔
        NobodyDeparted (start.seen evs) s.client.myPid nowMs)) ∧
    (OnlyPresent (baseline.seen baselineEvs) c.myPid nowMs (c.toDraw order) ↔
      NobodyDeparted (baseline.seen baselineEvs) c.myPid nowMs) := by
  intro start s baseline c
  have htracks := Screen.tracks_run pid noPrediction noInterpolation evs
  have hraw := fun hoff ↦ Screen.onlyPresent_iff_of_raw htracks hoff nowMs order
  refine ⟨fun hclock ↦ ?_, hraw, ?_⟩
  · cases hon : s.interpolationEnabled with
    | true =>
      exact iff_of_true (Screen.onlyPresent_of_interpolation htracks hon hclock order) (Or.inl rfl)
    | false => simpa using hraw hon
  · exact BaselineClient.onlyPresent_toDraw_iff
      (BaselineClient.stored_run latency lossProb baselineEvs) nowMs order

/-- Player 2 leaves the optimized client's game and player 1 the baseline client's. Both are
drawn 2200 ms after the last snapshot with them. -/
theorem departed_drawn :
    let _ := ratArith
    let _ := ratText
    let middle : Vec2 Rat := ⟨640, 360⟩
    let start : Screen Rat := .init 1 false true
    let evs : List (ScreenEvent Rat) := [
      .client (.snapshot ⟨⟨3, [⟨1, middle, ⟨0, 0⟩, 0⟩, ⟨2, middle, ⟨0, 0⟩, 0⟩]⟩, 1000⟩ 1000 bySeq),
      .client (.snapshot ⟨⟨66, [⟨1, middle, ⟨0, 0⟩, 0⟩]⟩, 2050⟩ 2050 bySeq),
      .client (.snapshot ⟨⟨129, [⟨1, middle, ⟨0, 0⟩, 0⟩]⟩, 3100⟩ 3100 bySeq)]
    let baseline : BaselineClient Rat (.newestFirst DelayedLine.deliverAtMs) := .init 0 (0 : Rat)
    let baselineEvs : List (ClientEvent Rat) := [.handshake ['J', 'A', ' ', '2', '\n'],
      .drain (middleLine 0 ++ ['\n']) (fun _ ↦ (1 : Rat)) (fun _ ↦ 1000),
      .releaseIn (fun _ ↦ 1000) (fun _ ↦ 1000) (fun _ ↦ bySeq),
      .drain ['S', 'S', ' ', '9', ' ', '0', '\n'] (fun _ ↦ (1 : Rat)) (fun _ ↦ 3100),
      .releaseIn (fun _ ↦ 3100) (fun _ ↦ 3100) (fun _ ↦ bySeq)]
    let s := start.run evs
    let c := baseline.run baselineEvs
    ¬OnlyPresent (start.seen evs) s.client.myPid 3200 (s.toDraw 3200 byId) ∧
      ¬OnlyPresent (baseline.seen baselineEvs) c.myPid 3200 (c.toDraw byId) := by
  let _ := ratArith
  let _ := ratText
  intro _ _ middle start evs baseline baselineEvs s c
  have htracks := Screen.tracks_run (F := Rat) 1 false true evs
  have hstored := BaselineClient.stored_run (F := Rat) (Q := .newestFirst DelayedLine.deliverAtMs)
    0 (0 : Rat) baselineEvs
  rw [Screen.onlyPresent_iff_of_raw htracks (by decide +kernel) 3200 byId,
    BaselineClient.onlyPresent_toDraw_iff hstored 3200 byId]
  exact ⟨by decide +kernel, by decide +kernel⟩

end LightningLink.Baseline
