import LightningLink.Client.Client
import LightningLink.Client.Staleness
import LightningLink.Support.Machine

/-!
# Drawn players

Library `Client`. Models the list `to_draw` of `client/client.cpp` with the toggles that it
reads. With interpolation on, a remote player is drawn only while a snapshot with it is recent.
With interpolation off everyone is drawn that any snapshot has ever had, since no player leaves
`latest_authoritative`.
-/

namespace LightningLink.Cl

open Support FloatArith

/-- `client/renderer.hpp:13–18`. -/
structure RenderedPlayer (F : Type) where
  id : UInt16
  pos : Vec2 F
  isLocal : Bool
  isGhost : Bool

/-! ### Sightings -/

/-- Players of a snapshot, with its receipt time. -/
structure Sighting where
  recvMs : UInt64
  ids : List UInt16

/-- Received within the last `ENTITY_STALE_SEC` before a time. -/
def Sighting.Recent (nowMs : UInt64) (s : Sighting) : Prop :=
  s.recvMs ≤ nowMs ∧ nowMs.toNat ≤ s.recvMs.toNat + entityStaleMs.toNat

instance (nowMs : UInt64) (s : Sighting) : Decidable (s.Recent nowMs) :=
  inferInstanceAs (Decidable (_ ∧ _))

/-- A player is in a recent snapshot. -/
def Present (seen : Multiset Sighting) (nowMs : UInt64) (id : UInt16) : Prop :=
  ∃ s ∈ seen, s.Recent nowMs ∧ id ∈ s.ids

instance (seen : Multiset Sighting) (nowMs : UInt64) (id : UInt16) :
    Decidable (Present seen nowMs id) :=
  Multiset.decidableExistsMultiset

/-- Every remote player of any snapshot is in a recent one. -/
def NobodyDeparted (seen : Multiset Sighting) (myPid : UInt16) (nowMs : UInt64) : Prop :=
  ∀ s ∈ seen, ∀ id ∈ s.ids, id ≠ myPid → Present seen nowMs id

instance (seen : Multiset Sighting) (myPid : UInt16) (nowMs : UInt64) :
    Decidable (NobodyDeparted seen myPid nowMs) :=
  @Multiset.decidableForallMultiset _ seen _ fun s ↦
    List.decidableBAll (fun id ↦ id ≠ myPid → Present seen nowMs id) s.ids

/-- Every remote player drawn is in a recent snapshot. -/
def OnlyPresent {F : Type} (seen : Multiset Sighting) (myPid : UInt16) (nowMs : UInt64)
    (drawn : List (RenderedPlayer F)) : Prop :=
  ∀ p ∈ drawn, p.id ≠ myPid → Present seen nowMs p.id

/-- Where only players of snapshots are drawn, nobody departed means that only present players
are drawn. -/
theorem NobodyDeparted.onlyPresent {F : Type} {seen : Multiset Sighting} {myPid : UInt16}
    {nowMs : UInt64} {drawn : List (RenderedPlayer F)}
    (hdrawn : ∀ p ∈ drawn, p.id ≠ myPid → ∃ s ∈ seen, p.id ∈ s.ids)
    (h : NobodyDeparted seen myPid nowMs) : OnlyPresent seen myPid nowMs drawn := by
  intro p hp hne
  obtain ⟨s, hs, hid⟩ := hdrawn p hp hne
  exact h s hs p.id hid hne

/-- Where all of them are drawn, this is necessary. -/
theorem onlyPresent_iff {F : Type} {seen : Multiset Sighting} {myPid : UInt16} {nowMs : UInt64}
    {drawn : List (RenderedPlayer F)}
    (hdrawn : ∀ id, id ≠ myPid → ((∃ p ∈ drawn, p.id = id) ↔ ∃ s ∈ seen, id ∈ s.ids)) :
    OnlyPresent seen myPid nowMs drawn ↔ NobodyDeparted seen myPid nowMs := by
  constructor
  · intro h s hs id hid hne
    obtain ⟨p, hp, rfl⟩ := (hdrawn id hne).mpr ⟨s, hs, hid⟩
    exact h p hp hne
  · intro h
    exact h.onlyPresent fun p hp hne ↦ (hdrawn p.id hne).mp ⟨p, hp, rfl⟩

/-! ### The screen -/

/-- Client with the toggles that drawing reads; `client/hud.hpp:11–21`. -/
structure Screen (F : Type) [FloatArith F] where
  client : Client F
  showGhost : Bool
  interpolationEnabled : Bool

/-- A part of a loop iteration. -/
inductive ScreenEvent (F : Type) [FloatArith F]
  /-- The F2 key. -/
  | toggleGhost
  /-- The F4 key. -/
  | toggleInterpolation
  | client (ev : Event F)

/-- Snapshot that an event processes. -/
def ScreenEvent.sights {F : Type} [FloatArith F] : ScreenEvent F → Multiset Sighting
  | .client (.snapshot ss _ _) => {⟨ss.recvWallMs, ss.snap.players.map PlayerState.id⟩}
  | _ => 0

namespace Screen

variable {F : Type} [FloatArith F]

/-- Client that has just taken its id; `client/client.cpp:147–151`. -/
def init (myPid : UInt16) (disablePrediction disableInterpolation : Bool) : Screen F where
  client := .init myPid disablePrediction disableInterpolation
  showGhost := false
  interpolationEnabled := !disableInterpolation

/-- State after one event. -/
def step (s : Screen F) : ScreenEvent F → Screen F
  | .toggleGhost => { s with showGhost := !s.showGhost }
  | .toggleInterpolation => { s with interpolationEnabled := !s.interpolationEnabled }
  | .client ev => { s with client := s.client.step ev }

/-- State after a finite run. -/
def run (s : Screen F) (evs : List (ScreenEvent F)) : Screen F := evs.foldl step s

/-- Snapshots processed in a run. -/
def seen (s : Screen F) (evs : List (ScreenEvent F)) : Multiset Sighting :=
  observed step (fun _ ev ↦ ev.sights) s evs

/-- Remote player, if it is drawn; `client/client.cpp:319–332`. -/
def drawRemote (nowMs : UInt64) (s : Screen F) (e : UInt16 × PlayerState F) :
    Option (RenderedPlayer F) :=
  if e.1 = s.client.myPid then none
  else
    let pos :=
      if s.interpolationEnabled then s.client.interp.renderPosition e.1 nowMs else some e.2.pos
    pos.map fun pos ↦ ⟨e.1, pos, false, false⟩

/-- The list `to_draw` of a frame; `client/client.cpp:307–343`. -/
def toDraw (nowMs : UInt64) (order : UMap.Traversal UInt16 (PlayerState F)) (s : Screen F) :
    List (RenderedPlayer F) :=
  let c := s.client
  let ghost := if s.showGhost then c.latestAuthoritative.find? c.myPid else none
  ⟨c.myPid, c.localPos, true, false⟩ ::
    ((order.order c.latestAuthoritative).filterMap (s.drawRemote nowMs) ++
      ghost.toList.map fun ps ↦ ⟨c.myPid, ps.pos, false, true⟩)

/-- A record is drawn if it is of a remote player and, with interpolation on, has a position. -/
theorem drawRemote_iff (nowMs : UInt64) (s : Screen F) (e : UInt16 × PlayerState F) (id : UInt16) :
    (∃ p, s.drawRemote nowMs e = some p ∧ p.id = id) ↔ e.1 = id ∧ id ≠ s.client.myPid ∧
      (s.interpolationEnabled = true → s.client.interp.renderPosition id nowMs ≠ none) := by
  unfold drawRemote
  by_cases hid : e.1 = s.client.myPid
  · rw [if_pos hid]
    simp only [reduceCtorEq, false_and, exists_false, false_iff]
    rintro ⟨rfl, hne, _⟩
    exact hne hid
  · rw [if_neg hid]
    cases hi : s.interpolationEnabled with
    | false =>
      simp only [Bool.false_eq_true, if_false, Option.map_some, Option.some.injEq,
        exists_eq_left', false_imp_iff, and_true]
      exact ⟨fun h ↦ ⟨h, h ▸ hid⟩, And.left⟩
    | true =>
      simp only [if_true, Option.map_eq_some_iff, true_imp_iff]
      constructor
      · rintro ⟨_, ⟨pos, hpos, rfl⟩, rfl⟩
        exact ⟨rfl, hid, by rw [hpos]; exact Option.some_ne_none pos⟩
      · rintro ⟨rfl, _, hpos⟩
        obtain ⟨pos, hpos⟩ := Option.ne_none_iff_exists'.mp hpos
        exact ⟨_, ⟨pos, hpos, rfl⟩, rfl⟩

/-- A remote player is drawn if it is stored and, with interpolation on, has a position. -/
theorem mem_toDraw (nowMs : UInt64) (order : UMap.Traversal UInt16 (PlayerState F))
    (s : Screen F) (id : UInt16) (hid : id ≠ s.client.myPid) :
    (∃ p ∈ s.toDraw nowMs order, p.id = id) ↔ id ∈ s.client.latestAuthoritative.keys ∧
      (s.interpolationEnabled = true → s.client.interp.renderPosition id nowMs ≠ none) := by
  have horder := order.enumerates s.client.latestAuthoritative
  rw [UMap.mem_keys, ← horder.mem_keys]
  unfold toDraw
  dsimp only
  constructor
  · rintro ⟨p, hp, rfl⟩
    rcases List.mem_cons.mp hp with rfl | hp
    · exact absurd rfl hid
    · rcases List.mem_append.mp hp with hp | hp
      · obtain ⟨e, he, hdraw⟩ := List.mem_filterMap.mp hp
        obtain ⟨heq, _, hpos⟩ := (drawRemote_iff nowMs s e p.id).mp ⟨p, hdraw, rfl⟩
        exact ⟨heq ▸ List.mem_map_of_mem he, hpos⟩
      · obtain ⟨ps, _, rfl⟩ := List.mem_map.mp hp
        exact absurd rfl hid
  · rintro ⟨hstored, hpos⟩
    obtain ⟨e, he, rfl⟩ := List.mem_map.mp hstored
    obtain ⟨p, hdraw, hpid⟩ := (drawRemote_iff nowMs s e e.1).mpr ⟨rfl, hid, hpos⟩
    exact ⟨p, List.mem_cons_of_mem _ (List.mem_append_left _ (List.mem_filterMap.mpr ⟨e, he, hdraw⟩)),
      hpid⟩

end Screen

/-! ### What is stored -/

section

variable {F : Type}

/-- The records are of the players of the snapshots seen. -/
def Stored (seen : Multiset Sighting) (latest : UMap UInt16 (PlayerState F)) : Prop :=
  ∀ id, id ∈ latest.keys ↔ ∃ s ∈ seen, id ∈ s.ids

/-- Without snapshots. -/
theorem stored_empty : Stored 0 (UMap.empty : UMap UInt16 (PlayerState F)) := fun id ↦ by simp

/-- One more snapshot. -/
theorem Stored.snapshot {seen : Multiset Sighting} {latest : UMap UInt16 (PlayerState F)}
    (h : Stored seen latest) (recvMs : UInt64) (players : List (PlayerState F)) :
    Stored (seen + {⟨recvMs, players.map PlayerState.id⟩})
      (players.foldl (fun m ps ↦ m.assign ps.id ps) latest) := by
  intro id
  rw [UMap.mem_keys_foldl_assign PlayerState.id, h]
  simp only [Multiset.mem_add, Multiset.mem_singleton, or_and_right, exists_or, exists_eq_left]

/-- Each sample is of a snapshot seen that has its player and its stamp. -/
def Interpolator.Sampled (seen : Multiset Sighting) (i : Interpolator F) : Prop :=
  ∀ id dq, i.histories.find? id = some dq → ∀ x ∈ dq,
    ∃ s ∈ seen, s.recvMs = x.recvWallMs ∧ id ∈ s.ids

namespace Interpolator.Sampled

variable {seen : Multiset Sighting} {i : Interpolator F}

/-- More snapshots. -/
theorem mono (h : i.Sampled seen) (more : Multiset Sighting) : i.Sampled (seen + more) := by
  intro id dq hdq x hx
  obtain ⟨s, hs, hspec⟩ := h id dq hdq x hx
  exact ⟨s, Multiset.mem_add.mpr (Or.inl hs), hspec⟩

/-- A new sample of a player of a snapshot seen. -/
theorem ingest (h : i.Sampled seen) {s : Sighting} (hs : s ∈ seen) {id : UInt16} (hid : id ∈ s.ids)
    {x : InterpSample F} (hx : s.recvMs = x.recvWallMs) : (i.ingest id x).Sampled seen := by
  intro id' dq hdq y hy
  unfold Interpolator.ingest at hdq
  rw [UMap.find?_assign] at hdq
  split at hdq
  · next heq =>
    subst heq
    obtain rfl := Option.some.inj hdq
    rcases List.mem_append.mp (List.mem_of_mem_drop hy) with hy | hy
    · cases hold : i.histories.find? id' with
      | none =>
        rw [hold] at hy
        cases hy
      | some old =>
        rw [hold] at hy
        exact h id' old hold y hy
    · rw [List.mem_singleton.mp hy]
      exact ⟨s, hs, hx, hid⟩
  · exact h id' dq hdq y hy

/-- Pruning adds no sample. -/
theorem prune (h : i.Sampled seen) (nowMs : UInt64)
    (order : UMap.Traversal UInt16 (List (InterpSample F))) : (i.prune nowMs order).Sampled seen := by
  intro id dq hdq
  rw [i.find?_prune] at hdq
  exact h id dq (Option.filter_eq_some_iff.mp hdq).1

end Interpolator.Sampled
end

namespace Client

variable {F : Type} [FloatArith F]

omit [FloatArith F] in
/-- Samples of the players of a snapshot seen. -/
theorem sampled_ingestOthers {seen : Multiset Sighting} {recvWallMs : UInt64} {ids : List UInt16}
    (hs : ⟨recvWallMs, ids⟩ ∈ seen) (myPid : UInt16) (players : List (PlayerState F))
    (hids : ∀ ps ∈ players, ps.id ∈ ids) {i : Interpolator F} (h : i.Sampled seen) :
    (ingestOthers myPid recvWallMs players i).Sampled seen := by
  apply List.foldlRecOn (motive := fun i : Interpolator F ↦ i.Sampled seen)
  · exact h
  · intro i' h' ps hps
    split
    · exact h'.ingest hs (hids ps hps) rfl
    · exact h'

/-- The records are of the players of the snapshots seen, and the samples are of them. -/
structure Tracks (seen : Multiset Sighting) (c : Client F) : Prop where
  stored : Stored seen c.latestAuthoritative
  sampled : c.interp.Sampled seen

/-- A client without snapshots. -/
theorem tracks_init (myPid : UInt16) (disablePrediction disableInterpolation : Bool) :
    (init myPid disablePrediction disableInterpolation : Client F).Tracks 0 where
  stored := stored_empty
  sampled id dq h := by
    change (UMap.empty : UMap UInt16 (List (InterpSample F))).find? id = some dq at h
    rw [UMap.find?_empty] at h
    cases h

/-- A snapshot is tracked. -/
theorem Tracks.snapshot {seen : Multiset Sighting} {c : Client F} (h : c.Tracks seen)
    (ss : StampedSnapshot F) (nowMs : UInt64)
    (order : UMap.Traversal UInt32 (PendingInputSample F)) :
    (c.drainSnapshot ss nowMs order).Tracks
      (seen + {⟨ss.recvWallMs, ss.snap.players.map PlayerState.id⟩}) := by
  obtain ⟨_, _, hlatest, hinterp⟩ := drainSnapshot_stores ss nowMs order c
  constructor
  · rw [hlatest]
    exact h.stored.snapshot ss.recvWallMs ss.snap.players
  · rw [hinterp]
    exact sampled_ingestOthers (Multiset.mem_add.mpr (Or.inr (Multiset.mem_singleton_self _)))
      c.myPid ss.snap.players (fun ps hps ↦ List.mem_map_of_mem hps) (h.sampled.mono _)

/-- An input concerns neither. -/
theorem sendInput_stores (mx my : Int8) (dt : Double F) (nowMs : UInt64)
    (order : UMap.Traversal UInt32 (PendingInputSample F)) (c : Client F) :
    (c.sendInput mx my dt nowMs order).1.latestAuthoritative = c.latestAuthoritative ∧
      (c.sendInput mx my dt nowMs order).1.interp = c.interp := by
  unfold sendInput
  exact ⟨rfl, rfl⟩

end Client

namespace Screen

variable {F : Type} [FloatArith F]

/-- An event keeps track of the snapshot that it processes. -/
theorem tracks_step {seen : Multiset Sighting} {s : Screen F} (h : s.client.Tracks seen)
    (ev : ScreenEvent F) : (s.step ev).client.Tracks (seen + ev.sights) := by
  cases ev with
  | toggleGhost => exact (add_zero seen).symm ▸ h
  | toggleInterpolation => exact (add_zero seen).symm ▸ h
  | client ev =>
    cases ev with
    | snapshot ss nowMs order => exact h.snapshot ss nowMs order
    | togglePrediction => exact (add_zero seen).symm ▸ ⟨h.stored, h.sampled⟩
    | prune nowMs order =>
      exact (add_zero seen).symm ▸ ⟨h.stored, h.sampled.prune nowMs order⟩
    | input mx my dt nowMs order =>
      obtain ⟨hlatest, hinterp⟩ := Client.sendInput_stores mx my dt nowMs order s.client
      change (s.client.sendInput mx my dt nowMs order).1.Tracks (seen + 0)
      rw [add_zero]
      exact ⟨hlatest ▸ h.stored, hinterp ▸ h.sampled⟩

/-- Records and samples follow the snapshots of a run. -/
theorem tracks_run (myPid : UInt16) (noPrediction noInterpolation : Bool)
    (evs : List (ScreenEvent F)) :
    let start : Screen F := init myPid noPrediction noInterpolation
    (start.run evs).client.Tracks (start.seen evs) :=
  observed_invariant (P := fun seen (s : Screen F) ↦ s.client.Tracks seen)
    (Client.tracks_init myPid noPrediction noInterpolation) (fun _ _ ev h ↦ tracks_step h ev) evs

/-! ### Who is drawn -/

/-- A history with a position has a newest sample, which is neither outdated nor, but within the
delay of the beginning, from the future. -/
theorem newest_of_renderPosition {i : Interpolator F} {nowMs : UInt64} {id : UInt16}
    (hpos : i.renderPosition id nowMs ≠ none) :
    ∃ dq s, i.histories.find? id = some dq ∧ dq.getLast? = some s ∧
      (interpDelayMs ≤ nowMs → ¬Outdated nowMs s ∧ ¬FromFuture nowMs s) := by
  cases hdq : i.histories.find? id with
  | none =>
    rw [Interpolator.renderPosition, hdq] at hpos
    exact absurd rfl hpos
  | some dq =>
    cases hs : dq.getLast? with
    | none =>
      rw [Interpolator.renderPosition, hdq, List.getLast?_eq_none_iff.mp hs] at hpos
      exact absurd rfl hpos
    | some s =>
      rw [Ne, i.renderPosition_eq_none_iff nowMs id hdq hs, not_and, not_or] at hpos
      exact ⟨dq, s, rfl, hs, hpos⟩

/-- A player with a position has a recent sample, unless the clock has gone back. -/
theorem present_of_renderPosition {seen : Multiset Sighting} {i : Interpolator F}
    (h : i.Sampled seen) {nowMs : UInt64} (hclock : entityStaleMs ≤ nowMs ∨
      ∀ s ∈ seen, s.recvMs ≤ nowMs) {id : UInt16} (hpos : i.renderPosition id nowMs ≠ none) :
    Present seen nowMs id := by
  obtain ⟨dq, x, hdq, hx, hfresh⟩ := newest_of_renderPosition hpos
  obtain ⟨s, hs, hrecv, hid⟩ := h id dq hdq x (List.mem_of_getLast? hx)
  have hlimit : entityStaleMs.toNat = 2000 := rfl
  have hdelay : interpDelayMs.toNat = 100 := rfl
  have hlt := x.recvWallMs.toNat_lt
  rw [UInt64.le_iff_toNat_le, hdelay, Outdated, FromFuture] at hfresh
  refine ⟨s, hs, ⟨?_, ?_⟩, hid⟩
  · rw [hrecv, UInt64.le_iff_toNat_le]
    rcases hclock with hlate | hpast
    · rw [UInt64.le_iff_toNat_le, hlimit] at hlate
      omega
    · exact UInt64.le_iff_toNat_le.mp (hrecv ▸ hpast s hs)
  · rw [hrecv, hlimit]
    omega

/-- Interpolation draws present players only, unless the clock has gone back. -/
theorem onlyPresent_of_interpolation {seen : Multiset Sighting} {s : Screen F}
    (h : s.client.Tracks seen) (hon : s.interpolationEnabled = true) {nowMs : UInt64}
    (hclock : entityStaleMs ≤ nowMs ∨ ∀ s ∈ seen, s.recvMs ≤ nowMs)
    (order : UMap.Traversal UInt16 (PlayerState F)) :
    OnlyPresent seen s.client.myPid nowMs (s.toDraw nowMs order) := by
  intro p hp hne
  obtain ⟨_, hpos⟩ := (mem_toDraw nowMs order s p.id hne).mp ⟨p, hp, rfl⟩
  exact present_of_renderPosition h.sampled hclock (hpos hon)

/-- Without interpolation only present players are drawn exactly where nobody has departed. -/
theorem onlyPresent_iff_of_raw {seen : Multiset Sighting} {s : Screen F}
    (h : s.client.Tracks seen) (hoff : s.interpolationEnabled = false) (nowMs : UInt64)
    (order : UMap.Traversal UInt16 (PlayerState F)) :
    OnlyPresent seen s.client.myPid nowMs (s.toDraw nowMs order) ↔
      NobodyDeparted seen s.client.myPid nowMs := by
  apply onlyPresent_iff
  intro id hne
  rw [mem_toDraw nowMs order s id hne, ← h.stored id, hoff]
  simp

end Screen
end LightningLink.Cl
