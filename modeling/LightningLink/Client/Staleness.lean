import LightningLink.Client.Interpolation

/-!
# Stale entities

Library `Client`. An entity is stale where its newest sample is more than `ENTITY_STALE_SEC`
older than the time. Both tests of the code take the age in wrapping arithmetic: a newest
sample that is stamped later than the time is dropped and hidden as if it were stale.
-/

namespace LightningLink.Cl

open Support

variable {F : Type}

/-- The stamp of a sample is more than `ENTITY_STALE_SEC` before the time. -/
def Outdated (nowMs : UInt64) (s : InterpSample F) : Prop :=
  s.recvWallMs.toNat + 2000 < nowMs.toNat

/-- The stamp is later than the time, by less than a wrapping age can exceed. -/
def FromFuture (nowMs : UInt64) (s : InterpSample F) : Prop :=
  nowMs.toNat < s.recvWallMs.toNat ∧ s.recvWallMs.toNat + 2000 < nowMs.toNat + 2 ^ 64

/-- The wrapping age exceeds the limit for samples that are outdated or from the future. -/
theorem stale_lt_iff (nowMs : UInt64) (s : InterpSample F) :
    entityStaleMs < nowMs - s.recvWallMs ↔ Outdated nowMs s ∨ FromFuture nowMs s := by
  have h1 := s.recvWallMs.toNat_lt
  have h2 := nowMs.toNat_lt
  have hlimit : entityStaleMs.toNat = 2000 := rfl
  rw [UInt64.lt_iff_toNat_lt, UInt64.toNat_sub, hlimit, Outdated, FromFuture]
  by_cases hle : s.recvWallMs.toNat ≤ nowMs.toNat
  · have hmod : (2 ^ 64 - s.recvWallMs.toNat + nowMs.toNat) % 2 ^ 64 =
        nowMs.toNat - s.recvWallMs.toNat := by
      omega
    rw [hmod]
    omega
  · rw [Nat.mod_eq_of_lt (by omega)]
    omega

namespace Interpolator

/-- Pruning keeps the histories that are not stale. -/
theorem find?_prune (i : Interpolator F) (nowMs : UInt64)
    (order : UMap.Traversal UInt16 (List (InterpSample F))) (id : UInt16) :
    (i.prune nowMs order).histories.find? id =
      (i.histories.find? id).filter fun dq ↦ !stale nowMs dq := by
  refine ((order.enumerates i.histories).find?_foldl_eraseIf (stale nowMs · = true) id).trans ?_
  simp

/-- Pruning drops a history with a newest sample exactly where this is outdated or from the
future. -/
theorem prune_eq_none_iff (i : Interpolator F) (nowMs : UInt64)
    (order : UMap.Traversal UInt16 (List (InterpSample F))) (id : UInt16)
    {dq : List (InterpSample F)} {s : InterpSample F} (hdq : i.histories.find? id = some dq)
    (hs : dq.getLast? = some s) :
    (i.prune nowMs order).histories.find? id = none ↔ Outdated nowMs s ∨ FromFuture nowMs s := by
  rw [find?_prune, hdq, ← stale_lt_iff]
  simp [Option.filter, stale, hs]

variable [FloatArith F]

/-- An entity with a newest sample is hidden exactly where this is outdated or from the future,
and the time is not within the delay of the beginning. -/
theorem renderPosition_eq_none_iff (i : Interpolator F) (nowMs : UInt64) (id : UInt16)
    {dq : List (InterpSample F)} {s : InterpSample F} (hdq : i.histories.find? id = some dq)
    (hs : dq.getLast? = some s) :
    i.renderPosition id nowMs = none ↔
      interpDelayMs ≤ nowMs ∧ (Outdated nowMs s ∨ FromFuture nowMs s) := by
  obtain ⟨front, hf⟩ := Option.isSome_iff_exists.mp
    (List.isSome_head?.mpr (List.ne_nil_of_mem (List.mem_of_getLast? hs)))
  rw [renderPosition, hdq, ← stale_lt_iff]
  dsimp only
  rw [hf, hs]
  dsimp only
  by_cases hd : nowMs < interpDelayMs
  · rw [if_pos hd]
    simp [UInt64.not_le.mpr hd]
  · rw [if_neg hd]
    simp [UInt64.not_lt.mp hd]

/-- No entity with a newest sample that is not outdated is dropped or hidden, and pruning
changes no other history. -/
structure FreshKept (i : Interpolator F) (nowMs : UInt64) : Prop where
  dropped : ∀ order id dq s, i.histories.find? id = some dq → dq.getLast? = some s →
    (i.prune nowMs order).histories.find? id = none → Outdated nowMs s
  others : ∀ order id, (i.prune nowMs order).histories.find? id ≠ none →
    (i.prune nowMs order).histories.find? id = i.histories.find? id
  hidden : ∀ id dq s, i.histories.find? id = some dq → dq.getLast? = some s →
    i.renderPosition id nowMs = none → Outdated nowMs s

/-- Fresh entities are kept exactly where no newest sample is from the future. -/
theorem freshKept_iff (i : Interpolator F) (nowMs : UInt64) :
    i.FreshKept nowMs ↔ ∀ id dq s, i.histories.find? id = some dq → dq.getLast? = some s →
      ¬FromFuture nowMs s := by
  constructor
  · intro h id dq s hdq hs hfuture
    let order : UMap.Traversal UInt16 (List (InterpSample F)) :=
      .byRank UInt16.toNat fun _ _ h ↦ UInt16.toNat_inj.mp h
    have hgone := (i.prune_eq_none_iff nowMs order id hdq hs).mpr (Or.inr hfuture)
    have hold : s.recvWallMs.toNat + 2000 < nowMs.toNat := h.dropped order id dq s hdq hs hgone
    have hlater : nowMs.toNat < s.recvWallMs.toNat := hfuture.1
    omega
  · intro h
    refine ⟨fun order id dq s hdq hs hgone ↦ ?_, fun order id hsome ↦ ?_,
      fun id dq s hdq hs hnone ↦ ?_⟩
    · exact ((i.prune_eq_none_iff nowMs order id hdq hs).mp hgone).resolve_right (h id dq s hdq hs)
    · rw [find?_prune] at hsome ⊢
      obtain ⟨dq, hdq⟩ := Option.ne_none_iff_exists'.mp hsome
      rw [hdq, (Option.filter_eq_some_iff.mp hdq).1]
    · exact ((i.renderPosition_eq_none_iff nowMs id hdq hs).mp hnone).2.resolve_right
        (h id dq s hdq hs)

/-- An entity whose newest sample is stamped one millisecond after the time is dropped and
hidden. -/
theorem fresh_dropped :
    let i : Interpolator F32 := init.ingest 1 ⟨⟨⟨0⟩, ⟨0⟩⟩, ⟨⟨0⟩, ⟨0⟩⟩, 1001⟩
    (∀ order, (i.prune 1000 order).histories.find? 1 = none) ∧ i.renderPosition 1 1000 = none ∧
      ¬i.FreshKept 1000 := by
  intro i
  have hdq : i.histories.find? 1 = some [⟨⟨⟨0⟩, ⟨0⟩⟩, ⟨⟨0⟩, ⟨0⟩⟩, 1001⟩] := rfl
  have hfuture : FromFuture 1000 (⟨⟨⟨0⟩, ⟨0⟩⟩, ⟨⟨0⟩, ⟨0⟩⟩, 1001⟩ : InterpSample F32) := by
    unfold FromFuture
    decide
  have hhidden := (i.renderPosition_eq_none_iff 1000 1 hdq rfl).mpr ⟨by decide, Or.inr hfuture⟩
  refine ⟨fun order ↦ (i.prune_eq_none_iff 1000 order 1 hdq rfl).mpr (Or.inr hfuture), hhidden,
    fun h ↦ ?_⟩
  have hold := h.hidden 1 _ _ hdq rfl hhidden
  exact absurd hold (by unfold Outdated; decide)

end Interpolator
end LightningLink.Cl
