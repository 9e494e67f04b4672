import LightningLink.Common.Conservation

/-!
# What flushing releases

Library `Common`. Both directions share one queue, and flushing stops at the first entry that
is inbound. It releases everything that is due exactly where no inbound entry stands before
an outbound one that is due, in the order in which the queue pops its entries.
-/

namespace LightningLink

open Support

/-- An outbound entry that has matured. -/
def Pending.DueOut (nowUs : UInt64) (p : Pending) : Prop :=
  p.outbound = true ∧ p.deliverAtUs ≤ nowUs

instance (nowUs : UInt64) : DecidablePred (Pending.DueOut nowUs) :=
  fun _ ↦ inferInstanceAs (Decidable (_ ∧ _))

/-- In a list sorted by deadline the loop leaves nothing that is due exactly where nothing
that is due comes after an inbound entry. -/
theorem dropWhile_dueOut_iff (nowUs : UInt64) (xs : List Pending)
    (hs : xs.Pairwise fun a b ↦ a.deliverAtUs ≤ b.deliverAtUs) :
    (∀ p ∈ xs.dropWhile (fun p ↦ p.deliverAtUs ≤ nowUs && p.outbound), ¬p.DueOut nowUs) ↔
      xs.Pairwise fun a b ↦ a.outbound = false → ¬b.DueOut nowUs := by
  induction xs with
  | nil => simp
  | cons x xs ih =>
    obtain ⟨hx, htail⟩ := List.pairwise_cons.mp hs
    rw [List.pairwise_cons]
    by_cases hdue : x.DueOut nowUs
    · rw [List.dropWhile_cons_of_pos (by simpa using hdue.symm), ih htail]
      simp [hdue.1]
    · rw [List.dropWhile_cons_of_neg (by simpa using fun h1 h2 ↦ hdue ⟨h2, h1⟩),
        List.forall_mem_cons]
      cases hout : x.outbound with
      | false =>
        constructor
        · rintro ⟨_, hrest⟩
          exact ⟨fun b hb _ ↦ hrest b hb, List.Pairwise.imp_of_mem (fun _ hb _ _ ↦ hrest _ hb)
            htail⟩
        · rintro ⟨hrest, _⟩
          exact ⟨hdue, fun b hb ↦ hrest b hb rfl⟩
      | true =>
        -- `x` has not matured, and what comes later has not either.
        have hlate : ∀ b ∈ xs, ¬b.DueOut nowUs := fun b hb hb' ↦
          hdue ⟨hout, UInt64.le_trans (hx b hb) hb'.2⟩
        exact ⟨fun _ ↦ ⟨fun b hb _ ↦ hlate b hb,
          List.Pairwise.imp_of_mem (fun _ hb _ _ ↦ hlate _ hb) htail⟩, fun _ ↦ ⟨hdue, hlate⟩⟩

namespace LaggedSocket

variable {D : Type} {Q : PriorityQueue Pending Pending.deliverAtUs}

/-- Flushing passes every outbound entry that is due to `::sendto`, in the order of the
deadlines, and does not touch the inbound entries. -/
structure ReleasesDue (nowUs : UInt64) (s : LaggedSocket D Q) : Prop where
  none_left : ∀ p ∈ Q.elems (s.flushOutboundLocked nowUs).1.queue, ¬p.DueOut nowUs
  sent : ∃ ps : List Pending,
    (s.flushOutboundLocked nowUs).2 = ps.map (fun p ↦ ⟨nowUs, p.ep, p.bytes⟩) ∧
      (ps : Multiset Pending) = (Q.elems s.queue).filter (Pending.DueOut nowUs) ∧
      ps.Pairwise fun a b ↦ a.deliverAtUs ≤ b.deliverAtUs
  inbound : (s.flushOutboundLocked nowUs).1.queued false = s.queued false

/-- In the order of popping, no outbound entry that is due comes after an inbound one. -/
def Unblocked (nowUs : UInt64) (s : LaggedSocket D Q) : Prop :=
  (Q.popAll s.queue).Pairwise fun a b ↦ a.outbound = false → ¬b.DueOut nowUs

/-- Flushing leaves nothing that is due exactly where nothing is blocked. -/
theorem none_left_iff (nowUs : UInt64) (s : LaggedSocket D Q) :
    (∀ p ∈ Q.elems (s.flushOutboundLocked nowUs).1.queue, ¬p.DueOut nowUs) ↔
      s.Unblocked nowUs := by
  obtain ⟨released, queue, heq, _, hpops⟩ := s.flushOutboundLocked_spec nowUs
  rw [heq, Unblocked, ← dropWhile_dueOut_iff nowUs _ (Q.sorted_popAll _), ← (hpops.split rfl).2,
    ← Q.coe_popAll]
  rfl

/-- What flushing sends is in the order of the deadlines, and the inbound entries stay. -/
theorem flush_sorted (nowUs : UInt64) (s : LaggedSocket D Q) :
    ∃ ps : List Pending,
      (s.flushOutboundLocked nowUs).2 = ps.map (fun p ↦ ⟨nowUs, p.ep, p.bytes⟩) ∧
      Q.elems s.queue = ps + Q.elems (s.flushOutboundLocked nowUs).1.queue ∧
      (∀ p ∈ ps, p.DueOut nowUs) ∧ ps.Pairwise fun a b ↦ a.deliverAtUs ≤ b.deliverAtUs := by
  obtain ⟨released, queue, heq, hdue, hpops⟩ := s.flushOutboundLocked_spec nowUs
  rw [heq]
  refine ⟨released, rfl, hpops.elems_eq, fun p hp ↦ (hdue p hp).symm, ?_⟩
  rw [(hpops.split rfl).1]
  exact (Q.sorted_popAll _).sublist (List.takeWhile_sublist _)

/-- An inbound entry with an earlier deadline blocks an outbound one that is due. -/
theorem not_unblocked (nowUs : UInt64) (s : LaggedSocket D Q) {a b : Pending}
    (ha : a ∈ Q.popAll s.queue) (hb : b ∈ Q.popAll s.queue) (hin : a.outbound = false)
    (hdue : b.DueOut nowUs) (hlt : a.deliverAtUs < b.deliverAtUs) : ¬s.Unblocked nowUs := by
  intro h
  -- Of two entries with different deadlines the earlier one stands first.
  have hfirst : (Q.popAll s.queue).Pairwise fun x y ↦
      x.deliverAtUs < y.deliverAtUs → x.outbound = false → ¬y.DueOut nowUs := by
    apply List.Pairwise.imp _ h
    intro x y hxy _
    exact hxy
  have hflip : (Q.popAll s.queue).Pairwise fun x y ↦
      y.deliverAtUs < x.deliverAtUs → y.outbound = false → ¬x.DueOut nowUs :=
    (Q.sorted_popAll s.queue).imp fun hle hyx ↦ absurd hyx (UInt64.not_lt.mpr hle)
  exact List.Pairwise.forall_of_forall_of_flip
    (fun _ _ hxx ↦ absurd hxx (UInt64.lt_irrefl _)) hfirst hflip ha hb hlt hin hdue

/-- Flushing releases everything that is due exactly where nothing is blocked: where every
outbound entry that is due comes before the deadlines of all inbound ones, and not where an
inbound entry has an earlier deadline. -/
theorem releasesDue_iff (nowUs : UInt64) (s : LaggedSocket D Q) :
    (s.ReleasesDue nowUs ↔ s.Unblocked nowUs) ∧
    ((∀ a ∈ Q.elems s.queue, ∀ b ∈ Q.elems s.queue, a.outbound = false → b.DueOut nowUs →
      b.deliverAtUs < a.deliverAtUs) → s.ReleasesDue nowUs) ∧
    ∀ a ∈ Q.elems s.queue, ∀ b ∈ Q.elems s.queue, a.outbound = false → b.DueOut nowUs →
      a.deliverAtUs < b.deliverAtUs → ¬s.ReleasesDue nowUs := by
  have hiff : s.ReleasesDue nowUs ↔ s.Unblocked nowUs := by
    refine ⟨fun h ↦ (s.none_left_iff nowUs).mp h.none_left, fun h ↦ ?_⟩
    have hnone := (s.none_left_iff nowUs).mpr h
    obtain ⟨ps, hsent, helems, hdue, hsorted⟩ := s.flush_sorted nowUs
    refine ⟨hnone, ⟨ps, hsent, ?_, hsorted⟩, ?_⟩
    · rw [helems, Multiset.filter_add, Multiset.filter_eq_self.mpr hdue,
        Multiset.filter_eq_nil.mpr hnone, add_zero]
    · rw [queued, queued, helems, Multiset.filter_add, filter_otherSide (fun p hp ↦ (hdue p hp).1)
        Bool.true_eq_false.mp, zero_add]
  have hmem : ∀ p, p ∈ Q.popAll s.queue ↔ p ∈ Q.elems s.queue := fun p ↦ by
    rw [← Q.coe_popAll, Multiset.mem_coe]
  refine ⟨hiff, fun h ↦ hiff.mpr ?_, fun a ha b hb hin hdue hlt hrel ↦ ?_⟩
  · refine (Q.sorted_popAll s.queue).imp_of_mem fun ha hb hle hin hdue ↦ ?_
    exact absurd hle (UInt64.not_le.mpr (h _ ((hmem _).mp ha) _ ((hmem _).mp hb) hin hdue))
  · exact s.not_unblocked nowUs ((hmem a).mpr ha) ((hmem b).mpr hb) hin hdue hlt (hiff.mp hrel)

/-- An outbound entry that is due waits behind an inbound one. -/
theorem releasesDue_blocked :
    ¬(⟨3, ⟨0, 0, 0, 0⟩, [⟨1, ⟨1, 1⟩, [7], false⟩, ⟨2, ⟨1, 1⟩, [8], true⟩]⟩ :
      LaggedSocket Int (.newestFirst _)).ReleasesDue 3 := by
  intro h
  exact h.none_left ⟨2, ⟨1, 1⟩, [8], true⟩ (by decide) (by decide)

end LaggedSocket
end LightningLink
