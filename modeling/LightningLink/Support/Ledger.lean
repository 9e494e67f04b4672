import Mathlib.Data.Finset.Basic
import Mathlib.Data.Multiset.Bind

/-!
# Ledgers of numbered requests

Library `Support`. A request is issued under a number and is then pending. An acknowledgement
settles all pending requests up to its number, each with a receipt that names it; a pending
request can also be written off. `Balanced` says that nothing is lost or booked twice.
-/

namespace Support

/-- What has become of the requests issued; a receipt is a number with the acknowledgement. -/
structure Ledger (K : Type) where
  issued : Multiset K
  pending : Finset K
  receipts : Multiset (K × K)
  writtenOff : Multiset K

namespace Ledger

variable {K : Type}

/-- Numbers that have a receipt. -/
def settled (l : Ledger K) : Multiset K := l.receipts.map Prod.fst

/-- A ledger without requests. -/
def empty : Ledger K := ⟨0, ∅, 0, 0⟩

/-- Issue a request. -/
def issue [DecidableEq K] (l : Ledger K) (k : K) : Ledger K :=
  { l with issued := k ::ₘ l.issued, pending := insert k l.pending }

/-- Write off pending requests. -/
def writeOff [DecidableEq K] (l : Ledger K) (ks : Finset K) : Ledger K :=
  { l with pending := l.pending \ ks, writtenOff := l.writtenOff + ks.val }

/-- Settle all pending requests up to a number. -/
def settle [LE K] [DecidableLE K] (l : Ledger K) (ack : K) : Ledger K :=
  { l with
    pending := l.pending.filter fun k ↦ ¬k ≤ ack
    receipts := l.receipts + (l.pending.filter fun k ↦ k ≤ ack).val.map fun k ↦ (k, ack) }

/-- A number is in exactly one of the three places. -/
inductive InOnePlace (l : Ledger K) (k : K) : Prop
  | pending (here : k ∈ l.pending) (notSettled : k ∉ l.settled) (notWrittenOff : k ∉ l.writtenOff)
  | settled (here : k ∈ l.settled) (notPending : k ∉ l.pending) (notWrittenOff : k ∉ l.writtenOff)
  | writtenOff (here : k ∈ l.writtenOff) (notPending : k ∉ l.pending) (notSettled : k ∉ l.settled)

/-- Every number is issued once, and is in one place; a receipt is not older than its request. -/
structure Balanced [LE K] (l : Ledger K) : Prop where
  once : l.issued.Nodup
  total : l.issued = l.pending.val + l.settled + l.writtenOff
  acked : ∀ r ∈ l.receipts, r.1 ≤ r.2

/-! ### Operations -/

/-- The empty ledger is balanced. -/
theorem balanced_empty [LE K] : (empty : Ledger K).Balanced where
  once := Multiset.nodup_zero
  total := rfl
  acked _ h := absurd h (Multiset.notMem_zero _)

namespace Balanced

variable {l : Ledger K}

/-- A pending request was issued. -/
theorem pending_subset [LE K] (h : l.Balanced) {k : K} (hk : k ∈ l.pending) : k ∈ l.issued := by
  rw [h.total, add_assoc]
  exact Multiset.mem_add.mpr (Or.inl hk)

/-- Issuing under a number that is not taken. -/
theorem issue [LE K] [DecidableEq K] (h : l.Balanced) {k : K} (hk : k ∉ l.issued) :
    (l.issue k).Balanced where
  once := Multiset.nodup_cons.mpr ⟨hk, h.once⟩
  total := by
    have hnot : k ∉ l.pending := fun hp ↦ hk (h.pending_subset hp)
    change k ::ₘ l.issued = (insert k l.pending).val + l.settled + l.writtenOff
    rw [Finset.insert_val_of_notMem hnot, Multiset.cons_add, Multiset.cons_add, ← h.total]
  acked := h.acked

/-- Writing off what is pending. -/
theorem writeOff [LE K] [DecidableEq K] (h : l.Balanced) {ks : Finset K} (hks : ks ⊆ l.pending) :
    (l.writeOff ks).Balanced where
  once := h.once
  total := by
    have hsplit : (l.pending \ ks).val + ks.val = l.pending.val := by
      rw [Finset.sdiff_val]
      exact Multiset.sub_add_cancel (Finset.val_le_iff.mpr hks)
    change l.issued = (l.pending \ ks).val + l.settled + (l.writtenOff + ks.val)
    rw [h.total, ← hsplit]
    ac_rfl
  acked := h.acked

/-- Settling. -/
theorem settle [LE K] [DecidableLE K] (h : l.Balanced) (ack : K) : (l.settle ack).Balanced where
  once := h.once
  total := by
    have hsplit : (l.pending.filter fun k ↦ k ≤ ack).val +
        (l.pending.filter fun k ↦ ¬k ≤ ack).val = l.pending.val :=
      Multiset.filter_add_not (· ≤ ack) l.pending.val
    have hsettled : (l.settle ack).settled =
        l.settled + (l.pending.filter fun k ↦ k ≤ ack).val := by
      simp [Ledger.settled, Ledger.settle]
    rw [hsettled]
    change l.issued = (l.pending.filter fun k ↦ ¬k ≤ ack).val + _ + l.writtenOff
    rw [h.total, ← hsplit]
    ac_rfl
  acked r hr := by
    rcases Multiset.mem_add.mp hr with hr | hr
    · exact h.acked r hr
    · obtain ⟨k, hk, rfl⟩ := Multiset.mem_map.mp hr
      exact (Finset.mem_filter.mp hk).2

/-! ### What balance means -/

/-- No number has two receipts. -/
theorem settled_nodup [LE K] (h : l.Balanced) : l.settled.Nodup := by
  have hsum := h.total ▸ h.once
  exact (Multiset.nodup_add.mp (Multiset.nodup_add.mp hsum).1).2.1

/-- Every number issued is in exactly one place. -/
theorem inOnePlace [LE K] (h : l.Balanced) {k : K} (hk : k ∈ l.issued) : l.InOnePlace k := by
  obtain ⟨hleft, _, hoff⟩ := Multiset.nodup_add.mp (h.total ▸ h.once)
  obtain ⟨_, _, hpending⟩ := Multiset.nodup_add.mp hleft
  have hoff : ∀ a ∈ l.pending.val + l.settled, a ∉ l.writtenOff := fun _ ↦
    Multiset.disjoint_left.mp hoff
  have hpending : ∀ a ∈ l.pending, a ∉ l.settled := fun _ ↦ Multiset.disjoint_left.mp hpending
  rw [h.total] at hk
  rcases Multiset.mem_add.mp hk with hk | hw
  · have hnot := hoff k hk
    rcases Multiset.mem_add.mp hk with hp | hs
    · exact .pending hp (hpending k hp) hnot
    · exact .settled hs (fun hp ↦ hpending k hp hs) hnot
  · exact .writtenOff hw (fun hp ↦ hoff k (Multiset.mem_add.mpr (Or.inl hp)) hw)
      fun hs ↦ hoff k (Multiset.mem_add.mpr (Or.inr hs)) hw

end Balanced
end Ledger
end Support
