import Mathlib.Data.List.Chain
import Mathlib.Tactic.Linarith
import Mathlib.Tactic.Ring

/-!
# Fixed-rate schedules

Library `Support`. A schedule is polled at clock readings. At most one step is run at a
reading, and the time of the next one moves on by a period, or to the reading where the
schedule has fallen behind. However irregular the readings are, steps do not run ahead of the
period and do not pile up. Readings that are at most a period apart miss none.
-/

namespace Support.Cadence

/-- Time of the next step after a reading. -/
def advance (period next now : Int) : Int :=
  if next ≤ now then
    if next + period < now then now else next + period
  else next

/-- Time of the next step after several readings. -/
def nextAfter (period next : Int) (nows : List Int) : Int := nows.foldl (advance period) next

/-- Readings at which a step is run. -/
def executed (period next : Int) : List Int → List Int
  | [] => []
  | now :: nows =>
    if next ≤ now then now :: executed period (advance period next now) nows
    else executed period next nows

variable {period next now : Int}

theorem advance_of_lt (h : now < next) : advance period next now = next :=
  if_neg (Int.not_le.mpr h)

/-- A step moves the schedule on by a period at least, and not before the reading. -/
theorem le_advance (period : Int) (h : next ≤ now) :
    next + period ≤ advance period next now ∧ now ≤ advance period next now := by
  unfold advance
  rw [if_pos h]
  split <;> omega

/-- A step moves the schedule at most a period past the reading. -/
theorem advance_le (hp : 0 ≤ period) (h : next ≤ now) :
    advance period next now ≤ now + period := by
  unfold advance
  rw [if_pos h]
  split <;> omega

/-- Steps are run at readings. -/
theorem executed_sublist (next : Int) (nows : List Int) :
    (executed period next nows).Sublist nows := by
  induction nows generalizing next with
  | nil => exact List.Sublist.refl []
  | cons now nows ih =>
    unfold executed
    split
    · exact (ih _).cons_cons now
    · exact (ih _).cons now

/-- Steps do not run ahead: `k` of them up to a time need `k - 1` periods. -/
theorem countP_executed_le (hp : 0 ≤ period) (next last : Int) (nows : List Int) :
    let k := (executed period next nows).countP fun t ↦ t ≤ last
    0 < k → (k : Int) * period ≤ last - next + period := by
  induction nows generalizing next with
  | nil => simp [executed]
  | cons now nows ih =>
    intro k hk
    by_cases hdue : next ≤ now
    · have hstep := le_advance period hdue
      have hrest := ih (advance period next now)
      by_cases hnow : now ≤ last
      · have hcount : k = (executed period (advance period next now) nows).countP
            (fun t ↦ t ≤ last) + 1 := by
          simp [k, executed, hdue, hnow]
        rw [hcount]
        push_cast
        by_cases hzero : 0 < (executed period (advance period next now) nows).countP
            fun t ↦ t ≤ last
        · have := hrest hzero
          linarith [hstep.1]
        · rw [Nat.eq_zero_of_not_pos hzero]
          push_cast
          linarith
      · have hcount : k = (executed period (advance period next now) nows).countP
            fun t ↦ t ≤ last := by
          simp [k, executed, hdue, hnow]
        rw [hcount] at hk ⊢
        have := hrest hk
        linarith [hstep.1]
    · have hcount : k = (executed period next nows).countP fun t ↦ t ≤ last := by
        simp [k, executed, hdue]
      rw [hcount] at hk ⊢
      exact ih next hk

/-- Steps do not pile up: `k` of them within a window need `k - 2` periods. -/
theorem countP_executed_window (hp : 0 ≤ period) (next first last : Int) (nows : List Int)
    (hwindow : first ≤ last) :
    let k := (executed period next nows).countP fun t ↦ first ≤ t ∧ t ≤ last
    0 < k → (k : Int) * period ≤ last - first + 2 * period := by
  induction nows generalizing next with
  | nil => simp [executed]
  | cons now nows ih =>
    intro k hk
    by_cases hdue : next ≤ now
    · by_cases hnow : first ≤ now ∧ now ≤ last
      · have hcount : k = (executed period (advance period next now) nows).countP
            (fun t ↦ first ≤ t ∧ t ≤ last) + 1 := by
          simp [k, executed, hdue, hnow.1, hnow.2]
        -- The steps after the first one in the window are counted from its reading.
        have hle : (executed period (advance period next now) nows).countP
              (fun t ↦ first ≤ t ∧ t ≤ last) ≤
            (executed period (advance period next now) nows).countP fun t ↦ t ≤ last := by
          apply List.countP_mono_left
          intro t _ ht
          simp only [decide_eq_true_eq] at ht ⊢
          exact ht.2
        have hrest := countP_executed_le hp (advance period next now) last nows
        have hstep := le_advance period hdue
        rw [hcount]
        generalize (executed period (advance period next now) nows).countP
          (fun t ↦ first ≤ t ∧ t ≤ last) = j at hle ⊢
        generalize (executed period (advance period next now) nows).countP
          (fun t ↦ t ≤ last) = i at hle hrest
        have hmul : (j : Int) * period ≤ i * period :=
          Int.mul_le_mul_of_nonneg_right (by exact_mod_cast hle) hp
        push_cast
        by_cases hzero : 0 < i
        · have := hrest hzero
          linarith [hstep.2, hnow.1]
        · have hj : j = 0 := by omega
          rw [hj]
          push_cast
          linarith
      · have hcount : k = (executed period (advance period next now) nows).countP
            fun t ↦ first ≤ t ∧ t ≤ last := by
          simp only [k, executed, hdue, if_true]
          rw [List.countP_cons_of_neg (by simpa using hnow)]
        rw [hcount] at hk ⊢
        exact ih _ hk
    · have hcount : k = (executed period next nows).countP fun t ↦ first ≤ t ∧ t ≤ last := by
        simp [k, executed, hdue]
      rw [hcount] at hk ⊢
      exact ih next hk

/-- A count that needs a period for each, apart from a few, is bounded by the periods in a span. -/
theorem le_ediv_add (hp : 0 < period) {span : Int} (hspan : 0 ≤ span) {k : Nat} (extra : Nat)
    (h : 0 < k → (k : Int) * period ≤ span + extra * period) :
    (k : Int) ≤ span / period + extra := by
  by_cases hk : 0 < k
  · have hperiods : (k : Int) - extra ≤ span / period := by
      rw [Int.le_ediv_iff_mul_le hp, Int.sub_mul]
      linarith [h hk]
    omega
  · have hquotient := Int.ediv_nonneg hspan hp.le
    omega

/-- Readings at most a period apart miss no step: the last reading is in the period that ends
at the next step. -/
theorem length_executed_of_steady (prev next : Int) (nows : List Int) (hprev : prev < next)
    (hnext : next ≤ prev + period)
    (hsorted : (prev :: nows).Pairwise (· ≤ ·))
    (hgaps : (prev :: nows).IsChain (fun s t ↦ t ≤ s + period)) :
    let last := nows.getLastD prev
    let k : Int := (executed period next nows).length
    last < next + k * period ∧ next + k * period ≤ last + period := by
  induction nows generalizing prev next with
  | nil =>
    simp only [executed, List.length_nil, List.getLastD_nil]
    constructor <;> push_cast <;> linarith
  | cons now nows ih =>
    obtain ⟨hleast, hsorted⟩ := List.pairwise_cons.mp hsorted
    have hle := hleast now List.mem_cons_self
    obtain ⟨hgap, hgaps⟩ := List.isChain_cons_cons.mp hgaps
    rw [List.getLastD_cons]
    by_cases hdue : next ≤ now
    · have hadvance : advance period next now = next + period := by
        unfold advance
        rw [if_pos hdue, if_neg (by omega)]
      have hrest := ih now (next + period) (by omega) (by omega) hsorted hgaps
      rw [executed, if_pos hdue, hadvance, List.length_cons]
      push_cast
      constructor
      · linarith [hrest.1]
      · linarith [hrest.2]
    · rw [executed, if_neg hdue]
      exact ih now next (by omega) (by omega) hsorted hgaps

end Support.Cadence
