import Mathlib

/-!
# Operations on top of a confirmed state

Library `Support`. A journal of operations is ahead of a state that is confirmed for the first
ones. The state shown is the one that the other operations lead to from there. Where operations
do not drive states apart, a new confirmed state, for more operations or for fewer, moves what is
shown by no more than the two confirmed states miss each other at the later one.
-/

namespace Support

open NNReal

variable {α ι : Type*}

/-- A confirmed state, with the number of operations that it is confirmed for. -/
structure Checkpoint (α : Type*) where
  state : α
  mark : ℕ

namespace Checkpoint

/-- State that the operations beyond the confirmed ones lead to. -/
def replay (f : α → ι → α) (ops : List ι) (c : Checkpoint α) : α :=
  (ops.drop c.mark).foldl f c.state

/-- State that a confirmed one leads to at a later number of operations. -/
def forecast (f : α → ι → α) (ops : List ι) (c : Checkpoint α) (n : ℕ) : α :=
  c.replay f (ops.take n)

variable {f : α → ι → α} {ops : List ι} {c c' : Checkpoint α} {n : ℕ}

/-- The forecast at the confirmed number is the confirmed state. -/
theorem forecast_self : c.forecast f ops c.mark = c.state := by
  rw [forecast, replay, List.drop_eq_nil_of_le (List.length_take_le _ _), List.foldl_nil]

/-- One more operation. -/
theorem replay_concat (h : c.mark ≤ ops.length) (x : ι) :
    c.replay f (ops ++ [x]) = f (c.replay f ops) x := by
  rw [replay, List.drop_append_of_le_length h, List.foldl_append]
  rfl

/-- The state shown goes on from a forecast. -/
theorem replay_eq_forecast (h : c.mark ≤ n) :
    c.replay f ops = (ops.drop n).foldl f (c.forecast f ops n) := by
  have hsplit : ops.drop c.mark = (ops.take n).drop c.mark ++ ops.drop n := by
    have hcat := List.drop_take_append_drop ops c.mark (n - c.mark)
    rwa [Nat.add_sub_cancel' h, ← List.drop_take, eq_comm] at hcat
  rw [replay, hsplit, List.foldl_append]
  rfl

/-! ### Distances -/

section

variable [PseudoMetricSpace α]

/-- Operations that do not drive states apart do not do so one after another. -/
theorem lipschitzWith_foldl (hf : ∀ x, LipschitzWith 1 (f · x)) (ops : List ι) :
    LipschitzWith 1 (ops.foldl f) := by
  induction ops with
  | nil => exact LipschitzWith.id
  | cons x ops ih =>
    have h := ih.comp (hf x)
    rwa [one_mul] at h

/-- A new confirmed state moves what is shown by no more than the forecasts differ. -/
theorem dist_replay_le (hf : ∀ x, LipschitzWith 1 (f · x)) (ops : List ι) (h : c.mark ≤ n)
    (h' : c'.mark ≤ n) : dist (c.replay f ops) (c'.replay f ops) ≤
      dist (c.forecast f ops n) (c'.forecast f ops n) := by
  rw [replay_eq_forecast h, replay_eq_forecast h']
  have hle := (lipschitzWith_foldl hf (ops.drop n)).dist_le_mul (c.forecast f ops n)
    (c'.forecast f ops n)
  rwa [NNReal.coe_one, one_mul] at hle

/-- Operations move a state no farther than each of them may, one after another. -/
theorem dist_foldl_le {P : α → Prop} {d : ι → ℝ} (hP : ∀ a x, P a → P (f a x))
    (hd : ∀ a x, P a → x ∈ ops → dist (f a x) a ≤ d x) {a : α} (ha : P a) :
    dist (ops.foldl f a) a ≤ (ops.map d).sum := by
  induction ops generalizing a with
  | nil => exact (dist_self a).le
  | cons x ops ih =>
    have hx := hd a x ha List.mem_cons_self
    have hops := ih (fun a y hy hmem ↦ hd a y hy (List.mem_cons_of_mem x hmem)) (hP a x ha)
    calc dist (ops.foldl f (f a x)) a ≤ dist (ops.foldl f (f a x)) (f a x) + dist (f a x) a :=
          dist_triangle _ _ _
      _ ≤ (ops.map d).sum + d x := add_le_add hops hx
      _ = ((x :: ops).map d).sum := by rw [List.map_cons, List.sum_cons, add_comm]

end
end Checkpoint
end Support
