import Mathlib

/-!
# Moving a point inside a rectangle

Library `Support`. A point of the plane, read as a complex number, is displaced and each
coordinate clamped to an interval. From inside the rectangle this moves it by no more than
the displacement.
-/

namespace Support

/-- Clamp of a number to an interval, from above and then from below. -/
def clamp (lo hi x : ℝ) : ℝ := max lo (min x hi)

/-- A clamped number is in the interval. -/
theorem clamp_mem {lo hi : ℝ} (h : lo ≤ hi) (x : ℝ) : lo ≤ clamp lo hi x ∧ clamp lo hi x ≤ hi :=
  ⟨le_max_left _ _, max_le h (min_le_right _ _)⟩

/-- From inside the interval, clamping a displaced number does not displace it farther. -/
theorem abs_clamp_add_sub_le {lo hi x : ℝ} (hx : lo ≤ x ∧ x ≤ hi) (d : ℝ) :
    |clamp lo hi (x + d) - x| ≤ |d| := by
  have hself : clamp lo hi x = x := by rw [clamp, min_eq_left hx.2, max_eq_right hx.1]
  calc |clamp lo hi (x + d) - x| = |clamp lo hi (x + d) - clamp lo hi x| := by rw [hself]
    _ ≤ max |lo - lo| |min (x + d) hi - min x hi| := abs_max_sub_max_le_max _ _ _ _
    _ = |min (x + d) hi - min x hi| := by rw [sub_self, abs_zero, max_eq_right (abs_nonneg _)]
    _ ≤ max |x + d - x| |hi - hi| := abs_min_sub_min_le_max _ _ _ _
    _ = |x + d - x| := by rw [sub_self hi, abs_zero, max_eq_left (abs_nonneg _)]
    _ = |d| := by rw [add_sub_cancel_left]

/-- Clamping does not drive numbers apart. -/
theorem abs_clamp_sub_clamp_le (lo hi x y : ℝ) : |clamp lo hi x - clamp lo hi y| ≤ |x - y| :=
  calc |clamp lo hi x - clamp lo hi y| ≤ max |lo - lo| |min x hi - min y hi| :=
        abs_max_sub_max_le_max _ _ _ _
    _ = |min x hi - min y hi| := by rw [sub_self, abs_zero, max_eq_right (abs_nonneg _)]
    _ ≤ max |x - y| |hi - hi| := abs_min_sub_min_le_max _ _ _ _
    _ = |x - y| := by rw [sub_self hi, abs_zero, max_eq_left (abs_nonneg _)]

/-- A point displaced and clamped to a rectangle. -/
def clampPoint (w h : ℝ) (z : ℂ) : ℂ := ⟨clamp 0 w z.re, clamp 0 h z.im⟩

/-- From inside the rectangle a clamped displacement is no longer than the displacement. -/
theorem dist_clampPoint_add_le {w h : ℝ} {z : ℂ} (hre : 0 ≤ z.re ∧ z.re ≤ w)
    (him : 0 ≤ z.im ∧ z.im ≤ h) (d : ℂ) : dist (clampPoint w h (z + d)) z ≤ ‖d‖ := by
  rw [Complex.dist_eq_re_im, Complex.norm_eq_sqrt_sq_add_sq]
  apply Real.sqrt_le_sqrt
  have h1 := sq_le_sq.mpr (abs_clamp_add_sub_le hre d.re)
  have h2 := sq_le_sq.mpr (abs_clamp_add_sub_le him d.im)
  exact add_le_add h1 h2

/-- Clamping does not drive points apart. -/
theorem dist_clampPoint_le (w h : ℝ) (z z' : ℂ) :
    dist (clampPoint w h z) (clampPoint w h z') ≤ dist z z' := by
  rw [Complex.dist_eq_re_im, Complex.dist_eq_re_im]
  apply Real.sqrt_le_sqrt
  have hre := sq_le_sq.mpr (abs_clamp_sub_clamp_le 0 w z.re z'.re)
  have him := sq_le_sq.mpr (abs_clamp_sub_clamp_le 0 h z.im z'.im)
  exact add_le_add hre him

end Support
