import LightningLink.Common.Types
import Mathlib

/-!
# Exact arithmetic

Library `Common`. The real numbers in the place of `float` and `double`, for results about the
code without rounding.
-/

namespace LightningLink

open FloatOps FloatArith

/-- Exact arithmetic of the real numbers. -/
noncomputable instance : FloatOps ℝ where
  ofInt n := n
  lt a b := decide (a < b)
  sqrt := Real.sqrt

/-- Both floating types without rounding. -/
noncomputable instance : FloatArith ℝ where
  Double := ℝ
  ofDouble d := d

end LightningLink
