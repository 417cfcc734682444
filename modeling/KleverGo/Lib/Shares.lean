import Mathlib

/-!
# Shares that are rounded down

A whole is divided among weights, each share rounded down.  The shares never exceed the whole.
-/

set_option autoImplicit false

namespace KleverGo

/-- Shares rounded down, times the total, are at most the whole times the weights. -/
theorem sum_shares_mul_le {whole total : Int} (htotal : 0 < total) (weights : List Int) :
    (weights.map fun w => whole * w / total).sum * total ≤ whole * weights.sum := by
  induction weights with
  | nil => simp
  | cons w weights ih =>
    have hw := Int.ediv_mul_le (whole * w) (by omega : total ≠ 0)
    simp only [List.map_cons, List.sum_cons]
    nlinarith

theorem sum_shares_le {whole total : Int} {weights : List Int} (hwhole : 0 ≤ whole)
    (htotal : 0 < total) (h : weights.sum ≤ total) :
    (weights.map fun w => whole * w / total).sum ≤ whole := by
  refine Int.le_of_mul_le_mul_right ?_ htotal
  calc (weights.map fun w => whole * w / total).sum * total
      ≤ whole * weights.sum := sum_shares_mul_le htotal weights
    _ ≤ whole * total := Int.mul_le_mul_of_nonneg_left h hwhole

end KleverGo
