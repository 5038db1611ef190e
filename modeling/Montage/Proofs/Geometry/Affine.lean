import Mathlib.Tactic.LinearCombination
import Montage.Geometry.Affine
import Montage.Proofs.Number.Exact

/- Affine maps in exact arithmetic: an inverse takes a point back to where it came from. -/
namespace Montage

deriving instance DecidableEq for Affine

namespace Affine

theorem invert_determinant {m inverse : Affine Rat} (inverted : m.invert = some inverse) :
    m.xx * m.yy - m.xy * m.yx ≠ 0 := by
  intro flat
  unfold invert at inverted
  dsimp only at inverted
  rw [if_pos] at inverted
  · cases inverted
  · rw [flat, Scalar.abs_rat, abs_zero]
    decide +kernel

/-- The inverse of a map, then the map. -/
theorem apply_invert {m inverse : Affine Rat} (inverted : m.invert = some inverse) (x y : Rat) :
    m.apply (inverse.apply x y).1 (inverse.apply x y).2 = (x, y) := by
  have det := invert_determinant inverted
  have cancel : 1 / (m.xx * m.yy - m.xy * m.yx) * (m.xx * m.yy - m.xy * m.yx) = 1 :=
    one_div_mul_cancel det
  unfold invert at inverted
  dsimp only at inverted
  split at inverted
  · cases inverted
  · obtain rfl := Option.some.inj inverted
    unfold apply
    dsimp only
    refine Prod.ext ?_ ?_
    · linear_combination (x - m.xt) * cancel
    · linear_combination (y - m.yt) * cancel

end Affine

end Montage
