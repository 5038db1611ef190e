import Montage.Geometry.Rect
import Montage.Proofs.Number.Exact

/- Rectangles in exact arithmetic: which points and which squares of pixels they hold, and their
   corners as the farthest of their points in any direction. -/
namespace Montage

namespace Rect
variable {r : Rect Rat} {x y : Rat}

theorem contains_iff : r.contains x y = true ↔
    ((r.x ≤ x ∧ x < r.x + r.w) ∧ r.y ≤ y) ∧ y < r.y + r.h := by
  simp only [contains, Bool.and_eq_true, decide_eq_true_eq]

/-- In a rectangle or on its edge. -/
structure Holds (r : Rect Rat) (x y : Rat) : Prop where
  left : r.x ≤ x
  right : x ≤ r.x + r.w
  top : r.y ≤ y
  bottom : y ≤ r.y + r.h

theorem holds_of_contains (inside : r.contains x y = true) : r.Holds x y := by
  obtain ⟨⟨⟨left, right⟩, top⟩, bottom⟩ := contains_iff.mp inside
  exact ⟨left, right.le, top, bottom.le⟩

def corners (r : Rect Rat) : List (Rat × Rat) :=
  [(r.x, r.y), (r.x + r.w, r.y), (r.x, r.y + r.h), (r.x + r.w, r.y + r.h)]

theorem mem_corners {a b : Rat} (across : a = r.x ∨ a = r.x + r.w)
    (down : b = r.y ∨ b = r.y + r.h) : (a, b) ∈ r.corners := by
  rcases across with rfl | rfl <;> rcases down with rfl | rfl <;> simp [corners]

/-- One end of a stretch is at least as good as any point of it. -/
theorem end_below (k : Rat) {low x high : Rat} (left : low ≤ x) (right : x ≤ high) :
    ∃ e, (e = low ∨ e = high) ∧ k * e ≤ k * x := by
  rcases le_total 0 k with up | down
  · exact ⟨low, .inl rfl, mul_le_mul_of_nonneg_left left up⟩
  · exact ⟨high, .inr rfl, mul_le_mul_of_nonpos_left right down⟩

/-- No point of a rectangle is below all of its corners, whichever way one looks. -/
theorem Holds.corner_below (inside : r.Holds x y) (p q : Rat) :
    ∃ c ∈ r.corners, p * c.1 + q * c.2 ≤ p * x + q * y := by
  obtain ⟨a, across, less⟩ := end_below p inside.left inside.right
  obtain ⟨b, down, less'⟩ := end_below q inside.top inside.bottom
  exact ⟨(a, b), mem_corners across down, add_le_add less less'⟩

theorem Holds.corner_above (inside : r.Holds x y) (p q : Rat) :
    ∃ c ∈ r.corners, p * x + q * y ≤ p * c.1 + q * c.2 := by
  obtain ⟨c, corner, below⟩ := inside.corner_below (-p) (-q)
  exact ⟨c, corner, by linarith⟩

/-- The square of a pixel has a part in a rectangle. -/
structure Overlaps (r : Rect Rat) (i j : Nat) : Prop where
  left : (i : Rat) < r.x + r.w
  right : r.x < i + 1
  above : (j : Rat) < r.y + r.h
  below : r.y < j + 1

def widened (r : Rect Rat) (margin : Rat) : Rect Rat :=
  ⟨r.x - margin, r.y - margin, r.w + 2 * margin, r.h + 2 * margin⟩

end Rect

theorem Crop.clampEdge_between (v : Rat) : 0 ≤ Crop.clampEdge v ∧ Crop.clampEdge v ≤ 1 := by
  have limit : (Crop.limit : Rat) = 9 / 20 := by decide +kernel
  change 0 ≤ Scalar.clamp 0 Crop.limit v ∧ Scalar.clamp 0 Crop.limit v ≤ 1
  rw [limit, Scalar.clamp_between (by norm_num)]
  exact ⟨le_max_left _ _, max_le zero_le_one ((min_le_right _ _).trans (by norm_num))⟩

end Montage
