import Montage.Proofs.Number.Exact
import Montage.Proofs.Timeline.Tiling

/- Boundaries on the grid and the cells between them. Different multiples of the step are
   further apart than boundaries that count as one, so thinning can only lose the end of the
   timeline, and no clip begins or ends inside a cell. -/
namespace Montage

theorem closeness_rat : (closeness : Rat) = 1 / 1000000000 := by
  change (1 : Rat) / ((tenTo 9 : Nat) : Rat) = 1 / 1000000000
  norm_num [tenTo]

theorem closeness_pos : (0 : Rat) < closeness := by
  rw [closeness_rat]
  norm_num

theorem snap_rat (t : Rat) {step : Rat} (positive : 0 < step) :
    (∃ n : Int, snap t step = n * step) ∧
      snap t step - t ≤ step / 2 ∧ t - snap t step ≤ step / 2 := by
  have value : snap t step = Scalar.round (t / step) * step := if_neg (not_le.mpr positive)
  obtain ⟨n, round, above, below⟩ := Scalar.round_rat (t / step)
  have whole : t / step * step = t := div_mul_cancel₀ t positive.ne'
  rw [value, round]
  refine ⟨⟨n, rfl⟩, ?_, ?_⟩
  · nlinarith
  · nlinarith

/-- A place inside the timeline, either a multiple of the step or the end. -/
structure OnGrid (total step v : Rat) : Prop where
  low : 0 ≤ v
  high : v ≤ total
  regular : v = total ∨ ∃ n : Int, v = n * step

theorem clamp_grid {total step : Rat} (inside : 0 ≤ total) (positive : 0 < step) (t : Rat) :
    OnGrid total step (Scalar.clamp 0 total (snap t step)) := by
  rw [Scalar.clamp_rat]
  split
  · exact ⟨le_refl _, inside, .inr ⟨0, by simp⟩⟩
  · rename_i low
    split
    · exact ⟨inside, le_refl _, .inl rfl⟩
    · rename_i high
      exact ⟨not_lt.mp low, not_lt.mp high, .inr (snap_rat t positive).1⟩

theorem clamp_le_iff {total t x : Rat} (low : 0 ≤ t) (high : t < total) :
    Scalar.clamp 0 total x ≤ t ↔ x ≤ t := by
  rw [Scalar.clamp_between (low.trans high.le), max_le_iff, min_le_iff, and_iff_right low,
    or_iff_left (not_le.mpr high)]

theorem le_clamp_iff {total t x : Rat} (low : 0 < t) (high : t ≤ total) :
    t ≤ Scalar.clamp 0 total x ↔ t ≤ x := by
  rw [Scalar.clamp_between (low.le.trans high), le_max_iff, le_min_iff,
    or_iff_right (not_le.mpr low), and_iff_left high]

/-- The grid moves nothing over a time that is a step away. -/
theorem clamp_side {total step x t : Rat} (positive : 0 < step) (low : 0 ≤ t) (high : t < total)
    (far : step ≤ |t - x|) : Scalar.clamp 0 total (snap x step) ≤ t ↔ x ≤ t := by
  obtain ⟨-, above, below⟩ := snap_rat x positive
  rw [clamp_le_iff low high]
  rcases le_abs.mp far with after | before
  · exact iff_of_true (by linarith) (by linarith)
  · exact iff_of_false (by linarith) (by linarith)

theorem multiples_apart {step x y : Rat} (positive : 0 < step) (hx : ∃ n : Int, x = n * step)
    (hy : ∃ n : Int, y = n * step) (less : x < y) : step ≤ y - x := by
  obtain ⟨n, rfl⟩ := hx
  obtain ⟨m, rfl⟩ := hy
  have order : n < m := by
    have cast := lt_of_mul_lt_mul_right less positive.le
    exact_mod_cast cast
  have next : ((n + 1 : Int) : Rat) ≤ m := by exact_mod_cast order
  push_cast at next
  nlinarith

theorem grid_apart {total step x y : Rat} (positive : 0 < step) (hx : OnGrid total step x)
    (hy : OnGrid total step y) (less : x < y) (inner : y ≠ total) : step ≤ y - x := by
  have before : x ≠ total := by
    have high := hy.high
    intro same
    linarith
  exact multiples_apart positive (hx.regular.resolve_left before) (hy.regular.resolve_left inner) less

/-- Cells after a boundary that was kept. -/
def cells (kept : Rat) (es : List Rat) : List (Rat × Rat) := intervals (kept :: thinned.go kept es)

theorem cells_cons (kept e : Rat) (es : List Rat) :
    cells kept (e :: es) =
      if |e - kept| < closeness then cells kept es
      else if e - kept ≤ closeness then cells e es
      else (kept, e) :: cells e es := by
  have close : (Scalar.abs (e - kept) < (closeness : Rat)) ↔ |e - kept| < closeness := by
    rw [Scalar.abs_rat]
  unfold cells
  rw [thinned.go]
  by_cases near : |e - kept| < closeness
  · rw [if_pos near]
    exact congrArg (fun es => intervals (kept :: es)) (if_pos (close.mpr near))
  · rw [if_neg near]
    have split : (if Scalar.abs (e - kept) < (closeness : Rat) then thinned.go kept es
        else e :: thinned.go e es) = e :: thinned.go e es := if_neg fun h => near (close.mp h)
    exact congrArg (fun es => intervals (kept :: es)) split

structure Cells (total kept : Rat) (es : List Rat) (stop : Rat) : Prop where
  tiles : ∀ f : Rat × Rat → Option Nat,
    Tiles kept ((cells kept es).map fun c => ⟨c.1, c.2, f c⟩) stop
  inside : stop ≤ total
  reach : ∀ x ∈ kept :: es, x ≤ stop + closeness
  wide : ∀ c ∈ cells kept es, closeness < c.2 - c.1
  ends : ∀ c ∈ cells kept es, c.1 ∈ kept :: es ∧ c.2 ∈ kept :: es
  empty : ∀ c ∈ cells kept es, ∀ x ∈ kept :: es, x ≤ c.1 ∨ c.2 ≤ x

/-- A boundary close to the one kept before it adds no cell. -/
theorem cells_skip {total kept e stop : Rat} {es : List Rat} (h : Cells total kept es stop)
    (order : kept ≤ e) (near : e - kept < closeness) (first : ∀ x ∈ es, e ≤ x)
    (bounded : ∀ x ∈ es, x ≤ total) (last : kept < e → e = total) :
    Cells total kept (e :: es) stop := by
  have low := tiles_le (h.tiles fun _ => none)
  have same : cells kept (e :: es) = cells kept es := by
    rw [cells_cons, if_pos (by rwa [abs_of_nonneg (by linarith)])]
  refine ⟨?_, h.inside, ?_, by rw [same]; exact h.wide, ?_, ?_⟩
  · rw [same]
    exact h.tiles
  · intro x member
    rcases List.mem_cons.mp member with rfl | member
    · exact h.reach x List.mem_cons_self
    · rcases List.mem_cons.mp member with rfl | member
      · linarith
      · exact h.reach x (List.mem_cons_of_mem _ member)
  · intro c member
    rw [same] at member
    obtain ⟨left, right⟩ := h.ends c member
    have grow : ∀ x ∈ kept :: es, x ∈ kept :: e :: es := by
      intro x mem
      rcases List.mem_cons.mp mem with rfl | mem
      · exact List.mem_cons_self
      · exact List.mem_cons_of_mem _ (List.mem_cons_of_mem _ mem)
    exact ⟨grow _ left, grow _ right⟩
  · intro c member x mem
    rw [same] at member
    rcases List.mem_cons.mp mem with rfl | mem
    · exact h.empty c member x List.mem_cons_self
    · rcases List.mem_cons.mp mem with rfl | mem
      · rcases eq_or_lt_of_le order with rfl | less
        · exact h.empty c member kept List.mem_cons_self
        · have top := last less
          have wide := h.wide c member
          obtain ⟨left, right⟩ := h.ends c member
          have high : c.2 ≤ x := by
            rcases List.mem_cons.mp right with same | right
            · rw [same]
              exact order
            · exact top ▸ bounded c.2 right
          have start : kept ≤ c.1 := by
            rcases List.mem_cons.mp left with same | left
            · exact same.ge
            · exact order.trans (first c.1 left)
          linarith
      · exact h.empty c member x (List.mem_cons_of_mem _ mem)

/-- Nothing follows the end of the timeline. -/
theorem cells_end {total stop : Rat} {es : List Rat} (h : Cells total total es stop)
    (first : ∀ x ∈ es, total ≤ x) (bounded : ∀ x ∈ es, x ≤ total) : cells total es = [] := by
  rw [List.eq_nil_iff_forall_not_mem]
  intro c member
  have wide := h.wide c member
  obtain ⟨left, right⟩ := h.ends c member
  have positive := closeness_pos
  have high : c.2 ≤ total := by
    rcases List.mem_cons.mp right with same | right
    · exact same.le
    · exact bounded c.2 right
  have low : total ≤ c.1 := by
    rcases List.mem_cons.mp left with same | left
    · exact same.ge
    · exact first c.1 left
  linarith

/-- The end of the timeline, close to the boundary before it, adds no cell. -/
theorem cells_touch {total kept stop : Rat} {es : List Rat} (h : Cells total total es stop)
    (above : ∀ x ∈ es, total ≤ x) (bounded : ∀ x ∈ kept :: total :: es, x ≤ total)
    (order : kept ≤ total) (far : ¬ |total - kept| < closeness) (touch : total - kept ≤ closeness) :
    Cells total kept (total :: es) kept := by
  have same : cells kept (total :: es) = [] := by
    rw [cells_cons, if_neg far, if_pos touch]
    refine cells_end h above fun x member => bounded x ?_
    exact List.mem_cons_of_mem _ (List.mem_cons_of_mem _ member)
  refine ⟨?_, order, ?_, by simp [same], by simp [same], by simp [same]⟩
  · intro f
    rw [same]
    exact .nil kept
  · intro x member
    linarith [bounded x member]

/-- A boundary further away ends a cell. -/
theorem cells_far {total kept e stop : Rat} {es : List Rat} (h : Cells total e es stop)
    (above : ∀ x ∈ es, e ≤ x) (less : kept < e) (far : ¬ |e - kept| < closeness)
    (apart : closeness < e - kept) : Cells total kept (e :: es) stop := by
  have same : cells kept (e :: es) = (kept, e) :: cells e es := by
    rw [cells_cons, if_neg far, if_neg (not_le.mpr apart)]
  have inner : ∀ x ∈ e :: es, x ∈ kept :: e :: es := fun x member => List.mem_cons_of_mem _ member
  refine ⟨?_, h.inside, ?_, ?_, ?_, ?_⟩
  · intro f
    rw [same]
    exact .cons rfl less (h.tiles f)
  · intro x member
    rcases List.mem_cons.mp member with rfl | member
    · linarith [h.reach e List.mem_cons_self]
    · exact h.reach x member
  · intro c member
    rw [same] at member
    rcases List.mem_cons.mp member with rfl | member
    · exact apart
    · exact h.wide c member
  · intro c member
    rw [same] at member
    rcases List.mem_cons.mp member with rfl | member
    · exact ⟨List.mem_cons_self, inner e List.mem_cons_self⟩
    · obtain ⟨left, right⟩ := h.ends c member
      exact ⟨inner _ left, inner _ right⟩
  · intro c member x mem
    rw [same] at member
    rcases List.mem_cons.mp member with rfl | tail
    · rcases List.mem_cons.mp mem with rfl | mem
      · exact .inl (le_refl _)
      · right
        rcases List.mem_cons.mp mem with rfl | mem
        · exact le_refl _
        · exact above x mem
    · rcases List.mem_cons.mp mem with rfl | mem
      · left
        rcases List.mem_cons.mp (h.ends c tail).1 with eq | left
        · rw [eq]
          exact less.le
        · exact less.le.trans (above _ left)
      · exact h.empty c tail x mem

theorem cells_spec {total kept : Rat} {es : List Rat} (sorted : (kept :: es).Pairwise (· ≤ ·))
    (bounded : ∀ x ∈ kept :: es, x ≤ total)
    (apart : ∀ x ∈ kept :: es, ∀ y ∈ kept :: es, x < y → y ≠ total → closeness < y - x) :
    ∃ stop, Cells total kept es stop := by
  induction es generalizing kept with
  | nil =>
    refine ⟨kept, fun f => .nil kept, bounded kept List.mem_cons_self, ?_, ?_, ?_, ?_⟩
    · intro x member
      have positive := closeness_pos
      simp only [List.mem_cons, List.not_mem_nil, or_false] at member
      linarith
    all_goals
      intro c member
      simp [cells, thinned.go, intervals] at member
  | cons e es ih =>
    obtain ⟨first, rest⟩ := List.pairwise_cons.mp sorted
    have above := (List.pairwise_cons.mp rest).1
    have order := first e List.mem_cons_self
    have inner : ∀ x ∈ e :: es, x ∈ kept :: e :: es := fun x member => List.mem_cons_of_mem _ member
    have last : kept < e → e - kept ≤ closeness → e = total := by
      intro less touch
      by_contra other
      have far := apart kept List.mem_cons_self e (inner e List.mem_cons_self) less other
      linarith
    by_cases near : e - kept < closeness
    · have sub : (kept :: es).Sublist (kept :: e :: es) :=
        (List.sublist_cons_self e es).cons_cons kept
      obtain ⟨stop, h⟩ := ih (sorted.sublist sub) (fun x member => bounded x (sub.subset member))
        (fun x hx y hy => apart x (sub.subset hx) y (sub.subset hy))
      refine ⟨stop, cells_skip h order near above ?_ fun less => last less near.le⟩
      exact fun x member => bounded x (inner x (List.mem_cons_of_mem _ member))
    · obtain ⟨stop, h⟩ := ih rest (fun x member => bounded x (inner x member))
        (fun x hx y hy => apart x (inner x hx) y (inner y hy))
      have positive := closeness_pos
      have less : kept < e := by linarith
      have far : ¬ |e - kept| < closeness := by rwa [abs_of_nonneg (by linarith)]
      by_cases touch : e - kept ≤ closeness
      · obtain rfl := last less touch
        exact ⟨kept, cells_touch h above bounded order far touch⟩
      · exact ⟨stop, cells_far h above less far (not_le.mp touch)⟩

end Montage
