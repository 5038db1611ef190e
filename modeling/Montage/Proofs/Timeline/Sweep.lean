import Montage.Proofs.Timeline.Grid
import Montage.Proofs.Timeline.Priority

/- The sweep gives every instant to the one who plays then: no candidate begins or ends inside
   a cell, so that its middle speaks for all of it. -/
namespace Montage

theorem midpoint_rat (a b : Rat) : midpoint a b = (a + b) / 2 := by
  change (a + b) / ((2 : Int) : Rat) = (a + b) / 2
  norm_num

theorem midpoint_between {a b : Rat} (less : a < b) : a < midpoint a b ∧ midpoint a b < b := by
  rw [midpoint_rat]
  constructor
  · linarith
  · linarith

theorem holds_iff (c : Contender Rat) (t : Rat) : c.holds t = true ↔ c.low ≤ t ∧ t < c.high := by
  simp [Contender.holds]

theorem mem_contenders {cs : List (Candidate Rat)} {total step : Rat} {c : Contender Rat} :
    c ∈ contenders cs total step ↔
      ∃ k, cs[c.index]? = some k ∧ c = ⟨c.index, k, (k.bounds total step).1, (k.bounds total step).2⟩ := by
  simp only [contenders, List.mem_map, Prod.exists, List.mem_zipIdx_iff_getElem?]
  constructor
  · rintro ⟨k, i, stands, rfl⟩
    exact ⟨k, stands, rfl⟩
  · rintro ⟨k, stands, eq⟩
    exact ⟨k, c.index, stands, eq.symm⟩

/-- Every contender begins and ends on the grid. -/
def Aligned (cs : List (Contender Rat)) (total step : Rat) : Prop :=
  ∀ c ∈ cs, OnGrid total step c.low ∧ OnGrid total step c.high

theorem contenders_aligned {total step : Rat} (cs : List (Candidate Rat)) (inside : 0 ≤ total)
    (positive : 0 < step) : Aligned (contenders cs total step) total step := by
  intro c member
  obtain ⟨k, -, eq⟩ := mem_contenders.mp member
  rw [eq]
  exact ⟨clamp_grid inside positive k.start, clamp_grid inside positive k.stop⟩

/-- Boundaries of contenders, the ends of the timeline among them. -/
theorem mem_boundaries {cs : List (Contender Rat)} {total x : Rat} :
    x ∈ (0 :: total :: cs.flatMap fun c => [c.low, c.high] : List Rat).mergeSort Scalar.totalLe ↔
      x = 0 ∨ x = total ∨ ∃ c ∈ cs, x = c.low ∨ x = c.high := by
  simp [List.mem_mergeSort]

theorem boundaries_sorted (xs : List Rat) : (xs.mergeSort Scalar.totalLe).Pairwise (· ≤ ·) := by
  have trans : ∀ a b c : Rat, Scalar.totalLe a b = true → Scalar.totalLe b c = true →
      Scalar.totalLe a c = true := by
    intro a b c first second
    simp only [Scalar.totalLe_rat, decide_eq_true_eq] at first second ⊢
    exact first.trans second
  have total : ∀ a b : Rat, (Scalar.totalLe a b || Scalar.totalLe b a) = true := by
    intro a b
    simpa using le_total a b
  exact (List.pairwise_mergeSort trans total xs).imp fun h => by simpa using h

/-- A contender that neither begins nor ends between two times holds both or neither. -/
theorem holds_same {c : Contender Rat} {a b u v : Rat} (left : c.low ≤ a ∨ b ≤ c.low)
    (right : c.high ≤ a ∨ b ≤ c.high) (hu : a ≤ u ∧ u < b) (hv : a ≤ v ∧ v < b) :
    c.holds u = c.holds v := by
  rw [Bool.eq_iff_iff, holds_iff, holds_iff]
  have begins : c.low ≤ u ↔ c.low ≤ v := by
    rcases left with left | left
    · exact iff_of_true (left.trans hu.1) (left.trans hv.1)
    · exact iff_of_false (by linarith [hu.2]) (by linarith [hv.2])
  have ends : u < c.high ↔ v < c.high := by
    rcases right with right | right
    · exact iff_of_false (by linarith [hu.1]) (by linarith [hv.1])
    · exact iff_of_true (hu.2.trans_le right) (hv.2.trans_le right)
  rw [begins, ends]

/-- The cells fill the timeline, and contenders begin and end at their ends only. -/
theorem edge_cells {cs : List (Contender Rat)} {total step : Rat} (inside : 0 ≤ total)
    (fine : closeness < step)
    (grid : Aligned cs total step) :
    ∃ stop, (∀ f : Rat × Rat → Option Nat,
        Tiles 0 ((intervals (edges cs total)).map fun c => ⟨c.1, c.2, f c⟩) stop) ∧
      stop ≤ total ∧ total ≤ stop + closeness ∧
      ∀ e ∈ intervals (edges cs total), closeness < e.2 - e.1 ∧ ∀ c ∈ cs,
        (c.low ≤ e.1 ∨ e.2 ≤ c.low) ∧ (c.high ≤ e.1 ∨ e.2 ≤ c.high) := by
  have positive : 0 < step := closeness_pos.trans fine
  have zero : OnGrid total step 0 := ⟨le_refl _, inside, .inr ⟨0, by simp⟩⟩
  have all : ∀ x ∈ (0 :: total :: cs.flatMap fun c => [c.low, c.high] : List Rat).mergeSort
      Scalar.totalLe, OnGrid total step x := by
    intro x member
    rcases mem_boundaries.mp member with rfl | rfl | ⟨c, mem, rfl | rfl⟩
    · exact zero
    · exact ⟨inside, le_refl _, .inl rfl⟩
    · exact (grid c mem).1
    · exact (grid c mem).2
  have listed := @mem_boundaries cs total
  have sorted := boundaries_sorted (0 :: total :: cs.flatMap fun c => [c.low, c.high])
  have form : edges cs total = thinned ((0 :: total :: cs.flatMap fun c => [c.low, c.high] :
      List Rat).mergeSort Scalar.totalLe) := rfl
  rw [form]
  generalize (0 :: total :: cs.flatMap fun c => [c.low, c.high] : List Rat).mergeSort
    Scalar.totalLe = xs at *
  cases xs with
  | nil => simpa using (listed (x := 0)).mpr (.inl rfl)
  | cons first rest =>
    have start : first = 0 := by
      have low := (all first List.mem_cons_self).low
      rcases List.mem_cons.mp ((listed (x := 0)).mpr (.inl rfl)) with same | later
      · exact same.symm
      · exact le_antisymm ((List.pairwise_cons.mp sorted).1 0 later) low
    subst start
    obtain ⟨stop, h⟩ := cells_spec sorted (fun x member => (all x member).high)
      (fun x hx y hy less inner => fine.trans_le (grid_apart positive (all x hx) (all y hy) less inner))
    refine ⟨stop, h.tiles, h.inside, h.reach total (listed.mpr (.inr (.inl rfl))), ?_⟩
    intro e member
    refine ⟨h.wide e member, fun c mem => ?_⟩
    exact ⟨h.empty e member c.low (listed.mpr (.inr (.inr ⟨c, mem, .inl rfl⟩))),
      h.empty e member c.high (listed.mpr (.inr (.inr ⟨c, mem, .inr rfl⟩)))⟩

theorem fold_extend {spans rest : List (Span Rat)} {a m b : Rat} (h : Tiles a spans m)
    (tail : Tiles m rest b) :
    Tiles a (rest.foldl extend spans) b ∧
      (∀ t w, Plays (rest.foldl extend spans) t w ↔ Plays spans t w ∨ Plays rest t w) ∧
      (Alternates spans → Alternates (rest.foldl extend spans)) ∧
      ∀ d : Rat, (∀ s ∈ spans ++ rest, d < s.duration) →
        ∀ s ∈ rest.foldl extend spans, d < s.duration := by
  induction rest generalizing spans m with
  | nil =>
    cases tail
    exact ⟨h, by simp [Plays], id, by simp⟩
  | cons s rest ih =>
    cases tail with
    | cons starts valid tail =>
      obtain ⟨tiles, plays, alternates, -⟩ := extend_tiles (starts ▸ h) valid
      obtain ⟨tiles', plays', alternates', wide'⟩ := ih tiles tail
      refine ⟨tiles', ?_, fun apart => alternates' (alternates apart), ?_⟩
      · intro t w
        rw [List.foldl_cons, plays', plays, or_assoc]
        apply or_congr_right
        rw [← plays_single, ← plays_append]
        rfl
      · intro d long
        apply wide' d
        intro r member
        rcases List.mem_append.mp member with member | member
        · refine extend_wide (starts ▸ h) valid (fun x mem => long x (List.mem_append_left _ mem))
            (long s (by simp)) r member
        · exact long r (List.mem_append_right _ (List.mem_cons_of_mem _ member))

/-- The cells with who plays in each, one after the other. -/
theorem sweep_eq (cs : List (Contender Rat)) (total : Rat) :
    sweep cs total = ((intervals (edges cs total)).map fun e =>
      (⟨e.1, e.2, (winnerAt cs (midpoint e.1 e.2)).map (·.index)⟩ : Span Rat)).foldl extend [] := by
  rw [List.foldl_map]
  rfl

structure Swept (cs : List (Contender Rat)) (total stop : Rat) : Prop where
  tiles : Tiles 0 (sweep cs total) stop
  inside : stop ≤ total
  reach : total ≤ stop + closeness
  alternates : Alternates (sweep cs total)
  wide : ∀ s ∈ sweep cs total, closeness < s.duration
  plays : ∀ t, 0 ≤ t → t < stop → Plays (sweep cs total) t ((winnerAt cs t).map (·.index))

theorem sweep_swept {cs : List (Contender Rat)} {total step : Rat} (inside : 0 ≤ total)
    (fine : closeness < step)
    (grid : Aligned cs total step) :
    ∃ stop, Swept cs total stop := by
  obtain ⟨stop, tiles, high, reach, clear⟩ := edge_cells inside fine grid
  have form := sweep_eq cs total
  have cells := tiles fun e => (winnerAt cs (midpoint e.1 e.2)).map (·.index)
  obtain ⟨tiles', plays, alternates, wide⟩ := fold_extend (.nil 0) cells
  refine ⟨stop, ⟨by rwa [form], high, reach, ?_, ?_, ?_⟩⟩
  · rw [form]
    exact alternates List.isChain_nil
  · rw [form]
    refine wide closeness ?_
    intro s member
    obtain ⟨e, mem, rfl⟩ := List.mem_map.mp member
    exact (clear e mem).1
  · intro t low early
    rw [form, plays]
    right
    obtain ⟨s, member, holds⟩ := tiles_holds cells low early
    refine ⟨s, member, holds, ?_⟩
    have valid := (tiles_member cells member).2.1
    obtain ⟨e, mem, rfl⟩ := List.mem_map.mp member
    have middle := midpoint_between valid
    dsimp only at valid holds middle ⊢
    have same : ∀ c ∈ cs, c.holds (midpoint e.1 e.2) = c.holds t := by
      intro c member
      obtain ⟨left, right⟩ := (clear e mem).2 c member
      exact holds_same left right ⟨middle.1.le, middle.2⟩ holds
    rw [winnerAt_best, winnerAt_best, List.filter_congr same]

end Montage
