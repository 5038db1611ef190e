import Montage.Proofs.Timeline.Flatten

/- The finished spans against a choice made for every time anew: of the candidates that are
   present the lowest track, there the latest start, and then the last in the list. Where every
   boundary is a multiple of the step nothing is lost to the grid, to gaps or to the tail. -/
namespace Montage

namespace Candidate

/-- The interval on the grid, kept inside the timeline, holds the time. -/
def Covers (total step t : Rat) (c : Candidate Rat) : Prop :=
  (c.bounds total step).1 ≤ t ∧ t < (c.bounds total step).2

def PlaysAt (t : Rat) (c : Candidate Rat) : Prop := c.start ≤ t ∧ t < c.stop

instance (t : Rat) (c : Candidate Rat) : Decidable (c.PlaysAt t) :=
  inferInstanceAs (Decidable (c.start ≤ t ∧ t < c.stop))

end Candidate

def FirstChoice (cs : List (Candidate Rat)) (present : Candidate Rat → Prop) (i : Nat) : Prop :=
  ∃ c, cs[i]? = some c ∧ present c ∧ ∀ j d, cs[j]? = some d → present d →
    c.track < d.track ∨ c.track = d.track ∧ (d.start < c.start ∨ d.start = c.start ∧ j ≤ i)

/-- Nobody is chosen exactly where nobody is present. -/
def Chosen (cs : List (Candidate Rat)) (present : Candidate Rat → Prop) : Option Nat → Prop
  | some i => FirstChoice cs present i
  | none => ∀ c ∈ cs, ¬ present c

structure Regular (cs : List (Candidate Rat)) (total step : Rat) : Prop where
  lasting : ∀ c ∈ cs, c.start < c.stop
  starts : ∀ c ∈ cs, ∃ n : Int, c.start = n * step
  stops : ∀ c ∈ cs, ∃ n : Int, c.stop = n * step
  whole : ∃ n : Int, total = n * step

section Choice
variable {cs : List (Candidate Rat)} {present present' : Candidate Rat → Prop} {w w' : Option Nat}

theorem firstChoice_unique {i j : Nat} (hi : FirstChoice cs present i)
    (hj : FirstChoice cs present j) : i = j := by
  obtain ⟨c, at_i, pc, above⟩ := hi
  obtain ⟨d, at_j, pd, above'⟩ := hj
  have first := above j d at_j pd
  have second := above' i c at_i pc
  rcases first with lower | ⟨same, later | ⟨start, order⟩⟩
  · omega
  · rcases second with lower | ⟨-, later' | ⟨start', -⟩⟩
    · omega
    · linarith
    · linarith
  · rcases second with lower | ⟨-, later' | ⟨-, order'⟩⟩
    · omega
    · linarith
    · omega

theorem chosen_unique (first : Chosen cs present w) (second : Chosen cs present w') : w = w' := by
  have apart : ∀ i, Chosen cs present none → ¬ Chosen cs present (some i) := by
    rintro i nobody ⟨c, at_i, pc, -⟩
    exact nobody c (List.mem_of_getElem? at_i) pc
  cases w with
  | none =>
    cases w' with
    | none => rfl
    | some j => exact absurd second (apart j first)
  | some i =>
    cases w' with
    | none => exact absurd first (apart i second)
    | some j => exact congrArg some (firstChoice_unique first second)

theorem chosen_congr (same : ∀ c ∈ cs, present c ↔ present' c) (h : Chosen cs present w) :
    Chosen cs present' w := by
  cases w with
  | none => exact fun c member pc => h c member ((same c member).mpr pc)
  | some i =>
    obtain ⟨c, at_i, pc, above⟩ := h
    refine ⟨c, at_i, (same c (List.mem_of_getElem? at_i)).mp pc, ?_⟩
    intro j d at_j pd
    exact above j d at_j ((same d (List.mem_of_getElem? at_j)).mpr pd)

end Choice

section Winner
variable {cs : List (Candidate Rat)} {total step t : Rat}

theorem contender_holds_iff {c : Contender Rat} (member : c ∈ contenders cs total step) :
    c.holds t = true ↔ c.candidate.Covers total step t := by
  obtain ⟨k, -, eq⟩ := mem_contenders.mp member
  rw [holds_iff, eq]
  rfl

theorem contender_at (total step : Rat) {j : Nat} {d : Candidate Rat} (stands : cs[j]? = some d) :
    (⟨j, d, (d.bounds total step).1, (d.bounds total step).2⟩ : Contender Rat) ∈
      contenders cs total step :=
  mem_contenders.mpr ⟨d, stands, rfl⟩

theorem contenders_sorted (cs : List (Candidate Rat)) (total step : Rat) :
    (contenders cs total step).Pairwise fun a b => a.index < b.index := by
  have places : (contenders cs total step).map (·.index) = List.range cs.length := by
    unfold contenders
    rw [List.map_map, List.range_eq_range', ← List.zipIdx_map_snd 0 cs]
    rfl
  have sorted : (List.range cs.length).Pairwise (· < ·) := List.pairwise_lt_range
  rw [← places] at sorted
  exact List.pairwise_map.mp sorted

/-- Of those that would take over from the winner none stands after it. -/
theorem winner_last {b c : Contender Rat}
    (found : winnerAt (contenders cs total step) t = some b) (member : c ∈ contenders cs total step)
    (holds : c.holds t = true) (takes : b.candidate.takesOver c.candidate = true) :
    c.index ≤ b.index := by
  obtain ⟨-, -, -, last⟩ := winnerAt_spec found
  have sorted := (contenders_sorted cs total step).filter fun c =>
    c.holds t && b.candidate.takesOver c.candidate
  have listed : c ∈ (contenders cs total step).filter fun c =>
      c.holds t && b.candidate.takesOver c.candidate := by
    simp [member, holds, takes]
  obtain ⟨front, form⟩ := List.getLast?_eq_some_iff.mp last
  rw [form] at sorted listed
  rcases List.mem_append.mp listed with early | final
  · exact ((List.pairwise_append.mp sorted).2.2 c early b List.mem_cons_self).le
  · rw [List.mem_singleton.mp final]

theorem winner_first {b : Contender Rat}
    (found : winnerAt (contenders cs total step) t = some b) :
    FirstChoice cs (Candidate.Covers total step t) b.index := by
  obtain ⟨member, holds, above, -⟩ := winnerAt_spec found
  obtain ⟨k, stands, eq⟩ := mem_contenders.mp member
  have own : b.candidate = k := by rw [eq]
  refine ⟨k, stands, ?_, ?_⟩
  · rw [← own]
    exact (contender_holds_iff member).mp holds
  · intro j d at_j covers
    have listed := contender_at total step at_j
    have held := (contender_holds_iff listed).mpr covers
    have gives := above _ listed held
    rw [own, Candidate.takesOver_iff] at gives
    rcases gives with lower | ⟨same, earlier⟩
    · exact .inl lower
    · refine .inr ⟨same, ?_⟩
      rcases lt_or_eq_of_le earlier with less | together
      · exact .inl less
      · right
        refine ⟨together, winner_last found listed held ?_⟩
        rw [own, Candidate.takesOver_iff]
        exact .inr ⟨same.symm, together.ge⟩

theorem winner_chosen (cs : List (Candidate Rat)) (total step t : Rat) :
    Chosen cs (Candidate.Covers total step t)
      ((winnerAt (contenders cs total step) t).map (·.index)) := by
  cases found : winnerAt (contenders cs total step) t with
  | some b => exact winner_first found
  | none =>
    have silent := (winnerAt_none_iff _ t).mp found
    intro c member covers
    obtain ⟨i, stands⟩ := List.mem_iff_getElem?.mp member
    have listed := contender_at total step stands
    have held := (contender_holds_iff listed).mpr covers
    rw [silent _ listed] at held
    cases held

end Winner

section Regular
variable {cs : List (Candidate Rat)} {total step stop t : Rat}

theorem snap_multiple (n : Int) (positive : 0 < step) : snap (n * step) step = n * step := by
  have value : snap (n * step) step = Scalar.round (n * step / step) * step :=
    if_neg (not_le.mpr positive)
  have whole : (n : Rat) * step / step = n := mul_div_cancel_right₀ _ positive.ne'
  obtain ⟨m, round, above, below⟩ := Scalar.round_rat (n : Rat)
  have upper : (m : Rat) < ((n + 1 : Int) : Rat) := by
    push_cast
    linarith
  have lower : (n : Rat) < ((m + 1 : Int) : Rat) := by
    push_cast
    linarith
  have same : m = n := by
    have upper' := Int.cast_lt.mp upper
    have lower' := Int.cast_lt.mp lower
    omega
  rw [value, whole, round, same]

/-- A candidate that begins and ends on the grid covers the times at which it plays. -/
theorem covers_iff_playsAt {c : Candidate Rat} (positive : 0 < step)
    (starts : ∃ n : Int, c.start = n * step) (stops : ∃ n : Int, c.stop = n * step) (low : 0 ≤ t)
    (high : t < total) : c.Covers total step t ↔ c.PlaysAt t := by
  obtain ⟨n, start⟩ := starts
  obtain ⟨m, stop⟩ := stops
  have begins : snap c.start step = c.start := by rw [start, snap_multiple n positive]
  have ends : snap c.stop step = c.stop := by rw [stop, snap_multiple m positive]
  change Scalar.clamp 0 total (snap c.start step) ≤ t ∧
    t < Scalar.clamp 0 total (snap c.stop step) ↔ c.start ≤ t ∧ t < c.stop
  rw [begins, ends, clamp_le_iff low high, ← not_le, clamp_le_iff low high, not_le]

theorem intervals_ends (es : List Rat) : ∀ e ∈ intervals es, e.1 ∈ es ∧ e.2 ∈ es := by
  induction es with
  | nil => simp [intervals]
  | cons a es ih =>
    cases es with
    | nil => simp [intervals]
    | cons b es =>
      have later : ∀ e ∈ intervals (b :: es), e.1 ∈ a :: b :: es ∧ e.2 ∈ a :: b :: es := by
        intro e member
        obtain ⟨left, right⟩ := ih e member
        exact ⟨List.mem_cons_of_mem a left, List.mem_cons_of_mem a right⟩
      intro e member
      rw [intervals] at member
      split at member
      · exact later e member
      · rcases List.mem_cons.mp member with rfl | member
        · simp
        · exact later e member

/-- The sweep ends at a boundary, unless nothing is swept. -/
theorem swept_stop {cs : List (Contender Rat)} {stop : Rat} (inside : 0 ≤ total)
    (fine : closeness < step) (grid : Aligned cs total step) (swept : Swept cs total stop) :
    stop = 0 ∨ stop ∈ edges cs total := by
  obtain ⟨last, tiles, -, -, -⟩ := edge_cells inside fine grid
  have cells := tiles fun e => (winnerAt cs (midpoint e.1 e.2)).map (·.index)
  obtain ⟨joined, -⟩ := fold_extend (.nil 0) cells
  rw [← sweep_eq] at joined
  have same : stop = last := (tiles_end swept.tiles).trans (tiles_end joined).symm
  have ends := tiles_end cells
  rw [List.getLast?_map, Option.map_map] at ends
  cases final : (intervals (edges cs total)).getLast? with
  | none =>
    rw [final] at ends
    exact .inl (same.trans (by simpa using ends))
  | some e =>
    rw [final] at ends
    rw [same, ends]
    exact .inr (intervals_ends _ e (List.mem_of_getLast? final)).2

theorem edges_multiple (regular : Regular cs total step) (inside : 0 ≤ total) (positive : 0 < step) :
    ∀ x ∈ edges (contenders cs total step) total, ∃ n : Int, x = n * step := by
  intro x member
  rcases (edges_grid inside (contenders_aligned cs inside positive) x member).regular with
    rfl | multiple
  · exact regular.whole
  · exact multiple

theorem cells_wide (regular : Regular cs total step) (inside : 0 ≤ total) (fine : closeness < step) :
    ∀ e ∈ intervals (edges (contenders cs total step) total), step - closeness < e.2 - e.1 := by
  have small := closeness_pos
  have positive := small.trans fine
  have grid := contenders_aligned cs inside positive
  obtain ⟨-, -, -, -, clear⟩ := edge_cells inside fine grid
  intro e member
  obtain ⟨left, right⟩ := intervals_ends _ e member
  have multiple := edges_multiple regular inside positive
  have less : e.1 < e.2 := by linarith [(clear e member).1]
  linarith [multiples_apart positive (multiple _ left) (multiple _ right) less]

/-- The spans of the sweep reach the end of the timeline, and none is shorter than a step. -/
theorem regular_sweep (regular : Regular cs total step) (lasts : closeness < total)
    (fine : closeness < step) :
    Swept (contenders cs total step) total total ∧
      ∀ s ∈ sweep (contenders cs total step) total, step - closeness < s.duration := by
  have small := closeness_pos
  have positive := small.trans fine
  have inside : 0 ≤ total := by linarith
  have grid := contenders_aligned cs inside positive
  obtain ⟨stop, swept⟩ := sweep_swept inside fine grid
  obtain ⟨last, tiles, -, -, -⟩ := edge_cells inside fine grid
  have cells := tiles fun e =>
    (winnerAt (contenders cs total step) (midpoint e.1 e.2)).map (·.index)
  obtain ⟨-, -, -, wide⟩ := fold_extend (.nil 0) cells
  rw [← sweep_eq] at wide
  have multiple : ∃ n : Int, stop = n * step := by
    rcases swept_stop inside fine grid swept with rfl | member
    · exact ⟨0, by simp⟩
    · exact edges_multiple regular inside positive _ member
  have whole : stop = total := by
    by_contra short
    have less : stop < total := lt_of_le_of_ne swept.inside short
    have far := multiples_apart positive multiple regular.whole less
    linarith [swept.reach]
  refine ⟨whole ▸ swept, wide _ ?_⟩
  intro s member
  obtain ⟨e, mem, rfl⟩ := List.mem_map.mp (by rwa [List.nil_append] at member)
  exact cells_wide regular inside fine e mem

/-- No gap between clips on the grid is shorter than a step. -/
theorem regular_kept (regular : Regular cs total step) (lasts : closeness < total)
    (fine : closeness < step) {i : Nat} {s : Span Rat}
    (stands : (sweep (contenders cs total step) total)[i]? = some s) :
    isGiven cs step (sweep (contenders cs total step) total).length i s = false := by
  have small := closeness_pos
  have positive := small.trans fine
  obtain ⟨swept, -⟩ := regular_sweep regular lasts fine
  have member := List.mem_of_getElem? stands
  obtain ⟨low, valid, high⟩ := tiles_member swept.tiles member
  have middle := midpoint_between valid
  by_contra given
  simp only [isGiven, Bool.not_eq_false, Bool.and_eq_true, Option.isNone_iff_eq_none] at given
  obtain ⟨⟨nobody, -⟩, brief⟩ := given
  obtain ⟨c, mc, d, md, before, after, short⟩ := isShortGap_iff.mp brief
  have touch : c.stop = midpoint s.start s.stop := by
    by_contra apart
    have less : c.stop < d.start := (lt_of_le_of_ne before apart).trans_le after
    linarith [multiples_apart positive (regular.stops c mc) (regular.starts d md) less]
  have lasting := regular.lasting c mc
  -- just before the middle the first of the two still plays, so that the span is not empty
  have inner : s.Holds (max s.start c.start) := ⟨le_max_left _ _, max_lt valid (by linarith)⟩
  have plays : c.PlaysAt (max s.start c.start) :=
    ⟨le_max_right _ _, max_lt (by linarith) lasting⟩
  have covers := (covers_iff_playsAt positive (regular.starts c mc) (regular.stops c mc)
    (low.trans inner.1) (inner.2.trans_le high)).mpr plays
  obtain ⟨k, at_k⟩ := List.mem_iff_getElem?.mp mc
  exact nobody_holds swept member nobody inner _ (contender_at total step at_k) covers

theorem absorb_kept {spans : List (Span Rat)}
    (kept : ∀ i s, spans[i]? = some s → isGiven cs step spans.length i s = false) :
    absorbShortGaps cs step spans = spans.foldl extend [] := by
  have same : ∀ out, ∀ x ∈ spans.zipIdx 0,
      pass (isGiven cs step spans.length) out x.1 x.2 = extend out x.1 := by
    intro out x member
    have free := kept x.2 x.1 (List.mem_zipIdx_iff_getElem?.mp member)
    simp [pass, free]
  rw [absorb_eq, List.foldl_ext _ _ _ same]
  conv_rhs => rw [← List.zipIdx_map_fst 0 spans, List.foldl_map]

theorem foldTail_kept {spans : List (Span Rat)} (wide : ∀ s ∈ spans, step - closeness < s.duration) :
    foldTail step spans = spans := by
  unfold foldTail
  split
  · rename_i tail before last _
    have long := wide tail (List.mem_of_getLast? last)
    rw [if_neg (not_lt.mpr long.le)]
  · rfl

theorem regular_flatten (regular : Regular cs total step) (lasts : closeness < total)
    (fine : closeness < step) :
    Tiles 0 (flatten cs total step) total ∧ ∀ t w, Plays (flatten cs total step) t w ↔
      Plays (sweep (contenders cs total step) total) t w := by
  have small := closeness_pos
  obtain ⟨swept, wide⟩ := regular_sweep regular lasts fine
  obtain ⟨tiles, plays, -, long⟩ := fold_extend (.nil 0) swept.tiles
  have form : flatten cs total step =
      (sweep (contenders cs total step) total).foldl extend [] := by
    unfold flatten
    rw [if_neg (by linarith), absorb_kept fun i s stands => regular_kept regular lasts fine stands]
    exact foldTail_kept (long _ (by simpa using wide))
  rw [form]
  refine ⟨tiles, ?_⟩
  intro t w
  rw [plays]
  simp [Plays]

end Regular

/-- Every span plays the first choice among the candidates that cover a time of it, where any does
and the end is a step away. When candidates begin before they end, all on the grid, the spans are
the choice itself: each time has one span, and with it the first choice among those that play. -/
theorem flatten_pointwise (cs : List (Candidate Rat)) {total step : Rat} (lasts : closeness < total)
    (fine : closeness < step) :
    (∀ t, 0 ≤ t → t ≤ total - step →
      ∃ s, (flatten cs total step).filter (fun s => decide (s.Holds t)) = [s]) ∧
    (∀ s ∈ flatten cs total step, ∀ t, s.Holds t → t ≤ total - step →
      (∃ c ∈ cs, c.Covers total step t) →
        ∃ i, s.winner = some i ∧ FirstChoice cs (Candidate.Covers total step t) i) ∧
    (Regular cs total step → ∀ t, 0 ≤ t → t < total →
      ∃ s, (flatten cs total step).filter (fun s => decide (s.Holds t)) = [s] ∧
        Chosen cs (Candidate.PlaysAt t) s.winner) := by
  have small := closeness_pos
  have positive := small.trans fine
  obtain ⟨stop, swept, tiles, -⟩ := flatten_tiles cs (small.trans lasts) fine
  refine ⟨?_, ?_, ?_⟩
  · intro t low early
    exact tiles_filter tiles low (by linarith [swept.reach])
  · intro s member t holds early covered
    have low := (tiles_member tiles member).1.trans holds.1
    cases found : winnerAt (contenders cs total step) t with
    | none =>
      have silent := winner_chosen cs total step t
      rw [found] at silent
      obtain ⟨c, mem, covers⟩ := covered
      exact absurd covers (silent c mem)
    | some b =>
      have plays := flatten_covered (small.trans lasts) fine low early found
      exact ⟨b.index, plays_unique tiles ⟨s, member, holds, rfl⟩ plays, winner_first found⟩
  · intro regular t low high
    obtain ⟨whole, plays⟩ := regular_flatten regular lasts fine
    obtain ⟨swept, -⟩ := regular_sweep regular lasts fine
    obtain ⟨s, only⟩ := tiles_filter whole low high
    refine ⟨s, only, ?_⟩
    obtain ⟨member, holds⟩ := List.mem_filter.mp (only ▸ List.mem_cons_self)
    have winner := plays_unique whole ⟨s, member, of_decide_eq_true holds, rfl⟩
      ((plays t _).mpr (swept.plays t low high))
    rw [winner]
    refine chosen_congr ?_ (winner_chosen cs total step t)
    intro c mem
    exact covers_iff_playsAt positive (regular.starts c mem) (regular.stops c mem) low high

/-- Two clips that begin together on the top track, a longer one below, and one after a gap. -/
def overlapping : List (Candidate Rat) := [⟨1, 0, 4⟩, ⟨0, 1, 3⟩, ⟨0, 1, 2⟩, ⟨1, 6, 8⟩]

theorem overlapping_regular : Regular overlapping 8 (1 / 2) where
  lasting := by decide +kernel
  starts := by
    intro c member
    refine ⟨2 * c.start.floor, ?_⟩
    revert c
    decide +kernel
  stops := by
    intro c member
    refine ⟨2 * c.stop.floor, ?_⟩
    revert c
    decide +kernel
  whole := ⟨16, by norm_num⟩

theorem overlapping_choice : FirstChoice overlapping (Candidate.PlaysAt (3 / 2)) 2 := by
  have above : ∀ x ∈ overlapping.zipIdx, x.1.PlaysAt (3 / 2) → 0 < x.1.track ∨
      0 = x.1.track ∧ (x.1.start < 1 ∨ x.1.start = 1 ∧ x.2 ≤ 2) := by
    decide +kernel
  refine ⟨⟨0, 1, 2⟩, rfl, by decide +kernel, ?_⟩
  intro j d at_j plays
  exact above (d, j) (List.mem_zipIdx_iff_getElem?.mpr at_j) plays

theorem flatten_pointwise_overlapping :
    ∃ s, (flatten overlapping 8 (1 / 2)).filter (fun s => decide (s.Holds (3 / 2))) = [s] ∧
      s.winner = some 2 := by
  have lasts : (closeness : Rat) < 8 := by decide +kernel
  have fine : (closeness : Rat) < 1 / 2 := by decide +kernel
  obtain ⟨-, -, reference⟩ := flatten_pointwise overlapping lasts fine
  obtain ⟨s, only, chosen⟩ :=
    reference overlapping_regular (3 / 2) (by norm_num) (by norm_num)
  exact ⟨s, only, chosen_unique chosen overlapping_choice⟩

end Montage
