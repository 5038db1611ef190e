import Montage.Proofs.Timeline.Pointwise

/- Spans without slivers. No pass over the spans makes a new beginning, so that they begin on the
   grid as the cells do; a last span too short for a step is joined to the one before it. -/
namespace Montage

/-- Spans begin at multiples of the step, and neighbours differ. -/
structure Neat (step : Rat) (spans : List (Span Rat)) : Prop where
  begins : ∀ s ∈ spans, ∃ n : Int, s.start = n * step
  alternates : Alternates spans

section Neat
variable {step : Rat} {spans rest : List (Span Rat)} {s : Span Rat}

theorem neat_nil : Neat step [] := ⟨by simp, List.isChain_nil⟩

theorem neat_lasting (h : Neat step (spans ++ [s])) (stop : Rat) :
    Neat step (spans ++ [s.lasting stop]) := by
  refine ⟨?_, alternates_lasting h.alternates stop⟩
  intro r member
  rcases List.mem_append.mp member with member | member
  · exact h.begins r (List.mem_append_left _ member)
  · rw [List.mem_singleton.mp member]
    exact h.begins s (by simp)

theorem neat_extend (h : Neat step spans) (begins : ∃ n : Int, s.start = n * step) :
    Neat step (extend spans s) := by
  refine ⟨?_, extend_alternates h.alternates s⟩
  rcases List.eq_nil_or_concat' spans with rfl | ⟨before, last, rfl⟩
  · simpa [extend] using begins
  · rw [extend_snoc]
    split
    · exact (neat_lasting h s.stop).begins
    · intro r member
      rcases List.mem_append.mp member with member | member
      · exact h.begins r member
      · rw [List.mem_singleton.mp member]
        exact begins

theorem neat_fold (h : Neat step spans) (begins : ∀ s ∈ rest, ∃ n : Int, s.start = n * step) :
    Neat step (rest.foldl extend spans) := by
  induction rest generalizing spans with
  | nil => exact h
  | cons s rest ih =>
    obtain ⟨first, later⟩ := List.forall_mem_cons.mp begins
    exact ih (neat_extend h first) later

theorem neat_pass {given : Nat → Span Rat → Bool} {i : Nat} (h : Neat step spans)
    (begins : ∃ n : Int, s.start = n * step) : Neat step (pass given spans s i) := by
  unfold pass
  split
  · rcases List.eq_nil_or_concat' spans with rfl | ⟨before, last, rfl⟩
    · exact neat_extend h begins
    · simp only [List.getLast?_concat, List.dropLast_concat]
      exact neat_lasting h s.stop
  · exact neat_extend h begins

theorem neat_absorb (cs : List (Candidate Rat)) (h : Neat step spans) :
    Neat step (absorbShortGaps cs step spans) := by
  have all : ∀ x ∈ spans.zipIdx 0, ∃ n : Int, x.1.start = n * step := by
    intro x member
    exact h.begins x.1 (List.mem_of_getElem? (List.mem_zipIdx_iff_getElem?.mp member))
  rw [absorb_eq]
  generalize isGiven cs step spans.length = given
  generalize spans.zipIdx 0 = xs at all
  have grown : ∀ out, Neat step out →
      Neat step (xs.foldl (fun out x => pass given out x.1 x.2) out) := by
    induction xs with
    | nil => exact fun out neat => neat
    | cons x xs ih =>
      obtain ⟨first, later⟩ := List.forall_mem_cons.mp all
      exact fun out neat => ih later _ (neat_pass neat first)
  exact grown [] neat_nil

theorem neat_foldTail (h : Neat step spans) : Neat step (foldTail step spans) := by
  rcases List.eq_nil_or_concat' spans with rfl | ⟨front, tail, rfl⟩
  · exact h
  rcases List.eq_nil_or_concat' front with rfl | ⟨front, before, rfl⟩
  · exact h
  rw [foldTail_concat]
  split
  · have inner : Neat step (front ++ [before]) := by
      refine ⟨fun s member => h.begins s (List.mem_append_left _ member), ?_⟩
      exact (List.isChain_append.mp h.alternates).1
    exact neat_lasting inner tail.stop
  · exact h

/-- A span that is followed by another lasts a step at least. -/
theorem neat_inner_wide {a b : Rat} {tail : Span Rat} (positive : 0 < step)
    (h : Neat step (spans ++ [tail])) (tiles : Tiles a (spans ++ [tail]) b) :
    ∀ s ∈ spans, step ≤ s.duration := by
  intro s member
  obtain ⟨i, stands⟩ := List.mem_iff_getElem?.mp member
  have inside := (List.getElem?_eq_some_iff.mp stands).1
  have at_i : (spans ++ [tail])[i]? = some s := by rwa [List.getElem?_append_left inside]
  have further : i + 1 < (spans ++ [tail]).length := by simpa using inside
  have next := List.getElem?_eq_getElem further
  generalize (spans ++ [tail])[i + 1] = r at next
  have touch := tiles_next tiles at_i next
  have valid := (tiles_member tiles (List.mem_of_getElem? at_i)).2.1
  rw [Span.duration, ← touch]
  exact multiples_apart positive (h.begins s (List.mem_of_getElem? at_i))
    (h.begins r (List.mem_of_getElem? next)) (touch ▸ valid)

/-- Joining the tail leaves no span shorter than a step, unless there is only one. -/
theorem foldTail_wide {stop : Rat} (positive : 0 < step) (h : Neat step spans)
    (tiles : Tiles 0 spans stop) :
    (foldTail step spans).length = 1 ∨
      ∀ s ∈ foldTail step spans, step - closeness ≤ s.duration := by
  have small := closeness_pos
  rcases List.eq_nil_or_concat' spans with rfl | ⟨front, tail, rfl⟩
  · exact .inr (by simp [foldTail])
  rcases List.eq_nil_or_concat' front with rfl | ⟨front, before, rfl⟩
  · exact .inl rfl
  right
  have inner := neat_inner_wide positive h tiles
  rw [foldTail_concat]
  intro s member
  split at member
  · rcases List.mem_append.mp member with member | member
    · linarith [inner s (List.mem_append_left _ member)]
    · have first := inner before (by simp)
      obtain ⟨kept, valid, -⟩ := tiles_snoc.mp tiles
      have touch := (tiles_snoc.mp kept).2.2
      rw [List.mem_singleton.mp member]
      change step - closeness ≤ tail.stop - before.start
      change step ≤ before.stop - before.start at first
      linarith
  · rename_i long
    rcases List.mem_append.mp member with member | member
    · linarith [inner s member]
    · rw [List.mem_singleton.mp member]
      exact not_lt.mp long

end Neat

/-- What the finished spans are: at least one, one after the other from nought to the end of the
timeline, each beginning on the grid and none a sliver. -/
structure Partitioned (total step : Rat) (spans : List (Span Rat)) (stop : Rat) : Prop where
  nonempty : spans ≠ []
  tiles : Tiles 0 spans stop
  reach : |stop - total| ≤ closeness
  alternates : Alternates spans
  begins : ∀ s ∈ spans, ∃ n : Int, s.start = n * step
  wide : 1 < spans.length → ∀ s ∈ spans, step - closeness ≤ s.duration

variable {total step : Rat}

theorem sweep_neat (cs : List (Candidate Rat)) (inside : 0 ≤ total) (fine : closeness < step) :
    Neat step (sweep (contenders cs total step) total) := by
  have small := closeness_pos
  have grid := contenders_aligned cs inside (small.trans fine)
  obtain ⟨stop, tiles, high, -, clear⟩ := edge_cells inside fine grid
  have cells := tiles fun e =>
    (winnerAt (contenders cs total step) (midpoint e.1 e.2)).map (·.index)
  rw [sweep_eq]
  refine neat_fold neat_nil ?_
  intro s member
  have bounds := tiles_member cells member
  obtain ⟨e, mem, rfl⟩ := List.mem_map.mp member
  -- a cell begins before the timeline ends, and only that end may lie beside the grid
  have early : e.1 ≠ total := (bounds.2.1.trans_le (bounds.2.2.trans high)).ne
  exact (edges_grid inside grid e.1 (intervals_ends _ e mem).1).regular.resolve_left early

theorem flatten_partitioned (cs : List (Candidate Rat)) (lasts : closeness < total)
    (fine : closeness < step) :
    ∃ stop, Partitioned total step (flatten cs total step) stop := by
  have small := closeness_pos
  have positive : 0 < total := small.trans lasts
  have neat := neat_absorb cs (sweep_neat cs positive.le fine)
  obtain ⟨stop, swept, tiles, -⟩ := flatten_tiles cs positive fine
  obtain ⟨joined, -⟩ := absorb_plays cs step swept.tiles swept.alternates
  have form : flatten cs total step =
      foldTail step (absorbShortGaps cs step (sweep (contenders cs total step) total)) :=
    if_neg (not_le.mpr positive)
  have reach := swept.reach
  have inside := swept.inside
  have folded := neat_foldTail neat
  have wide := foldTail_wide (small.trans fine) neat joined
  rw [← form] at folded wide
  refine ⟨stop, ?_, tiles, ?_, folded.alternates, folded.begins, ?_⟩
  · intro none
    rw [none] at tiles
    have last := tiles_end tiles
    simp at last
    linarith
  · rw [abs_le]
    constructor
    · linarith
    · linarith
  · intro several
    exact wide.resolve_left several.ne'

theorem tiles_total {spans : List (Span Rat)} {a b : Rat} (h : Tiles a spans b) :
    (spans.map (·.duration)).sum = b - a := by
  induction h with
  | nil => simp
  | @cons a b s rest starts valid tail ih =>
    rw [List.map_cons, List.sum_cons, ih, Span.duration, starts]
    linarith

theorem flatten_total (cs : List (Candidate Rat)) (positive : 0 < total) (fine : closeness < step) :
    |((flatten cs total step).map (·.duration)).sum - total| ≤ closeness := by
  have small := closeness_pos
  rcases le_or_gt total closeness with brief | lasts
  · rw [flatten_brief (small.trans fine) brief, List.map_nil, List.sum_nil, abs_le]
    constructor
    · linarith
    · linarith
  · obtain ⟨stop, h⟩ := flatten_partitioned cs lasts fine
    rw [tiles_total h.tiles, sub_zero]
    exact h.reach

end Montage
