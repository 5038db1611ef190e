import Montage.Proofs.Timeline.Sweep

/- Gaps: stretches of the timeline between two candidates that still have a length on the grid,
   met by no other. They are the spans of the sweep in which nobody plays and which have a
   neighbour on either side. -/
namespace Montage

/-- A contender that still has a length on the grid. -/
def Contender.Visible (c : Contender Rat) : Prop := closeness < c.high - c.low

instance (c : Contender Rat) : Decidable c.Visible :=
  inferInstanceAs (Decidable (closeness < c.high - c.low))

structure Gap (cs : List (Contender Rat)) (a b : Rat) : Prop where
  before : ∃ c ∈ cs, c.Visible ∧ c.high = a
  after : ∃ c ∈ cs, c.Visible ∧ c.low = b
  clear : ∀ c ∈ cs, c.Visible → c.high ≤ a ∨ b ≤ c.low

variable {cs : List (Contender Rat)} {total step stop a b t : Rat} {s : Span Rat} {i : Nat}

/-- A contender of any length is visible, or lies at the very end of the timeline. -/
theorem visible_or_late (fine : closeness < step) {c : Contender Rat}
    (grid : OnGrid total step c.low ∧ OnGrid total step c.high) (less : c.low < c.high) :
    c.Visible ∨ c.high = total ∧ total - closeness ≤ c.low := by
  by_cases inner : c.high = total
  · by_cases wide : closeness < c.high - c.low
    · exact .inl wide
    · exact .inr ⟨inner, by linarith⟩
  · left
    exact fine.trans_le (grid_apart (closeness_pos.trans fine) grid.1 grid.2 less inner)

/-- Whoever plays in a span holds all of it. -/
theorem winner_holds (swept : Swept cs total stop)
    (distinct : ∀ c ∈ cs, ∀ d ∈ cs, c.index = d.index → c = d) {w : Nat}
    (member : s ∈ sweep cs total) (winner : s.winner = some w) :
    ∃ c ∈ cs, c.index = w ∧ c.low ≤ s.start ∧ s.stop ≤ c.high := by
  have bounds := tiles_member swept.tiles member
  have held : ∀ t, s.Holds t → ∃ c ∈ cs, c.index = w ∧ c.low ≤ t ∧ t < c.high := by
    intro t holds
    have plays := swept.plays t (bounds.1.trans holds.1) (holds.2.trans_le bounds.2.2)
    have same := plays_unique swept.tiles plays ⟨s, member, holds, winner⟩
    obtain ⟨c, found, rfl⟩ := Option.map_eq_some_iff.mp same
    obtain ⟨mem, at_t, -⟩ := winnerAt_spec found
    exact ⟨c, mem, rfl, (holds_iff c t).mp at_t⟩
  obtain ⟨c, mem, index, low, high⟩ := held s.start ⟨le_refl _, bounds.2.1⟩
  refine ⟨c, mem, index, low, ?_⟩
  by_contra short
  obtain ⟨d, mem', index', low', high'⟩ := held c.high ⟨high.le, not_le.mp short⟩
  rw [distinct d mem' c mem (index'.trans index.symm)] at high'
  exact lt_irrefl _ high'

/-- In a span of nobody no contender holds any time. -/
theorem nobody_holds (swept : Swept cs total stop) (member : s ∈ sweep cs total)
    (nobody : s.winner = none) (holds : s.Holds t) : ∀ c ∈ cs, ¬ (c.low ≤ t ∧ t < c.high) := by
  have bounds := tiles_member swept.tiles member
  have plays := swept.plays t (bounds.1.trans holds.1) (holds.2.trans_le bounds.2.2)
  have same := plays_unique swept.tiles plays ⟨s, member, holds, nobody⟩
  have none := (winnerAt_none_iff cs t).mp (Option.map_eq_none_iff.mp same)
  intro c mem between
  have refused := none c mem
  rw [(holds_iff c t).mpr between] at refused
  cases refused

/-- Before a span of nobody somebody plays, up to its start. -/
theorem visible_before (swept : Swept cs total stop) (fine : closeness < step)
    (grid : Aligned cs total step)
    (distinct : ∀ c ∈ cs, ∀ d ∈ cs, c.index = d.index → c = d)
    (stands : (sweep cs total)[i]? = some s) (nobody : s.winner = none) (later : 0 < i) :
    ∃ c ∈ cs, c.Visible ∧ c.high = s.start := by
  have member := List.mem_of_getElem? stands
  have bounds := tiles_member swept.tiles member
  obtain ⟨p, -, mem, touch, other⟩ := span_before swept.tiles swept.alternates stands later
  have length := (tiles_member swept.tiles mem).2.1
  obtain ⟨w, plays⟩ := Option.ne_none_iff_exists'.mp (nobody ▸ other)
  obtain ⟨c, inside, -, low, high⟩ := winner_holds swept distinct mem plays
  have free := nobody_holds swept member nobody ⟨le_refl _, bounds.2.1⟩ c inside
  have last : c.high = s.start := by
    by_contra different
    apply free
    exact ⟨by linarith, lt_of_le_of_ne (touch ▸ high) (Ne.symm different)⟩
  refine ⟨c, inside, ?_, last⟩
  rcases visible_or_late fine (grid c inside) (by linarith) with visible | ⟨late, -⟩
  · exact visible
  · linarith [swept.inside]

/-- After a span of nobody somebody plays, from its end on. -/
theorem visible_after (swept : Swept cs total stop)
    (distinct : ∀ c ∈ cs, ∀ d ∈ cs, c.index = d.index → c = d)
    (stands : (sweep cs total)[i]? = some s) (nobody : s.winner = none)
    (earlier : i + 1 < (sweep cs total).length) : ∃ c ∈ cs, c.Visible ∧ c.low = s.stop := by
  have member := List.mem_of_getElem? stands
  have valid := (tiles_member swept.tiles member).2.1
  have positive := closeness_pos
  obtain ⟨r, mem, touch, other⟩ := span_after swept.tiles swept.alternates stands earlier
  have wide := swept.wide r mem
  change closeness < r.stop - r.start at wide
  obtain ⟨w, plays⟩ := Option.ne_none_iff_exists'.mp (nobody ▸ other.symm)
  obtain ⟨c, inside, -, low, high⟩ := winner_holds swept distinct mem plays
  have first : c.low = s.stop := by
    by_contra different
    have early : c.low < s.stop := lt_of_le_of_ne (touch ▸ low) different
    have holds : s.Holds (max s.start c.low) := ⟨le_max_left _ _, max_lt valid early⟩
    apply nobody_holds swept member nobody holds c inside
    exact ⟨le_max_right _ _, (max_lt valid early).trans_le (by linarith)⟩
  refine ⟨c, inside, ?_, first⟩
  rw [Contender.Visible]
  linarith

theorem span_gap (swept : Swept cs total stop) (fine : closeness < step)
    (grid : Aligned cs total step)
    (distinct : ∀ c ∈ cs, ∀ d ∈ cs, c.index = d.index → c = d)
    (stands : (sweep cs total)[i]? = some s) (nobody : s.winner = none) (later : 0 < i)
    (earlier : i + 1 < (sweep cs total).length) : Gap cs s.start s.stop where
  before := visible_before swept fine grid distinct stands nobody later
  after := visible_after swept distinct stands nobody earlier
  clear := by
    have member := List.mem_of_getElem? stands
    have valid := (tiles_member swept.tiles member).2.1
    have positive := closeness_pos
    intro c mem visible
    by_contra meets
    push Not at meets
    rw [Contender.Visible] at visible
    have holds : s.Holds (max s.start c.low) := ⟨le_max_left _ _, max_lt valid meets.2⟩
    apply nobody_holds swept member nobody holds c mem
    exact ⟨le_max_right _ _, max_lt meets.1 (by linarith)⟩

/-- Nobody holds a time inside a gap, and the gap ends before the timeline does. -/
theorem gap_free (swept : Swept cs total stop) (fine : closeness < step)
    (grid : Aligned cs total step) (gap : Gap cs a b) :
    0 < a ∧ b < stop ∧ ∀ t, a ≤ t → t < b → winnerAt cs t = none := by
  have positive := closeness_pos
  have reach := swept.reach
  obtain ⟨c, mem, visible, high⟩ := gap.before
  obtain ⟨d, mem', visible', low⟩ := gap.after
  rw [Contender.Visible] at visible visible'
  have start := (grid c mem).1.low
  have ends := (grid d mem').2.high
  refine ⟨by linarith, by linarith, ?_⟩
  intro t after before
  rw [winnerAt_none_iff]
  intro e member
  rw [Bool.eq_false_iff, Ne, holds_iff]
  rintro ⟨below, above⟩
  rcases visible_or_late fine (grid e member) (by linarith) with seen | ⟨-, late⟩
  · rcases gap.clear e member seen with clear | clear
    · linarith
    · linarith
  · linarith

theorem gap_silent (swept : Swept cs total stop) (fine : closeness < step)
    (grid : Aligned cs total step) (gap : Gap cs a b)
    (after : a ≤ t) (before : t < b) : Plays (sweep cs total) t none := by
  obtain ⟨low, high, free⟩ := gap_free swept fine grid gap
  have plays := swept.plays t (by linarith) (by linarith)
  rwa [free t after before] at plays

/-- A span of nobody inside a gap begins where the gap does, and it is not the first. -/
theorem gap_starts (swept : Swept cs total stop) (fine : closeness < step)
    (grid : Aligned cs total step) (gap : Gap cs a b)
    (after : a ≤ t) (before : t < b) (stands : (sweep cs total)[i]? = some s) (holds : s.Holds t)
    (nobody : s.winner = none) : s.start = a ∧ 0 < i := by
  have low := (gap_free swept fine grid gap).1
  have member := List.mem_of_getElem? stands
  have valid := (tiles_member swept.tiles member).2.1
  have positive := closeness_pos
  have inside : a ≤ s.start := by
    by_contra early
    rw [not_le] at early
    obtain ⟨c, mem, visible, ends⟩ := gap.before
    rw [Contender.Visible] at visible
    have at_c : s.Holds (max s.start c.low) :=
      ⟨le_max_left _ _, max_lt valid (by linarith [holds.2])⟩
    apply nobody_holds swept member nobody at_c c mem
    exact ⟨le_max_right _ _, max_lt (by linarith) (by linarith)⟩
  have later : 0 < i := by
    by_contra first
    have zero : i = 0 := by omega
    subst zero
    linarith [tiles_first swept.tiles stands]
  refine ⟨le_antisymm ?_ inside, later⟩
  by_contra late
  rw [not_le] at late
  obtain ⟨p, -, mem, touch, other⟩ := span_before swept.tiles swept.alternates stands later
  have length := (tiles_member swept.tiles mem).2.1
  have at_end : p.Holds (max p.start a) := ⟨le_max_left _ _, max_lt length (by linarith)⟩
  have quiet := gap_silent swept fine grid gap (le_max_right p.start a)
    (max_lt (by linarith [holds.1]) (by linarith [holds.1]))
  exact other ((plays_unique swept.tiles ⟨p, mem, at_end, rfl⟩ quiet).trans nobody.symm)

theorem gap_stops (swept : Swept cs total stop) (fine : closeness < step)
    (grid : Aligned cs total step) (gap : Gap cs a b)
    (after : a ≤ t) (before : t < b) (stands : (sweep cs total)[i]? = some s) (holds : s.Holds t)
    (nobody : s.winner = none) : s.stop = b ∧ i + 1 < (sweep cs total).length := by
  have high := (gap_free swept fine grid gap).2.1
  have member := List.mem_of_getElem? stands
  have positive := closeness_pos
  have inside : s.stop ≤ b := by
    by_contra late
    rw [not_le] at late
    obtain ⟨c, mem, visible, begins⟩ := gap.after
    rw [Contender.Visible] at visible
    apply nobody_holds swept member nobody ⟨by linarith [holds.1], late⟩ c mem
    exact ⟨begins.le, by linarith⟩
  have earlier : i + 1 < (sweep cs total).length := by
    by_contra last
    have range := (List.getElem?_eq_some_iff.mp stands).1
    linarith [tiles_last swept.tiles stands (by omega)]
  refine ⟨le_antisymm inside ?_, earlier⟩
  by_contra early
  rw [not_le] at early
  obtain ⟨r, mem, touch, other⟩ := span_after swept.tiles swept.alternates stands earlier
  have length := (tiles_member swept.tiles mem).2.1
  have quiet := gap_silent swept fine grid gap (t := r.start) (by linarith [holds.2]) (by linarith)
  exact other (nobody.trans (plays_unique swept.tiles ⟨r, mem, ⟨le_refl _, length⟩, rfl⟩ quiet).symm)

theorem gap_span (swept : Swept cs total stop) (fine : closeness < step)
    (grid : Aligned cs total step) (gap : Gap cs a b)
    (after : a ≤ t) (before : t < b) :
    ∃ i s, (sweep cs total)[i]? = some s ∧ s.start = a ∧ s.stop = b ∧ s.winner = none ∧ 0 < i ∧
      i + 1 < (sweep cs total).length := by
  obtain ⟨s, member, holds, nobody⟩ := gap_silent swept fine grid gap after before
  obtain ⟨i, stands⟩ := List.mem_iff_getElem?.mp member
  obtain ⟨starts, later⟩ := gap_starts swept fine grid gap after before stands holds nobody
  obtain ⟨stops, earlier⟩ := gap_stops swept fine grid gap after before stands holds nobody
  exact ⟨i, s, stands, starts, stops, nobody, later, earlier⟩

end Montage
