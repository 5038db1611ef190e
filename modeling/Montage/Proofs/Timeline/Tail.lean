import Montage.Proofs.Timeline.Pointwise

/- The end of a timeline behind its last candidate. Nobody plays there, but a stretch shorter than
   a step is joined to the span before it, so that the last candidate plays on to the end. -/
namespace Montage

section Last
variable {cs : List (Candidate Rat)} {step stop : Rat} {front : List (Span Rat)} {s : Span Rat}

/-- A last span of nobody stays, behind who plays before it. -/
theorem absorb_last (cs : List (Candidate Rat)) (step : Rat) (tiles : Tiles 0 (front ++ [s]) stop)
    (alternates : Alternates (front ++ [s])) (nobody : s.winner = none) :
    ∃ out, absorbShortGaps cs step (front ++ [s]) = out ++ [s] ∧ Tiles 0 out s.start ∧
      out.getLast?.map (·.winner) = front.getLast?.map (·.winner) := by
  obtain ⟨inner, -, -⟩ := tiles_snoc.mp tiles
  have before := absorb_prefix cs step tiles alternates inner
  have stays : isGiven cs step (front ++ [s]).length front.length s = false := by
    simp [isGiven]
  have form : absorbShortGaps cs step (front ++ [s]) =
      extend ((front.zipIdx 0).foldl (fun out x =>
        pass (isGiven cs step (front ++ [s]).length) out x.1 x.2) []) s := by
    rw [absorb_eq, List.zipIdx_append, List.foldl_append]
    simp only [Nat.zero_add, List.zipIdx_cons, List.zipIdx_nil, List.foldl_cons, List.foldl_nil]
    exact if_neg (by rw [stays]; exact Bool.false_ne_true)
  rw [form]
  rcases List.eq_nil_or_concat' front with rfl | ⟨others, p, rfl⟩
  · exact ⟨[], rfl, before.tiles, rfl⟩
  · generalize ((others ++ [p]).zipIdx 0).foldl (fun out x =>
      pass (isGiven cs step (others ++ [p] ++ [s]).length) out x.1 x.2) [] = out at before ⊢
    have at_p : (others ++ [p] ++ [s])[others.length]? = some p := by simp
    have at_s : (others ++ [p] ++ [s])[others.length + 1]? = some s := by simp
    have plays : p.winner ≠ none := nobody ▸ alternates_next alternates at_p at_s
    have own : passed (isGiven cs step (others ++ [p] ++ [s]).length) (others ++ [p] ++ [s])
        others.length p = p.winner := by
      have kept : ¬ isGiven cs step (others ++ [p] ++ [s]).length others.length p = true :=
        fun given => plays (isGiven_gap given).1
      rw [passed, if_neg kept]
    have last := before.last others.length p (by simp) at_p
    rw [own] at last
    obtain ⟨x, found, winner⟩ := Option.map_eq_some_iff.mp last
    obtain ⟨begun, rfl⟩ := List.getLast?_eq_some_iff.mp found
    refine ⟨begun ++ [x], ?_, before.tiles, ?_⟩
    · rw [extend_snoc, if_neg]
      rw [winner, nobody]
      exact plays
    · rw [last, List.getLast?_concat, Option.map_some]

/-- Who plays in a last span of nobody, once a short one has been joined to the span before. -/
theorem tail_plays (cs : List (Candidate Rat)) (step : Rat) (tiles : Tiles 0 (front ++ [s]) stop)
    (alternates : Alternates (front ++ [s])) (nobody : s.winner = none) {t : Rat}
    (holds : s.Holds t) :
    Plays (foldTail step (absorbShortGaps cs step (front ++ [s]))) t
      (if s.duration < step - closeness then front.getLast?.bind (·.winner) else none) := by
  obtain ⟨out, form, inner, last⟩ := absorb_last cs step tiles alternates nobody
  rw [form]
  rcases List.eq_nil_or_concat' out with rfl | ⟨begun, x, rfl⟩
  · have alone : front.getLast? = none := by simpa using last.symm
    rw [alone]
    refine ⟨s, by simp [foldTail], holds, ?_⟩
    rw [nobody]
    split <;> rfl
  · rw [List.getLast?_concat, Option.map_some] at last
    obtain ⟨p, found, same⟩ := Option.map_eq_some_iff.mp last.symm
    rw [foldTail_concat, found, Option.bind_some, same]
    obtain ⟨-, valid, ends⟩ := tiles_snoc.mp inner
    split
    · refine ⟨x.lasting s.stop, by simp, ⟨?_, holds.2⟩, rfl⟩
      exact (valid.le.trans ends.le).trans holds.1
    · exact ⟨s, by simp, holds, nobody⟩

end Last

/-- Contenders end by a time, and neither begin nor end close to the end of the timeline. -/
structure Over (cs : List (Contender Rat)) (total t : Rat) : Prop where
  begun : ∀ c ∈ cs, c.low ≤ t
  ended : ∀ c ∈ cs, c.high ≤ t
  apart : ∀ c ∈ cs, c.low + closeness < total ∧ c.high + closeness < total

/-- A stretch shorter than a step behind the last contender. -/
def Trailing (cs : List (Candidate Rat)) (total step t : Rat) : Prop :=
  ∃ c ∈ contenders cs total step, c.Visible ∧
    (∀ d ∈ contenders cs total step, d.Visible → d.high ≤ c.high) ∧
    c.high ≤ t ∧ total - c.high < step - closeness

section Tail
variable {cs : List (Candidate Rat)} {total step stop t : Rat}

theorem swept_whole {cs : List (Contender Rat)} (lasts : closeness < total) (fine : closeness < step)
    (grid : Aligned cs total step) (past : Over cs total t) (swept : Swept cs total stop) :
    stop = total := by
  have reach := swept.reach
  rcases swept_stop (closeness_pos.le.trans lasts.le) fine grid swept with rfl | member
  · linarith
  · rcases mem_boundaries.mp (thinned_subset _ member) with rfl | rfl | ⟨c, mem, rfl | rfl⟩
    · linarith
    · rfl
    · linarith [(past.apart c mem).1]
    · linarith [(past.apart c mem).2]

/-- Behind the contenders the sweep has one span of nobody, up to the end. -/
theorem sweep_last (lasts : closeness < total) (fine : closeness < step) (low : 0 ≤ t)
    (high : t < total) (past : Over (contenders cs total step) total t) :
    ∃ front s, sweep (contenders cs total step) total = front ++ [s] ∧
      Swept (contenders cs total step) total total ∧
      s.Holds t ∧ s.winner = none ∧ s.stop = total := by
  have inside := closeness_pos.le.trans lasts.le
  have grid := contenders_aligned cs inside (closeness_pos.trans fine)
  obtain ⟨stop, swept⟩ := sweep_swept inside fine grid
  obtain rfl := swept_whole lasts fine grid past swept
  obtain ⟨s, member, holds, winner⟩ := swept.plays t low high
  have silent : winnerAt (contenders cs stop step) t = none := by
    rw [winnerAt_none_iff]
    intro c mem
    rw [Bool.eq_false_iff, Ne, holds_iff]
    exact fun inside => not_lt.mpr (past.ended c mem) inside.2
  rw [silent] at winner
  obtain ⟨i, stands⟩ := List.mem_iff_getElem?.mp member
  have last : ¬ i + 1 < (sweep (contenders cs stop step) stop).length := by
    intro earlier
    obtain ⟨c, mem, -, begins⟩ := visible_after swept contenders_distinct stands winner earlier
    linarith [past.begun c mem, holds.2]
  obtain ⟨within, same⟩ := List.getElem?_eq_some_iff.mp stands
  have final : (sweep (contenders cs stop step) stop).getLast? = some s := by
    rw [List.getLast?_eq_getElem?, ← stands]
    congr 1
    omega
  obtain ⟨front, form⟩ := List.getLast?_eq_some_iff.mp final
  refine ⟨front, s, form, swept, holds, winner, ?_⟩
  have tiles := swept.tiles
  rw [form] at tiles
  exact (tiles_snoc.mp tiles).2.2

/-- The last span is short, and not the only one, exactly behind a contender that trails. -/
theorem trailing_iff {front : List (Span Rat)} {s : Span Rat} (fine : closeness < step)
    (form : sweep (contenders cs total step) total = front ++ [s])
    (swept : Swept (contenders cs total step) total total) (inside : 0 ≤ total)
    (holds : s.Holds t) (nobody : s.winner = none) (ends : s.stop = total) :
    Trailing cs total step t ↔ s.duration < step - closeness ∧ front ≠ [] := by
  have grid := contenders_aligned cs inside (closeness_pos.trans fine)
  have positive := closeness_pos
  have member : s ∈ sweep (contenders cs total step) total := by simp [form]
  have stands : (sweep (contenders cs total step) total)[front.length]? = some s := by simp [form]
  have bounds := tiles_member swept.tiles member
  have length : s.duration = total - s.start := congrArg (· - s.start) ends
  have free := fun t holds => nobody_holds (t := t) swept member nobody holds
  -- a visible contender is over when the span begins
  have past : ∀ d ∈ contenders cs total step, d.Visible → d.high ≤ s.start := by
    intro d mem visible
    by_contra late
    rw [Contender.Visible] at visible
    have inner : max s.start d.low < s.stop := by
      refine max_lt bounds.2.1 ?_
      linarith [(grid d mem).2.high]
    refine free _ ⟨le_max_left _ _, inner⟩ d mem ⟨le_max_right _ _, ?_⟩
    exact max_lt (not_le.mp late) (by linarith)
  rw [length]
  constructor
  · rintro ⟨c, mem, visible, most, before, short⟩
    have begins : c.high = s.start := by
      refine le_antisymm (past c mem visible) ?_
      rcases Nat.eq_zero_or_pos front.length with none | some
      · have first := tiles_first swept.tiles (none ▸ stands)
        rw [first]
        exact (grid c mem).2.low
      · obtain ⟨d, mem', visible', same⟩ :=
          visible_before swept fine grid contenders_distinct stands nobody some
        exact same ▸ most d mem' visible'
    refine ⟨begins ▸ short, ?_⟩
    rintro rfl
    have first := tiles_first swept.tiles stands
    rw [Contender.Visible] at visible
    linarith [(grid c mem).1.low]
  · rintro ⟨short, some⟩
    obtain ⟨c, mem, visible, same⟩ := visible_before swept fine grid contenders_distinct stands
      nobody (List.length_pos_iff.mpr some)
    refine ⟨c, mem, visible, fun d mem' visible' => same ▸ past d mem' visible', ?_, ?_⟩
    · rw [same]
      exact holds.1
    · rw [same]
      exact short

/-- Behind the candidates the finished spans show nobody, unless the last one trails. -/
theorem flatten_tail (lasts : closeness < total) (fine : closeness < step) (low : 0 ≤ t)
    (high : t < total) (past : Over (contenders cs total step) total t) :
    ∃ w, Plays (flatten cs total step) t w ∧ (w = none ↔ ¬ Trailing cs total step t) ∧
      ∀ i, w = some i → ∃ c ∈ contenders cs total step, c.index = i := by
  have positive := closeness_pos.trans lasts
  obtain ⟨front, s, form, swept, holds, nobody, ends⟩ := sweep_last lasts fine low high past
  have tiles := form ▸ swept.tiles
  have alternates := form ▸ swept.alternates
  have plays := tail_plays cs step tiles alternates nobody holds
  rw [← form] at plays
  have whole : flatten cs total step =
      foldTail step (absorbShortGaps cs step (sweep (contenders cs total step) total)) :=
    if_neg (not_le.mpr positive)
  rw [← whole] at plays
  refine ⟨_, plays, ?_, ?_⟩
  · rw [trailing_iff fine form swept positive.le holds nobody ends]
    split
    · rename_i short
      rw [not_and_not_right, eq_true short, true_imp_iff]
      rcases List.eq_nil_or_concat' front with rfl | ⟨others, p, rfl⟩
      · simp
      · have at_p : (others ++ [p] ++ [s])[others.length]? = some p := by simp
        have at_s : (others ++ [p] ++ [s])[others.length + 1]? = some s := by simp
        have other := alternates_next alternates at_p at_s
        rw [List.getLast?_concat, Option.bind_some]
        exact iff_of_false (nobody ▸ other) (by simp)
    · rename_i long
      simp [long]
  · intro i played
    split at played
    · obtain ⟨p, found, winner⟩ := Option.bind_eq_some_iff.mp played
      have member : p ∈ sweep (contenders cs total step) total := by
        rw [form]
        exact List.mem_append_left _ (List.mem_of_getLast? found)
      obtain ⟨c, inside, index, -⟩ := winner_holds swept contenders_distinct member winner
      exact ⟨c, inside, index⟩
    · cases played

end Tail

end Montage
