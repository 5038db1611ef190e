import Montage.Proofs.Timeline.Pointwise

/- Stretches of the timeline that no clip meets. They show nobody, unless they lie in a gap in
   which two clips without a length on the grid stand on one side, around its middle: the
   distance of those two then counts as the length of the gap. -/
namespace Montage

/-- No length is left on the grid. -/
def Candidate.Vanishes (total step : Rat) (c : Candidate Rat) : Prop :=
  (c.bounds total step).2 - (c.bounds total step).1 ≤ closeness

instance (total step : Rat) (c : Candidate Rat) : Decidable (c.Vanishes total step) :=
  inferInstanceAs (Decidable (_ ≤ _))

/-- A gap around two clips that vanished, less than a step apart on either side of its middle. -/
def Bridged (cs : List (Candidate Rat)) (total step t : Rat) : Prop :=
  ∃ a b, Gap (contenders cs total step) a b ∧ a ≤ t ∧ t < b ∧
    ∃ c ∈ cs, ∃ d ∈ cs, c.Vanishes total step ∧ d.Vanishes total step ∧
      c.stop ≤ (a + b) / 2 ∧ (a + b) / 2 ≤ d.start ∧ d.start - c.stop < step - closeness

/-- A stretch inside the timeline, two steps long at least, during which nobody plays. -/
structure Silent (cs : List (Candidate Rat)) (total step x y : Rat) : Prop where
  low : 0 ≤ x
  high : y ≤ total
  wide : 2 * step ≤ y - x
  free : ∀ u, x < u → u < y → ∀ c ∈ cs, ¬ c.PlaysAt u

section Silent
variable {cs : List (Candidate Rat)} {total step x y t a b : Rat} {c d : Candidate Rat}

theorem silent_side (silent : Silent cs total step x y) (positive : 0 < step) (member : c ∈ cs)
    (lasting : c.start < c.stop) : c.stop ≤ x ∨ y ≤ c.start := by
  by_contra meets
  push Not at meets
  have less : x < y := by linarith [silent.wide]
  obtain ⟨u, above, below⟩ := exists_between
    (max_lt (lt_min less meets.1) (lt_min meets.2 lasting))
  rw [max_lt_iff] at above
  rw [lt_min_iff] at below
  exact silent.free u above.1 below.1 c member ⟨above.2.le, below.2⟩

theorem silent_of_apart (low : 0 ≤ x) (high : y ≤ total) (wide : 2 * step ≤ y - x)
    (apart : ∀ c ∈ cs, c.stop ≤ x ∨ y ≤ c.start) : Silent cs total step x y := by
  refine ⟨low, high, wide, ?_⟩
  rintro u above below c member ⟨begun, lasts⟩
  rcases apart c member with ended | late
  · linarith
  · linarith

theorem silent_nobody (silent : Silent cs total step x y) (positive : 0 < step)
    (lasting : ∀ c ∈ cs, c.start < c.stop) (after : x + step ≤ t) (before : t ≤ y - step) :
    winnerAt (contenders cs total step) t = none := by
  have low : 0 ≤ t := by linarith [silent.low]
  have high : t < total := by linarith [silent.high]
  rw [winnerAt_none_iff]
  intro e member
  obtain ⟨k, stands, eq⟩ := mem_contenders.mp member
  have listed := List.mem_of_getElem? stands
  have long := lasting k listed
  rw [Bool.eq_false_iff, Ne, holds_iff, eq]
  rintro ⟨begun, lasts⟩
  rcases silent_side silent positive listed long with ended | late
  · have far : step ≤ |t - k.stop| := le_abs.mpr (.inl (by linarith))
    have past := (clamp_side positive low high far).mpr (by linarith)
    exact absurd lasts (not_lt.mpr past)
  · have far : step ≤ |t - k.start| := le_abs.mpr (.inr (by linarith))
    linarith [(clamp_side positive low high far).mp begun]

theorem gap_grid (gap : Gap (contenders cs total step) a b) (inside : 0 < total)
    (fine : closeness < step) (less : a < b) :
    0 < a ∧ b < total ∧ (∃ n : Int, a = n * step) ∧ ∃ n : Int, b = n * step := by
  have grid := contenders_aligned cs inside.le (closeness_pos.trans fine)
  obtain ⟨stop, swept⟩ := sweep_swept inside.le fine grid
  obtain ⟨low, high, -⟩ := gap_free swept fine grid gap
  have early : b < total := high.trans_le swept.inside
  obtain ⟨c, mem, -, rfl⟩ := gap.before
  obtain ⟨d, mem', -, rfl⟩ := gap.after
  exact ⟨low, early, (grid c mem).2.regular.resolve_left (less.trans early).ne,
    (grid d mem').1.regular.resolve_left early.ne⟩

/-- A clip that did not vanish lasts a step at least on the grid, before the gap or after it. -/
theorem visible_side (gap : Gap (contenders cs total step) a b) (inside : 0 < total)
    (fine : closeness < step) (less : a < b) (member : c ∈ cs) (visible : ¬ c.Vanishes total step) :
    c.start ≤ a - step / 2 ∧ c.stop ≤ a + step / 2 ∨
      b - step / 2 ≤ c.start ∧ b + step / 2 ≤ c.stop := by
  have small := closeness_pos
  have positive := small.trans fine
  obtain ⟨low, high, -⟩ := gap_grid gap inside fine less
  have wide := not_le.mp visible
  obtain ⟨starts, above, below⟩ := snap_rat c.start positive
  obtain ⟨stops, above', below'⟩ := snap_rat c.stop positive
  have lasts : snap c.start step < snap c.stop step := by
    by_contra shrinks
    have early : (c.bounds total step).1 < total := by
      linarith [(clamp_grid inside.le positive c.stop).high, show
        (c.bounds total step).2 = Scalar.clamp 0 total (snap c.stop step) from rfl]
    have begun := (clamp_grid inside.le positive c.start).low
    have own := (clamp_le_iff begun early).mp (le_refl _)
    have past := (clamp_le_iff begun early).mpr ((not_lt.mp shrinks).trans own)
    change (c.bounds total step).2 ≤ (c.bounds total step).1 at past
    linarith
  have apart := multiples_apart positive starts stops lasts
  obtain ⟨i, stands⟩ := List.mem_iff_getElem?.mp member
  rcases gap.clear _ (contender_at total step stands) wide with ended | late
  · left
    have ended := (clamp_le_iff low.le (less.trans high)).mp ended
    constructor
    · linarith
    · linarith
  · right
    have late := (le_clamp_iff (low.trans less) high.le).mp late
    constructor
    · linarith
    · linarith

/-- Two clips that bridge a gap around a silent stretch both vanished: a clip with a length on the
grid would shift the middle of the gap over its own end. -/
theorem bridge_vanishes (silent : Silent cs total step x y) (inside : 0 < total)
    (fine : closeness < step) (lasting : ∀ c ∈ cs, c.start < c.stop)
    (after : x + step ≤ t) (before : t ≤ y - step) (gap : Gap (contenders cs total step) a b)
    (begun : a ≤ t) (lasts : t < b) (mc : c ∈ cs) (md : d ∈ cs) (left : c.stop ≤ (a + b) / 2)
    (right : (a + b) / 2 ≤ d.start) (short : d.start - c.stop < step - closeness) :
    c.Vanishes total step ∧ d.Vanishes total step := by
  have small := closeness_pos
  have positive := small.trans fine
  have less := begun.trans_lt lasts
  have wide := silent.wide
  have longC := lasting c mc
  have longD := lasting d md
  obtain ⟨-, -, ⟨n, regular⟩, regular'⟩ := gap_grid gap inside fine less
  -- more than two steps between boundaries on the grid are three
  have three : 2 * step < b - a → 3 * step ≤ b - a := by
    intro more
    have shifted : ∃ m : Int, a + 2 * step = m * step := by
      refine ⟨n + 2, ?_⟩
      push_cast
      rw [regular]
      ring
    linarith [multiples_apart positive shifted regular' (by linarith)]
  have sideC := visible_side gap inside fine less mc
  have sideD := visible_side gap inside fine less md
  rcases silent_side silent positive mc longC with endedC | lateC
  · rcases silent_side silent positive md longD with endedD | lateD
    · constructor
      · by_contra visible
        rcases sideC visible with ⟨start, stop⟩ | ⟨start, stop⟩
        · linarith [three (by linarith)]
        · linarith
      · by_contra visible
        rcases sideD visible with ⟨start, stop⟩ | ⟨start, stop⟩
        · linarith
        · linarith
    · linarith
  · rcases silent_side silent positive md longD with endedD | lateD
    · linarith
    · constructor
      · by_contra visible
        rcases sideC visible with ⟨start, stop⟩ | ⟨start, stop⟩
        · linarith
        · linarith
      · by_contra visible
        rcases sideD visible with ⟨start, stop⟩ | ⟨start, stop⟩
        · linarith
        · linarith [three (by linarith)]

theorem swallowed_iff_bridged (silent : Silent cs total step x y) (inside : 0 < total)
    (fine : closeness < step) (lasting : ∀ c ∈ cs, c.start < c.stop)
    (after : x + step ≤ t) (before : t ≤ y - step) :
    Swallowed cs total step t ↔ Bridged cs total step t := by
  constructor
  · rintro ⟨a, b, gap, begun, lasts, c, mc, d, md, left, right, short⟩
    have vanish := bridge_vanishes silent inside fine lasting after before gap begun lasts mc md
      left right short
    exact ⟨a, b, gap, begun, lasts, c, mc, d, md, vanish.1, vanish.2, left, right, short⟩
  · rintro ⟨a, b, gap, begun, lasts, c, mc, d, md, -, -, rest⟩
    exact ⟨a, b, gap, begun, lasts, c, mc, d, md, rest⟩

theorem silent_span (lasting : ∀ c ∈ cs, c.start < c.stop) (lasts : closeness < total)
    (fine : closeness < step) (silent : Silent cs total step x y) (after : x + step ≤ t)
    (before : t ≤ y - step) :
    ∃ s, (flatten cs total step).filter (fun s => decide (s.Holds t)) = [s] ∧
      (s.winner = none ↔ ¬ Swallowed cs total step t) := by
  have small := closeness_pos
  have positive := small.trans fine
  have inside := small.trans lasts
  have low : 0 ≤ t := by linarith [silent.low]
  have early : t ≤ total - step := by linarith [silent.high]
  obtain ⟨stop, swept, tiles, -⟩ := flatten_tiles cs inside fine
  obtain ⟨s, only⟩ := tiles_filter tiles low (by linarith [swept.reach])
  obtain ⟨member, holds⟩ := List.mem_filter.mp (only ▸ List.mem_cons_self)
  have nobody := silent_nobody silent positive lasting after before
  obtain ⟨w, plays, filler⟩ := flatten_silent inside fine low early nobody
  have winner := plays_unique tiles ⟨s, member, of_decide_eq_true holds, rfl⟩ plays
  exact ⟨s, only, winner ▸ filler⟩

/-- A step away from the ends of a stretch in which nobody plays exactly one of the finished spans
holds a time. It shows nobody, unless two clips that vanished bridge the gap; where every clip
keeps a length on the grid the stretch is filler. -/
theorem silence_is_filler_iff (lasting : ∀ c ∈ cs, c.start < c.stop) (lasts : closeness < total)
    (fine : closeness < step) (silent : Silent cs total step x y) (after : x + step ≤ t)
    (before : t ≤ y - step) :
    ∃ s, (flatten cs total step).filter (fun s => decide (s.Holds t)) = [s] ∧
      (s.winner = none ↔ ¬ Bridged cs total step t) ∧
      ((∀ c ∈ cs, ¬ c.Vanishes total step) → s.winner = none) := by
  obtain ⟨s, only, shown⟩ := silent_span lasting lasts fine silent after before
  rw [swallowed_iff_bridged silent (closeness_pos.trans lasts) fine lasting after before] at shown
  refine ⟨s, only, shown, ?_⟩
  intro visible
  rw [shown]
  rintro ⟨a, b, -, -, -, c, mc, d, -, vanishes, -⟩
  exact visible c mc vanishes

end Silent

theorem silence_is_filler_iff_overlapping :
    ∃ s, (flatten overlapping 8 (1 / 2)).filter (fun s => decide (s.Holds 5)) = [s] ∧
      s.winner = none := by
  have silent : Silent overlapping 8 (1 / 2) 4 6 :=
    silent_of_apart (by norm_num) (by norm_num) (by norm_num) (by decide +kernel)
  obtain ⟨s, only, -, filler⟩ := silence_is_filler_iff overlapping_regular.lasting
    (by decide +kernel) (by decide +kernel) silent (t := 5) (by norm_num) (by norm_num)
  exact ⟨s, only, filler (by decide +kernel)⟩

/-- Ten seconds, a quarter and an eighth around fifteen, and ten seconds again. -/
def bridging : List (Candidate Rat) :=
  [⟨0, 0, 10⟩, ⟨0, 117 / 8, 119 / 8⟩, ⟨0, 121 / 8, 61 / 4⟩, ⟨0, 20, 30⟩]

/-- Nobody plays for four seconds from ten on, and a clip is shown at twelve. -/
theorem bridged_silence_shows_clip :
    (∀ c ∈ bridging, c.start < c.stop) ∧ Silent bridging 30 1 10 14 ∧
      ∃ s, (flatten bridging 30 1).filter (fun s => decide (s.Holds 12)) = [s] ∧
        s.winner ≠ none := by
  have lasting : ∀ c ∈ bridging, c.start < c.stop := by decide +kernel
  have silent : Silent bridging 30 1 10 14 :=
    silent_of_apart (by norm_num) (by norm_num) (by norm_num) (by decide +kernel)
  have swallowed : Swallowed bridging 30 1 12 := by
    refine ⟨10, 20, ⟨?_, ?_, ?_⟩, by norm_num, by norm_num, ?_⟩
    all_goals decide +kernel
  obtain ⟨s, only, shown⟩ := silent_span lasting (by decide +kernel) (by decide +kernel) silent
    (t := 12) (by norm_num) (by norm_num)
  exact ⟨lasting, silent, s, only, fun none => shown.mp none swallowed⟩

end Montage
