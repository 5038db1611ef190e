import Mathlib.Tactic.FieldSimp
import Mathlib.Tactic.Linarith
import Montage.Proofs.Number.Exact
import Montage.Timeline.Validity

/- The source window of a clip against its place on the timeline. The window comes from trims
   kept at zero or more, the place from the trims as they are, so that the two agree in a valid
   project only where no trim is negative, or where nothing is left to play. -/
namespace Montage

theorem leastSpeed_pos : (0 : Rat) < leastSpeed := by
  change (0 : Rat) < ((2220446049250313 : Nat) : Rat) / ((tenTo 31 : Nat) : Rat)
  norm_num [tenTo]

theorem effectiveSpeed_pos (speed : Rat) : 0 < effectiveSpeed speed := by
  unfold effectiveSpeed
  split
  · rw [Scalar.max_rat]
    exact leastSpeed_pos.trans_le (le_max_right _ _)
  · norm_num

namespace Timing

/-- The source second shown at a time of the clip when nothing keeps it inside the window. -/
def steady (t : Timing Rat) (time : Rat) : Rat :=
  if t.reverse then t.sourceEnd - (time - t.start) * t.speed
  else t.sourceStart + (time - t.start) * t.speed

/-- The window lies inside the media and lasts as long as the clip does at its speed, and the
clip runs through all of it from one end to the other. -/
structure Consistent (t : Timing Rat) (length : Rat) : Prop where
  low : 0 ≤ t.sourceStart
  ordered : t.sourceStart ≤ t.sourceEnd
  high : t.sourceEnd ≤ length
  pace : t.sourceDuration = t.timelineDuration * t.speed
  inside : ∀ a, t.start ≤ a → a ≤ t.stop →
    t.sourceStart ≤ t.sourceTime a ∧ t.sourceTime a ≤ t.sourceEnd
  strict : ∀ a b, t.start ≤ a → a < b → b ≤ t.stop →
    if t.reverse then t.sourceTime b < t.sourceTime a else t.sourceTime a < t.sourceTime b
  onto : ∀ x, t.sourceStart ≤ x → x ≤ t.sourceEnd →
    ∃ a, t.start ≤ a ∧ a ≤ t.stop ∧ t.sourceTime a = x
  begins : t.sourceTime t.start = if t.reverse then t.sourceEnd else t.sourceStart
  ends : t.sourceTime t.stop = if t.reverse then t.sourceStart else t.sourceEnd

variable {t : Timing Rat} {length a x : Rat}

/-- At its own speed the clip stays inside the window. -/
theorem steady_inside (positive : 0 < t.speed)
    (pace : t.sourceEnd - t.sourceStart = (t.stop - t.start) * t.speed) (low : t.start ≤ a)
    (high : a ≤ t.stop) : t.sourceStart ≤ t.steady a ∧ t.steady a ≤ t.sourceEnd := by
  have gone : 0 ≤ (a - t.start) * t.speed := by
    apply mul_nonneg
    · linarith
    · exact positive.le
  have left : (a - t.start) * t.speed ≤ (t.stop - t.start) * t.speed := by
    apply mul_le_mul_of_nonneg_right
    · linarith
    · exact positive.le
  unfold steady
  split
  · constructor
    · linarith
    · linarith
  · constructor
    · linarith
    · linarith

theorem sourceTime_steady (positive : 0 < t.speed)
    (pace : t.sourceEnd - t.sourceStart = (t.stop - t.start) * t.speed) (low : t.start ≤ a)
    (high : a ≤ t.stop) : t.sourceTime a = t.steady a := by
  obtain ⟨above, below⟩ := steady_inside positive pace low high
  have form : t.sourceTime a = Scalar.clamp t.sourceStart t.sourceEnd (t.steady a) := rfl
  rw [form, Scalar.clamp_rat, if_neg (not_lt.mpr above), if_neg (not_lt.mpr below)]

theorem steady_strict {b : Rat} (positive : 0 < t.speed) (less : a < b) :
    if t.reverse then t.steady b < t.steady a else t.steady a < t.steady b := by
  have further : (a - t.start) * t.speed < (b - t.start) * t.speed := by
    apply mul_lt_mul_of_pos_right
    · linarith
    · exact positive
  unfold steady
  split
  · linarith
  · linarith

/-- Every second of the window is reached. -/
theorem steady_onto (positive : 0 < t.speed)
    (pace : t.sourceEnd - t.sourceStart = (t.stop - t.start) * t.speed)
    (low : t.sourceStart ≤ x) (high : x ≤ t.sourceEnd) :
    ∃ a, t.start ≤ a ∧ a ≤ t.stop ∧ t.steady a = x := by
  -- how much of the window has been played when x comes
  obtain ⟨played, amount⟩ : ∃ d, d = if t.reverse then t.sourceEnd - x else x - t.sourceStart :=
    ⟨_, rfl⟩
  have begun : 0 ≤ played := by
    rw [amount]
    split
    · linarith
    · linarith
  have whole : played ≤ (t.stop - t.start) * t.speed := by
    rw [amount]
    split
    · linarith
    · linarith
  have back : played / t.speed * t.speed = played := div_mul_cancel₀ played positive.ne'
  refine ⟨t.start + played / t.speed, ?_, ?_, ?_⟩
  · have later := div_nonneg begun positive.le
    linarith
  · have early := (div_le_iff₀ positive).mpr whole
    linarith
  · have since : t.start + played / t.speed - t.start = played / t.speed := by ring
    unfold steady
    rw [since, back, amount]
    split
    · ring
    · ring

/-- A window inside the media that lasts as long as the clip at its speed is run through. -/
theorem consistent_of_pace (positive : 0 < t.speed) (low : 0 ≤ t.sourceStart)
    (ordered : t.sourceStart ≤ t.sourceEnd) (high : t.sourceEnd ≤ length)
    (lasts : t.start ≤ t.stop) (pace : t.sourceDuration = t.timelineDuration * t.speed) :
    t.Consistent length where
  low := low
  ordered := ordered
  high := high
  pace := pace
  inside := by
    intro a after before
    rw [sourceTime_steady positive pace after before]
    exact steady_inside positive pace after before
  strict := by
    intro a b after less before
    rw [sourceTime_steady positive pace after (less.le.trans before),
      sourceTime_steady positive pace (after.trans less.le) before]
    exact steady_strict positive less
  onto := by
    intro x above below
    obtain ⟨a, after, before, same⟩ := steady_onto positive pace above below
    exact ⟨a, after, before, (sourceTime_steady positive pace after before).trans same⟩
  begins := by
    rw [sourceTime_steady positive pace le_rfl lasts, steady]
    simp
  ends := by
    have window : t.sourceEnd - t.sourceStart = (t.stop - t.start) * t.speed := pace
    rw [sourceTime_steady positive pace lasts le_rfl, steady, ← window]
    split
    · ring
    · ring

end Timing

namespace Clip

variable {c : Clip Rat} {m : MediaFile Rat}

theorem timing_speed_pos (c : Clip Rat) (m : MediaFile Rat) : 0 < (c.timing m).speed :=
  effectiveSpeed_pos c.speed

theorem timing_sourceStart (c : Clip Rat) (m : MediaFile Rat) :
    (c.timing m).sourceStart = max c.trimStart 0 := Scalar.max_rat _ _

theorem timing_sourceEnd (c : Clip Rat) (m : MediaFile Rat) :
    (c.timing m).sourceEnd = max (m.duration - c.trimEnd) (max c.trimStart 0) := by
  rw [← timing_sourceStart c m]
  exact Scalar.max_rat _ _

/-- The place of a clip whose trims leave something of the media lasts as long as what they
leave, at the clip's speed. -/
theorem timing_pace (left : 0 ≤ m.duration - c.trimStart - c.trimEnd) :
    (c.timing m).timelineDuration * (c.timing m).speed =
      m.duration - c.trimStart - c.trimEnd := by
  have length : (c.timing m).timelineDuration =
      (m.duration - c.trimStart - c.trimEnd) / (c.timing m).speed := by
    have kept : c.sourceDuration m = m.duration - c.trimStart - c.trimEnd := by
      have form : c.sourceDuration m = max (m.duration - c.trimStart - c.trimEnd) 0 :=
        Scalar.max_rat _ _
      rw [form, max_eq_left left]
    change c.startTime + c.sourceDuration m / effectiveSpeed c.speed - c.startTime = _
    rw [kept]
    exact add_sub_cancel_left _ _
  rw [length]
  exact div_mul_cancel₀ _ (timing_speed_pos c m).ne'

theorem timing_ordered (left : 0 ≤ m.duration - c.trimStart - c.trimEnd) :
    (c.timing m).start ≤ (c.timing m).stop := by
  have pace := timing_pace left
  have positive := timing_speed_pos c m
  by_contra early
  have negative : (c.timing m).timelineDuration < 0 := by
    change (c.timing m).stop - (c.timing m).start < 0
    linarith
  linarith [mul_neg_of_neg_of_pos negative positive]

theorem consistent_iff (left : 0 ≤ m.duration - c.trimStart - c.trimEnd) :
    (c.timing m).Consistent m.duration ↔ 0 ≤ c.trimEnd ∧
      (0 ≤ c.trimStart ∨ m.duration = c.trimStart + c.trimEnd ∧ 0 ≤ m.duration) := by
  have start := timing_sourceStart c m
  have stop := timing_sourceEnd c m
  have pace := timing_pace left
  constructor
  · intro consistent
    have high := consistent.high
    have length := consistent.pace
    change (c.timing m).sourceEnd - (c.timing m).sourceStart = _ at length
    rw [pace, start, stop] at length
    rw [stop] at high
    have tail : m.duration - c.trimEnd ≤ m.duration := (le_max_left _ _).trans high
    have media : 0 ≤ m.duration := ((le_max_right _ _).trans (le_max_right _ _)).trans high
    refine ⟨by linarith, ?_⟩
    by_cases trimmed : 0 ≤ c.trimStart
    · exact .inl trimmed
    · right
      rw [max_eq_right (not_le.mp trimmed).le] at length
      -- a negative trim makes the clip longer than the window, unless neither has a length
      rcases le_total (m.duration - c.trimEnd) 0 with passed | under
      · rw [max_eq_right passed] at length
        exact ⟨by linarith, media⟩
      · rw [max_eq_left under] at length
        linarith
  · rintro ⟨tail, trims⟩
    have window : (c.timing m).sourceEnd - (c.timing m).sourceStart =
        m.duration - c.trimStart - c.trimEnd ∧ (c.timing m).sourceEnd ≤ m.duration := by
      rw [start, stop]
      rcases trims with head | ⟨nothing, media⟩
      · rw [max_eq_left head, max_eq_left (by linarith)]
        exact ⟨by ring, by linarith⟩
      · rcases le_total 0 c.trimStart with head | head
        · rw [max_eq_left head, max_eq_left (by linarith)]
          exact ⟨by ring, by linarith⟩
        · rw [max_eq_right head, max_eq_right (by linarith)]
          exact ⟨by linarith, media⟩
    apply Timing.consistent_of_pace (timing_speed_pos c m)
    · rw [start]
      exact le_max_right _ _
    · rw [start, stop]
      exact le_max_right _ _
    · exact window.2
    · exact timing_ordered left
    · exact window.1.trans pace.symm

end Clip

namespace Project

variable {p : Project Rat} {track : Track Rat} {c : Clip Rat}

/-- In a project without issues every clip has its media, and the trims leave none too few. -/
theorem clip_of_valid (valid : p.issues = []) (listed : track ∈ p.tracks) (member : c ∈ track.clips) :
    ∃ m, p.media? c.mediaId = some m ∧ 0 ≤ m.duration - c.trimStart - c.trimEnd := by
  have clips := (List.append_eq_nil_iff.mp valid).1
  have silent : p.clipIssues track c = [] := by
    rw [List.flatMap_eq_nil_iff] at clips
    exact List.flatMap_eq_nil_iff.mp (clips track listed) c member
  unfold clipIssues at silent
  split at silent
  · cases silent
  · rename_i m found
    refine ⟨m, found, ?_⟩
    by_contra beyond
    rw [if_pos (not_le.mp beyond)] at silent
    cases silent

/-- In a valid project a clip's window lies inside its media and is what the clip runs through at
its speed exactly when neither trim is negative, or when the trims leave nothing to play. -/
theorem valid_consistent_iff (valid : p.issues = []) (listed : track ∈ p.tracks)
    (member : c ∈ track.clips) :
    ∃ m, p.media? c.mediaId = some m ∧ ((c.timing m).Consistent m.duration ↔ 0 ≤ c.trimEnd ∧
      (0 ≤ c.trimStart ∨ m.duration = c.trimStart + c.trimEnd ∧ 0 ≤ m.duration)) := by
  obtain ⟨m, found, left⟩ := clip_of_valid valid listed member
  exact ⟨m, found, Clip.consistent_iff left⟩

/-- One clip of a file that lasts ten seconds. -/
def oneTrimmed (c : Clip Rat) : Project Rat :=
  { id := "p"
    name := "p"
    mediaFiles := [MediaFile.ofVideo "m" "/v/a.mp4" 10 64 64 10]
    tracks := [⟨"v", .video, [c], false⟩]
    transitions := []
    framerate := 10 }

/-- Played backwards at twice its speed. -/
def trimmedClip (trimStart trimEnd : Rat) : Clip Rat :=
  { (Clip.new "c" "m" 3 : Clip Rat) with trimStart, trimEnd, speed := 2, reverse := true }

theorem valid_consistent_iff_trimmed :
    (oneTrimmed (trimmedClip 1 2)).issues = [] ∧
      ((trimmedClip 1 2).timing (MediaFile.ofVideo "m" "/v/a.mp4" 10 64 64 10)).Consistent 10 := by
  have valid : (oneTrimmed (trimmedClip 1 2)).issues = [] := List.isEmpty_iff.mp (by decide +kernel)
  obtain ⟨m, found, consistent⟩ :=
    valid_consistent_iff (c := trimmedClip 1 2) valid List.mem_cons_self List.mem_cons_self
  cases found
  exact ⟨valid, consistent.mpr ⟨by decide +kernel, .inl (by decide +kernel)⟩⟩

/-- A head trim below zero makes a clip longer than its window, and a tail trim below zero puts
the end of the window behind the end of the media; neither is an issue. -/
theorem negative_trims_valid :
    (oneTrimmed (trimmedClip (-1) 0)).issues = [] ∧
      ¬ ((trimmedClip (-1) 0).timing (MediaFile.ofVideo "m" "/v/a.mp4" 10 64 64 10)).Consistent 10 ∧
      (oneTrimmed (trimmedClip 0 (-1))).issues = [] ∧
      ¬ ((trimmedClip 0 (-1)).timing
        (MediaFile.ofVideo "m" "/v/a.mp4" 10 64 64 10)).Consistent 10 := by
  refine ⟨List.isEmpty_iff.mp (by decide +kernel), ?_, List.isEmpty_iff.mp (by decide +kernel), ?_⟩
  · intro consistent
    have pace := consistent.pace
    revert pace
    decide +kernel
  · intro consistent
    have high := consistent.high
    revert high
    decide +kernel

end Project

end Montage
