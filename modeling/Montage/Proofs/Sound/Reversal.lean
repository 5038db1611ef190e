import Montage.Proofs.Sound.Mixdown
import Montage.Proofs.Timeline.SourceWindow

/- A clip played backwards, on whole frames: what is heard in its n-th frame is the frame of its
   sound that lies n before the end of its window. That end is not part of the window, so the first
   frame heard lies behind it, and the window's own first frame is never heard. -/
namespace Montage

/-- A frame of a sound, and silence behind the last. -/
def Sound.frameAt (s : Sound Rat) (frame channel : Nat) : Rat :=
  if frame < s.frames then s.sample frame channel else 0

theorem Sound.sampleAt_nat {s : Sound Rat} (counted : s.frames ≤ twoTo 64) (frame channel : Nat) :
    s.sampleAt (frame : Rat) channel = s.frameAt frame channel := by
  rw [Sound.sampleAt_eq counted, Sound.frameAt]
  refine if_congr ?_ ?_ rfl
  · rw [Nat.cast_lt]
    exact and_iff_right (Nat.cast_nonneg frame)
  · rw [Nat.floor_natCast, sub_self]
    change _ + _ * (0 : Rat) = _
    rw [mul_zero, add_zero]

/-- The only clip that is heard is played backwards at its own speed, without transitions. It
begins with a frame of the mix, and its trims, neither of them negative, leave the frames from
`head` up to, but not including, `tail` of a sound that has the rate and the channels of the mix
and lasts as long as declared. Frames are counted by words. -/
structure Rewound (p : Project Rat) (sound : Sound Rat) (shape : StreamShape) (s : Scheduled Rat)
    (start head tail : Nat) : Prop where
  alone : p.playedAudio = [s]
  backwards : s.clip.reverse = true
  speed : s.clip.speed = 1
  plain : s.transitions = []
  form : sound.shape = shape
  length : sound.duration = s.media.duration
  rate : shape.sampleRate ≠ 0
  starts : s.clip.startTime * shape.sampleRate = start
  begins : s.clip.trimStart * shape.sampleRate = head
  ends : (s.media.duration - s.clip.trimEnd) * shape.sampleRate = tail
  trimmed : 0 ≤ s.clip.trimEnd
  counted : start + (tail - head) < twoTo 64 ∧ sound.frames ≤ twoTo 64

theorem effectiveSpeed_one : effectiveSpeed (1 : Rat) = 1 := by decide +kernel

namespace Rewound
variable {p : Project Rat} {sound : Sound Rat} {shape : StreamShape} {s : Scheduled Rat}
  {start head tail n frame channel : Nat}

theorem positive (h : Rewound p sound shape s start head tail) : (0 : Rat) < shape.sampleRate := by
  exact_mod_cast Nat.pos_of_ne_zero h.rate

theorem played (h : Rewound p sound shape s start head tail) :
    s ∈ p.audioClips ∧ s.timing = s.clip.timing s.media ∧ 0 < s.timing.timelineDuration := by
  have member : s ∈ p.playedAudio := by
    rw [h.alone]
    exact List.mem_singleton_self s
  obtain ⟨audio, plays⟩ := Project.mem_playedAudio.mp member
  refine ⟨audio, ?_, by simpa [Scheduled.isPlayed] using plays⟩
  obtain ⟨c, -, -, -, rfl⟩ := Project.mem_audioClips.mp audio
  rfl

theorem source_duration (h : Rewound p sound shape s start head tail) :
    s.timing.timelineDuration = s.clip.sourceDuration s.media := by
  obtain ⟨-, timing, -⟩ := h.played
  rw [timing]
  change s.clip.startTime + s.clip.sourceDuration s.media / effectiveSpeed s.clip.speed -
    s.clip.startTime = _
  rw [h.speed, effectiveSpeed_one, div_one, add_sub_cancel_left]

/-- The trims leave a frame at least, and as many as the clip lasts. -/
theorem lasts (h : Rewound p sound shape s start head tail) :
    head < tail ∧ s.timing.timelineDuration * shape.sampleRate = ((tail - head : Nat) : Rat) := by
  obtain ⟨-, -, lasting⟩ := h.played
  have left : s.timing.timelineDuration = s.media.duration - s.clip.trimStart - s.clip.trimEnd := by
    have form : s.clip.sourceDuration s.media =
        max (s.media.duration - s.clip.trimStart - s.clip.trimEnd) 0 := Scalar.max_rat _ _
    rw [h.source_duration, form] at lasting ⊢
    rcases lt_max_iff.mp lasting with some | none
    · exact max_eq_left some.le
    · exact absurd none (lt_irrefl 0)
  have length : s.timing.timelineDuration * shape.sampleRate = (tail : Rat) - head := by
    rw [left, ← h.ends, ← h.begins]
    ring
  have positive : (0 : Rat) < (tail : Rat) - head := by
    rw [← length]
    exact mul_pos lasting h.positive
  have ordered : head < tail := by
    have less : (head : Rat) < tail := by linarith
    exact_mod_cast less
  rw [length, Nat.cast_sub ordered.le]
  exact ⟨ordered, rfl⟩

theorem begin (h : Rewound p sound shape s start head tail) :
    s.timing.start * shape.sampleRate = (start : Rat) := by
  obtain ⟨-, timing, -⟩ := h.played
  rw [timing]
  exact h.starts

theorem stop (h : Rewound p sound shape s start head tail) :
    s.timing.stop * shape.sampleRate = ((start + (tail - head) : Nat) : Rat) := by
  have whole : s.timing.stop = s.timing.start + s.timing.timelineDuration := by
    rw [Timing.timelineDuration]
    ring
  rw [whole, add_mul, h.begin, h.lasts.2, Nat.cast_add]

/-- The clip sounds from its first frame on, in as many frames as its window has. -/
theorem sounds_iff (h : Rewound p sound shape s start head tail) :
    s.soundsAt shape.sampleRate frame = true ↔ start ≤ frame ∧ frame < start + (tail - head) := by
  rw [Scheduled.soundsAt, Bool.and_eq_true, decide_eq_true_eq, decide_eq_true_eq, h.begin, h.stop,
    Scalar.round_nat, Scalar.round_nat, Nat.cast_le, Nat.cast_lt]

/-- The window of the sound, in its own frames. -/
theorem window (h : Rewound p sound shape s start head tail) :
    s.timing.sourceStart * shape.sampleRate = (head : Rat) ∧
      s.timing.sourceEnd * shape.sampleRate = (tail : Rat) := by
  obtain ⟨-, timing, -⟩ := h.played
  have positive := h.positive
  have low : 0 ≤ s.clip.trimStart := by
    refine nonneg_of_mul_nonneg_left (b := (shape.sampleRate : Rat)) ?_ positive
    rw [h.begins]
    exact Nat.cast_nonneg head
  have ordered : s.clip.trimStart ≤ s.media.duration - s.clip.trimEnd := by
    refine le_of_mul_le_mul_right ?_ positive
    rw [h.begins, h.ends]
    exact Nat.cast_le.mpr h.lasts.1.le
  rw [timing, Clip.timing_sourceStart, Clip.timing_sourceEnd, max_eq_left low, max_eq_left ordered]
  exact ⟨h.begins, h.ends⟩

/-- At its own speed the clip has played n frames in its n-th frame. -/
theorem elapsed (h : Rewound p sound shape s start head tail) (n : Nat) :
    (((start + n : Nat) : Rat) / shape.sampleRate - s.timing.start) * s.timing.speed *
      shape.sampleRate = n := by
  obtain ⟨-, timing, -⟩ := h.played
  have pace : s.timing.speed = 1 := by
    rw [timing]
    exact (congrArg effectiveSpeed h.speed).trans effectiveSpeed_one
  rw [pace, mul_one, sub_mul, div_mul_cancel₀ _ h.positive.ne', h.begin, Nat.cast_add]
  exact add_sub_cancel_left (start : Rat) n

/-- In its n-th frame the clip reads its sound n frames before the end of the window. -/
theorem source_time (h : Rewound p sound shape s start head tail) (inside : n < tail - head) :
    s.timing.sourceTime (((start + n : Nat) : Rat) / shape.sampleRate) * shape.sampleRate =
      ((tail - n : Nat) : Rat) := by
  obtain ⟨-, timing, -⟩ := h.played
  obtain ⟨first, last⟩ := h.window
  have positive := h.positive
  have backwards : s.timing.reverse = true := by
    rw [timing]
    exact h.backwards
  obtain ⟨pos, place⟩ : ∃ pos : Rat, pos = s.timing.sourceEnd -
      (((start + n : Nat) : Rat) / shape.sampleRate - s.timing.start) * s.timing.speed := ⟨_, rfl⟩
  have frame : pos * shape.sampleRate = ((tail - n : Nat) : Rat) := by
    rw [place, sub_mul, h.elapsed n, last, Nat.cast_sub (by omega)]
  -- the clamp does nothing: the position is a frame after the first and none behind the end
  have above : ¬ pos < s.timing.sourceStart := by
    rw [not_lt]
    refine le_of_mul_le_mul_right ?_ positive
    rw [frame, first, Nat.cast_le]
    omega
  have below : ¬ s.timing.sourceEnd < pos := by
    rw [not_lt]
    refine le_of_mul_le_mul_right ?_ positive
    rw [frame, last, Nat.cast_le]
    omega
  unfold Timing.sourceTime
  dsimp only
  rw [if_pos backwards, ← place, Scalar.clamp_rat, if_neg above, if_neg below, frame]

/-- What is heard where the clip sounds. -/
theorem part_eq (h : Rewound p sound shape s start head tail) (inside : n < tail - head) :
    s.part sound shape.sampleRate (start + n) channel = sound.frameAt (tail - n) channel := by
  have exact : Voice.priming sound s.media.duration = (0 : Rat) := by
    unfold Voice.priming
    rw [h.length, sub_self, Scalar.max_rat, max_self]
    change Scalar.round ((0 : Rat) * _) = 0
    rw [zero_mul]
    exact Scalar.round_nat 0
  have rate : sound.shape.sampleRate = shape.sampleRate := by rw [h.form]
  unfold Scheduled.part
  rw [exact, zero_add, rate, h.source_time inside, Sound.sampleAt_nat h.counted.2, h.plain]
  change _ * (1 : Rat) = _
  rw [mul_one]

theorem soundAt_eq {decoded : MediaFile Rat → Sound Rat} (named : decoded s.media = sound)
    (h : Rewound p sound shape s start head tail) :
    p.soundAt decoded shape frame channel =
      if start ≤ frame ∧ frame < start + (tail - head) then
        sound.frameAt (tail - (frame - start)) channel
      else 0 := by
  have mixed : (decoded s.media).remix shape.channels = sound := by
    rw [named]
    exact Sound.remix_same (congrArg StreamShape.channels h.form)
  rw [Project.soundAt, h.alone]
  split
  · rename_i sounds
    have inside : frame - start < tail - head := by omega
    have kept : [s].filter (·.soundsAt (shape.sampleRate : Rat) frame) = [s] := by
      simpa using h.sounds_iff.mpr sounds
    rw [kept, List.map_singleton, List.sum_singleton, mixed, ← h.part_eq inside,
      Nat.add_sub_cancel' sounds.1]
  · rename_i silent
    have dropped : [s].filter (·.soundsAt (shape.sampleRate : Rat) frame) = [] := by
      simpa using mt h.sounds_iff.mp silent
    rw [dropped]
    rfl

/-- The mix is long enough for the clip. -/
theorem fits (h : Rewound p sound shape s start head tail) :
      start + (tail - head) ≤ p.mixFrames shape := by
  obtain ⟨audio, -, -⟩ := h.played
  obtain ⟨c, placed, -, -, rfl⟩ := Project.mem_audioClips.mp audio
  have within : ((start + (tail - head) : Nat) : Rat) ≤ p.duration * shape.sampleRate := by
    rw [← h.stop]
    exact mul_le_mul_of_nonneg_right (Project.placed_inside placed) h.positive.le
  have count : start + (tail - head) ≤ ⌈p.duration * shape.sampleRate⌉.toNat := by
    have below := within.trans (Int.le_ceil _)
    have whole : ((start + (tail - head) : Nat) : Int) ≤ ⌈p.duration * shape.sampleRate⌉ := by
      exact_mod_cast below
    omega
  have word := h.counted.1
  exact le_min count (by omega)

/-- The window lies inside the sound. -/
theorem tail_le (h : Rewound p sound shape s start head tail) : tail ≤ sound.frames := by
  have rate : sound.shape.sampleRate = shape.sampleRate := by rw [h.form]
  have whole : s.media.duration * shape.sampleRate = sound.frames := by
    have audible : sound.shape.sampleRate ≠ 0 := by
      rw [rate]
      exact h.rate
    rw [← h.length, Sound.duration_rat audible, rate]
    exact div_mul_cancel₀ _ h.positive.ne'
  have inside : (tail : Rat) ≤ sound.frames := by
    rw [← h.ends, ← whole]
    exact mul_le_mul_of_nonneg_right (sub_le_self _ h.trimmed) h.positive.le
  exact_mod_cast inside

end Rewound

/-- So many frames are heard from `start` on, and it is silent before and after them. -/
structure Mix.Plays (mix : Mix Rat) (start length : Nat) (heard : Nat → Nat → Rat) : Prop where
  inside : ∀ n channel, n < length → channel < mix.shape.channels →
    mix.samples[(start + n) * mix.shape.channels + channel]? = some (heard n channel)
  outside : ∀ frame channel, frame < mix.frames → channel < mix.shape.channels →
    ¬ (start ≤ frame ∧ frame < start + length) →
    mix.samples[frame * mix.shape.channels + channel]? = some 0

/-- What is heard is determined. -/
theorem Mix.Plays.iff_eq {mix : Mix Rat} {start length : Nat} {heard other : Nat → Nat → Rat}
    (plays : mix.Plays start length heard) : mix.Plays start length other ↔
      ∀ n channel, n < length → channel < mix.shape.channels →
        heard n channel = other n channel := by
  constructor
  · intro also n channel inside own
    have both := (plays.inside n channel inside own).symm.trans (also.inside n channel inside own)
    exact Option.some.inj both
  · intro same
    refine ⟨fun n channel inside own => ?_, plays.outside⟩
    rw [plays.inside n channel inside own, same n channel inside own]

theorem Rewound.plays {p : Project Rat} {decoded : MediaFile Rat → Sound Rat} {shape : StreamShape}
    {s : Scheduled Rat} {start head tail : Nat}
    (h : Rewound p (decoded s.media) shape s start head tail) :
    (p.summed decoded shape).Plays start (tail - head) fun n =>
      (decoded s.media).frameAt (tail - n) := by
  constructor
  · intro n channel inside own
    have counted : start + n < p.mixFrames shape := by
      have fits := h.fits
      omega
    refine (summed_sample p decoded counted own).trans (congrArg some ?_)
    rw [h.soundAt_eq rfl, if_pos (by omega), Nat.add_sub_cancel_left]
  · intro frame channel counted own silent
    have some : 0 < shape.channels := Nat.zero_lt_of_lt own
    rw [summed_frames p decoded some] at counted
    refine (summed_sample p decoded counted own).trans (congrArg Option.some ?_)
    rw [h.soundAt_eq rfl, if_neg silent]

/-- Frame by frame from the last of the window to its first, or from the one behind it: these
agree exactly when every frame of the window is like the next. -/
theorem inverted_iff (sound : Sound Rat) (head tail channels : Nat) :
    (∀ n channel, n < tail - head → channel < channels →
      sound.frameAt (tail - n) channel = sound.sample (tail - 1 - n) channel) ↔
      ∀ frame channel, head ≤ frame → frame < tail → channel < channels →
        sound.sample frame channel = sound.frameAt (frame + 1) channel := by
  constructor
  · intro inverted frame channel low high own
    have mirror := inverted (tail - 1 - frame) channel (by omega) own
    rw [show tail - (tail - 1 - frame) = frame + 1 by omega,
      show tail - 1 - (tail - 1 - frame) = frame by omega] at mirror
    exact mirror.symm
  · intro level n channel low own
    rw [level (tail - 1 - n) channel (by omega) (by omega) own,
      show tail - 1 - n + 1 = tail - n by omega]

/-- A clip that is alone and played backwards is heard from the frame behind its window down to the
second one of the window. That is the window from its last frame down to its first exactly when
each frame of the window is like the one behind it, and silence is behind the end of the sound. -/
theorem reversed_window_inverts_iff {p : Project Rat} {library : SoundLibrary Rat Rat}
    {decoded : MediaFile Rat → Sound Rat} {cancel : Cancel} {shape : StreamShape}
    {s : Scheduled Rat} {start head tail : Nat} (decodes : p.Decodes library decoded)
    (quiet : cancel.Quiet) (rewound : Rewound p (decoded s.media) shape s start head tail) :
    ∃ mix, (p.mix library shape cancel).1 = .ok mix ∧ mix.shape = shape ∧
      head < tail ∧ tail ≤ (decoded s.media).frames ∧
      (mix.Plays start (tail - head) fun n => (decoded s.media).frameAt (tail - n)) ∧
      ((mix.Plays start (tail - head) fun n => (decoded s.media).sample (tail - 1 - n)) ↔
        ∀ frame channel, head ≤ frame → frame < tail → channel < shape.channels →
          (decoded s.media).sample frame channel = (decoded s.media).frameAt (frame + 1) channel) := by
  refine ⟨p.summed decoded shape, mix_summed decodes quiet, rfl, rewound.lasts.1, rewound.tail_le,
    rewound.plays, ?_⟩
  rw [rewound.plays.iff_eq]
  exact inverted_iff _ head tail shape.channels

/-- A file of one second, of which a clip at the half second plays the two middle frames of four
backwards. -/
def retrogradeFile : MediaFile Rat := .ofAudio "a" "/a/a.wav" 1

def retrogradeClip : Clip Rat :=
  { Clip.new "backwards" "a" (1 / 2) with trimStart := 1 / 4, trimEnd := 1 / 4, reverse := true }

def retrograde : Project Rat :=
  { id := "p"
    name := "p"
    mediaFiles := [retrogradeFile]
    tracks := [⟨"t", .audio, [retrogradeClip], false⟩]
    transitions := []
    framerate := 4 }

def retrogradeScheduled : Scheduled Rat :=
  ⟨0, retrogradeClip, retrogradeFile, retrogradeClip.timing retrogradeFile, []⟩

theorem four_frames (a b c d : Rat) : (⟨#[a, b, c, d], 1, 4⟩ : Sound Rat).frames = 4 :=
  Sound.frames_of_size Nat.one_pos rfl

/-- Any four frames make a sound that the clip plays the middle of. -/
theorem retrograde_rewound (a b c d : Rat) :
    Rewound retrograde ⟨#[a, b, c, d], 1, 4⟩ ⟨1, 4⟩ retrogradeScheduled 2 1 3 where
  alone := by
    have listed : retrograde.audioClips = [retrogradeScheduled] := rfl
    have plays : retrogradeScheduled.isPlayed = true := by decide +kernel
    rw [Project.playedAudio_eq, listed, List.filter_cons_of_pos plays, List.filter_nil]
  backwards := rfl
  speed := rfl
  plain := rfl
  form := rfl
  length := by
    have audible : (⟨#[a, b, c, d], 1, 4⟩ : Sound Rat).shape.sampleRate ≠ 0 := four_ne_zero
    rw [Sound.duration_rat audible, four_frames]
    exact div_self four_ne_zero
  rate := by decide
  starts := by decide +kernel
  begins := by decide +kernel
  ends := by decide +kernel
  trimmed := by decide +kernel
  counted := ⟨by decide, (four_frames a b c d).trans_le (by decide)⟩

theorem retrograde_decodes (sound : Sound Rat) (shape : sound.shape = ⟨1, 4⟩) :
    retrograde.Decodes (fun _ => .ok sound) fun _ => sound := by
  intro s _
  rw [shape]
  exact ⟨rfl, by decide, by decide⟩

/-- Three frames alike, of which the clip plays two: there the two orders agree. -/
theorem reversed_window_inverts_iff_held :
    ∃ mix, (retrograde.mix (fun _ => .ok ⟨#[8, 5, 5, 5], 1, 4⟩) ⟨1, 4⟩ .clear).1 = .ok mix ∧
      mix.Plays 2 2 fun n => (⟨#[8, 5, 5, 5], 1, 4⟩ : Sound Rat).sample (2 - n) := by
  obtain ⟨mix, mixed, -, -, -, -, inverts⟩ := reversed_window_inverts_iff
    (retrograde_decodes ⟨#[8, 5, 5, 5], 1, 4⟩ rfl) .clear (retrograde_rewound 8 5 5 5)
  refine ⟨mix, mixed, inverts.mpr ?_⟩
  intro frame channel low high own
  obtain rfl : channel = 0 := Nat.lt_one_iff.mp own
  obtain rfl | rfl : frame = 1 ∨ frame = 2 := by omega
  all_goals rfl

/-- Of frames that rise, the clip plays the one behind its window, and never its first. -/
theorem reversed_window_shifted :
    Rewound retrograde ⟨#[8, 16, 24, 32], 1, 4⟩ ⟨1, 4⟩ retrogradeScheduled 2 1 3 ∧
      ∃ mix, (retrograde.mix (fun _ => .ok ⟨#[8, 16, 24, 32], 1, 4⟩) ⟨1, 4⟩ .clear).1 = .ok mix ∧
        mix.samples = #[0, 0, 32, 24] ∧
        ¬ mix.Plays 2 2 fun n => (⟨#[8, 16, 24, 32], 1, 4⟩ : Sound Rat).sample (2 - n) := by
  refine ⟨retrograde_rewound 8 16 24 32, _, mix_summed (retrograde_decodes _ rfl) .clear, ?_, ?_⟩
  · decide +kernel
  · intro inverted
    have first := inverted.inside 0 0 (by decide) (by decide)
    revert first
    decide +kernel

end Montage
