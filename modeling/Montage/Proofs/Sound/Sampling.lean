import Mathlib.Algebra.Order.Floor.Semiring
import Montage.Proofs.Number.Exact
import Montage.Sound.Pcm

/- Samples of a sound: which of them a position between two frames is made of, that all of these
   are there, and how both fare when the sound gets other channels or more frames before its
   first. -/
namespace Montage.Sound

section Frames
variable {S : Type} {s : Sound S} {frame channel : Nat}

/-- Every channel of every frame has its sample. -/
theorem sample_inside (inside : frame < s.frames) (own : channel < s.shape.channels) :
    frame * s.shape.channels + channel < s.samples.size := by
  have whole : s.frames * s.shape.channels ≤ s.samples.size := by
    unfold frames
    rw [Nat.max_eq_left (Nat.one_le_of_lt own)]
    exact Nat.div_mul_le_self _ _
  have next : (frame + 1) * s.shape.channels ≤ s.frames * s.shape.channels :=
    Nat.mul_le_mul_right _ inside
  rw [Nat.succ_mul] at next
  omega

/-- With the samples of so many frames, a sound has that many frames. -/
theorem frames_of_size {n : Nat} (own : 0 < s.shape.channels)
    (size : s.samples.size = n * s.shape.channels) : s.frames = n := by
  unfold frames
  rw [Nat.max_eq_left own, size, Nat.mul_div_cancel n own]

theorem duration_rat (audible : s.shape.sampleRate ≠ 0) :
    (s.duration : Rat) = s.frames / s.shape.sampleRate :=
  if_neg audible

end Frames

section Remixing
variable {S : Type} [Scalar S] {s : Sound S} {channels : Nat}

/-- One frame of a sound in so many channels. -/
def mixedFrame (s : Sound S) (channels frame : Nat) : List S :=
  (List.range channels).map fun c =>
    remixed ((List.range s.shape.channels).map fun d => s.sample frame d) channels c

theorem remix_same (same : s.shape.channels = channels) : s.remix channels = s := by
  rw [remix, if_pos (.inl same)]

theorem remix_other (own : 0 < s.shape.channels) (other : s.shape.channels ≠ channels) :
    s.remix channels = ⟨((List.range s.frames).flatMap (s.mixedFrame channels)).toArray,
      { s.shape with channels }⟩ := by
  rw [remix, if_neg (not_or.mpr ⟨other, own.ne'⟩)]
  rfl

theorem remix_shape (own : 0 < s.shape.channels) (channels : Nat) :
    (s.remix channels).shape = { s.shape with channels } := by
  by_cases same : s.shape.channels = channels
  · rw [remix_same same, ← same]
  · rw [remix_other own same]

theorem remix_frames (own : 0 < s.shape.channels) (some : 0 < channels) :
    (s.remix channels).frames = s.frames := by
  by_cases same : s.shape.channels = channels
  · rw [remix_same same]
  · rw [remix_other own same]
    refine frames_of_size some ?_
    simp [mixedFrame, List.length_flatMap]

end Remixing

section Positions
variable {S : Type} {s : Sound S} {pos : Rat} {channel : Nat}

/-- The frame before a position. -/
theorem toCount_floor (pos : Rat) :
    Scalar.toCount (Scalar.floor pos) = min ⌊pos⌋₊ (twoTo 64 - 1) :=
  Scalar.toCount_whole ⌊pos⌋

/-- A position is before the first frame or behind the last one, or between the two. -/
theorem silent_iff : s.frames = 0 ∨ pos < 0 ∨ (Scalar.ofNat s.frames : Rat) ≤ pos ↔
    ¬ (0 ≤ pos ∧ pos < s.frames) := by
  change s.frames = 0 ∨ pos < 0 ∨ (s.frames : Rat) ≤ pos ↔ _
  rw [not_and_or, not_le, not_lt]
  refine ⟨?_, .inr⟩
  rintro (none | rest)
  · rw [none]
    exact (lt_or_ge pos 0).imp_right fun above => by exact_mod_cast above
  · exact rest

variable [Scalar S] [Narrowing Rat S]

/-- Silence before the first frame and behind the last; else the sample of the frame before the
position, and a share of the way from there to the next. -/
theorem sampleAt_eq (counted : s.frames ≤ twoTo 64) : s.sampleAt pos channel =
    if 0 ≤ pos ∧ pos < s.frames then
      s.sample ⌊pos⌋₊ channel +
        (s.sample (min (⌊pos⌋₊ + 1) (s.frames - 1)) channel - s.sample ⌊pos⌋₊ channel) *
          Narrowing.narrow (pos - ⌊pos⌋₊)
    else 0 := by
  unfold sampleAt
  split
  · rename_i silent
    rw [if_neg (silent_iff.mp silent)]
  · rename_i heard
    rw [silent_iff, not_not] at heard
    have before : ⌊pos⌋₊ < s.frames := (Nat.floor_lt heard.1).mpr heard.2
    have count : Scalar.toCount (Scalar.floor pos) = ⌊pos⌋₊ := by
      rw [toCount_floor]
      omega
    rw [if_pos heard, count]
    rfl

end Positions

/-- The sound with other samples before its own. -/
def prepended {S : Type} (s : Sound S) (extra : Array S) : Sound S :=
  { s with samples := extra ++ s.samples }

section Prepending
variable {S : Type} {s : Sound S} {extra : Array S} {n frame channel : Nat}

theorem prepended_frames (own : 0 < s.shape.channels) (whole : extra.size = n * s.shape.channels) :
    (s.prepended extra).frames = s.frames + n := by
  have size : (s.prepended extra).samples.size = n * s.shape.channels + s.samples.size := by
    rw [prepended, Array.size_append, whole]
  unfold frames
  rw [size]
  change (n * s.shape.channels + s.samples.size) / max s.shape.channels 1 = _
  rw [Nat.max_eq_left own, Nat.mul_comm, Nat.mul_add_div own, Nat.add_comm]

variable [Scalar S]

theorem prepended_sample (whole : extra.size = n * s.shape.channels) :
    (s.prepended extra).sample (frame + n) channel = s.sample frame channel := by
  have place : (frame + n) * s.shape.channels + channel =
      extra.size + (frame * s.shape.channels + channel) := by
    rw [whole, Nat.add_mul]
    omega
  unfold sample
  change (extra ++ s.samples)[(frame + n) * s.shape.channels + channel]?.getD 0 = _
  rw [place, Array.getElem?_append_right (Nat.le_add_right _ _), Nat.add_sub_cancel_left]

/-- The added frames alone. -/
theorem lead_sample (inside : frame < n) (own : channel < s.shape.channels)
    (whole : extra.size = n * s.shape.channels) :
    (s.prepended extra).sample frame channel = (⟨extra, s.shape⟩ : Sound S).sample frame channel := by
  have next : (frame + 1) * s.shape.channels ≤ n * s.shape.channels :=
    Nat.mul_le_mul_right _ inside
  rw [Nat.succ_mul] at next
  unfold sample
  change (extra ++ s.samples)[frame * s.shape.channels + channel]?.getD 0 = _
  rw [Array.getElem?_append_left (by omega)]

/-- Other channels for added frames and sound are other channels for each of the two. -/
theorem prepended_remix (own : 0 < s.shape.channels) (whole : extra.size = n * s.shape.channels)
    (channels : Nat) : ∃ lead : Array S, lead.size = n * (s.remix channels).shape.channels ∧
      (s.prepended extra).remix channels = (s.remix channels).prepended lead := by
  by_cases same : s.shape.channels = channels
  · refine ⟨extra, ?_, ?_⟩
    · rw [remix_same same]
      exact whole
    · rw [remix_same same, remix_same (s := s.prepended extra) same]
  · refine ⟨((List.range n).flatMap ((⟨extra, s.shape⟩ : Sound S).mixedFrame channels)).toArray,
      ?_, ?_⟩
    · rw [remix_shape own]
      simp [mixedFrame, List.length_flatMap]
    · have lead : ∀ k ∈ List.range n, (s.prepended extra).mixedFrame channels k =
          (⟨extra, s.shape⟩ : Sound S).mixedFrame channels k := by
        intro k member
        refine List.map_congr_left fun c _ => congrArg (remixed · channels c) ?_
        refine List.map_congr_left fun d listed => ?_
        exact lead_sample (List.mem_range.mp member) (List.mem_range.mp listed) whole
      have rest : ∀ k, (s.prepended extra).mixedFrame channels (n + k) =
          s.mixedFrame channels k := by
        intro k
        refine List.map_congr_left fun c _ => congrArg (remixed · channels c) ?_
        refine List.map_congr_left fun d _ => ?_
        rw [Nat.add_comm]
        exact prepended_sample whole
      rw [remix_other (s := s.prepended extra) own same, remix_other own same,
        prepended_frames own whole, Nat.add_comm, List.range_add, List.flatMap_append,
        List.flatMap_map, List.flatMap_congr lead, List.flatMap_congr fun k _ => rest k]
      simp [prepended]

variable [Narrowing Rat S] {pos : Rat}

/-- What lies behind the added frames sounds as it did without them. -/
theorem prepended_sampleAt (own : 0 < s.shape.channels)
    (whole : extra.size = n * s.shape.channels) (counted : s.frames + n ≤ twoTo 64)
    (low : 0 ≤ pos) (channel : Nat) :
    (s.prepended extra).sampleAt (pos + n) channel = s.sampleAt pos channel := by
  have frames := prepended_frames own whole
  have inside : 0 ≤ pos + n ∧ pos + n < ((s.prepended extra).frames : Rat) ↔
      0 ≤ pos ∧ pos < s.frames := by
    rw [frames, Nat.cast_add, add_lt_add_iff_right]
    exact and_congr_left fun _ => iff_of_true (by positivity) low
  rw [sampleAt_eq (by rw [frames]; exact counted), sampleAt_eq (by omega)]
  split
  · rename_i heard
    have before : ⌊pos⌋₊ < s.frames := (Nat.floor_lt low).mpr (inside.mp heard).2
    have next : min (⌊pos⌋₊ + n + 1) ((s.prepended extra).frames - 1) =
        min (⌊pos⌋₊ + 1) (s.frames - 1) + n := by
      rw [frames]
      omega
    have share : pos + n - ((⌊pos⌋₊ + n : Nat) : Rat) = pos - ⌊pos⌋₊ := by
      push_cast
      ring
    rw [if_pos (inside.mp heard), Nat.floor_add_natCast low, next, prepended_sample whole,
      prepended_sample whole, share]
  · rename_i silent
    rw [if_neg (mt inside.mpr silent)]

end Prepending

end Montage.Sound
