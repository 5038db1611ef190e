import Mathlib.Data.List.Forall2
import Montage.Stream.Pipeline

/- What a writer has taken in a streaming render: pictures of the first frames of the timeline, each
   waited for, then blocks from the start of the mix. One picture or one block more keeps that. -/
namespace Montage

/-- What an encoder hears of a sample: itself, or the end of the range that it has left. -/
inductive Clipped {S : Type} [Scalar S] : S → S → Prop where
  | below {x : S} (low : x < -1) : Clipped x (-1)
  | above {x : S} (high : 1 < x) : Clipped x 1
  | within {x : S} (low : ¬ x < -1) (high : ¬ 1 < x) : Clipped x x

theorem clamp_clipped {S : Type} [Scalar S] (x : S) : Clipped x (Scalar.clamp (-1) 1 x) := by
  unfold Scalar.clamp
  split
  · rename_i low
    exact .below low
  · rename_i low
    split
    · rename_i high
      exact .above high
    · rename_i high
      exact .within low high

theorem limited_clipped {S : Type} [Scalar S] (samples : List S) :
    List.Forall₂ Clipped samples (Sound.limited samples) := by
  induction samples with
  | nil => exact .nil
  | cons x rest ih => exact .cons (clamp_clipped x) ih

namespace Writer

/-- Pictures that the encoder was handed, those that it completed before those that wait. -/
def handed (w : Writer) : List RecordedFrame := w.done ++ w.waiting

/-- The writer was handed the pictures of the first frames, and its encoder has kept up. -/
structure Filmed (spec : OutputSpec) (traits : EncoderTraits) (depth count : Nat) (w : Writer) :
    Prop where
  output : w.spec = spec
  encoder : w.traits = traits
  shots : (w.handed.map fun f => (f.timestamp, f.keyframe)) =
    (List.range count).map fun i =>
      (frameTimestamp i spec.fps, i % max spec.keyframeInterval 1 == 0)
  submitted : w.handed = w.frames.toList.map Submission.recorded
  ascending : w.handed.Pairwise fun a b => a.timestamp < b.timestamp
  latest : ∀ f ∈ w.handed, ∃ last, w.lastTimestamp = some last ∧ f.timestamp ≤ last
  waiting : w.pending ≤ depth
  most : w.mostPending ≤ depth + 1

/-- No sound has been taken yet. -/
structure Mute (w : Writer) : Prop where
  blocks : w.blocks = #[]
  audio : w.audio = w.spec.audio.map fun a => ⟨a.shape.sampleRate, a.shape.channels, 0, 0, 0⟩

/-- The blocks are the mix up to a frame, all of one size but perhaps the last. -/
structure Sounded (shape : StreamShape) (mix : Mix Float32) (size start : Nat) (w : Writer) :
    Prop where
  samples : w.blocks.toList.flatMap (·.samples) =
    Sound.limited (mix.samples.extract 0 (start * max shape.channels 1)).toList
  track : ∃ peak, w.audio =
    some ⟨shape.sampleRate, shape.channels, start, w.blocks.size, peak⟩
  count : w.blocks.size = (start + size - 1) / size
  edge : start = mix.frames ∨ start = w.blocks.size * size

/-- The writer while the frames are drawn. -/
def Filming (spec : OutputSpec) (traits : EncoderTraits) (depth count : Nat) (w : Writer) : Prop :=
  w.Filmed spec traits depth count ∧ w.Mute

/-- The writer while the blocks of a mix follow the frames. -/
def Voicing (spec : OutputSpec) (traits : EncoderTraits) (depth count : Nat) (shape : StreamShape)
    (mix : Mix Float32) (start : Nat) (w : Writer) : Prop :=
  w.Filmed spec traits depth count ∧ w.Sounded shape mix (max traits.frameSize 1) start

variable {w after : Writer}

theorem encodeVideo_ok {image : Image} {timestamp : Int} {keyframe : Bool}
    (encoded : w.encodeVideo image timestamp keyframe = .ok after) :
    (∀ last, w.lastTimestamp = some last → last < timestamp) ∧
      after = { w with
        frames := w.frames.push ⟨image, timestamp, keyframe⟩
        waiting := w.waiting ++ [⟨timestamp, keyframe, image.centre⟩]
        lastTimestamp := some timestamp
        mostPending := max w.mostPending (w.pending + 1) } := by
  unfold encodeVideo at encoded
  split at encoded
  · cases encoded
  · split at encoded
    · cases encoded
    · split at encoded
      · cases encoded
      · rename_i later
        cases encoded
        refine ⟨?_, by simp [pending, Submission.recorded]⟩
        intro last known
        simpa [known] using later

theorem encodeAudio_ok {block : AudioBlock} (encoded : w.encodeAudio block = .ok after) :
    ∃ track peak, w.audio = some track ∧ after = { w with
      blocks := w.blocks.push block
      audio := some
        ⟨track.sampleRate, track.channels, track.frames + block.frames, track.blocks + 1, peak⟩ } := by
  unfold encodeAudio at encoded
  split at encoded
  · cases encoded
  · split at encoded
    · cases encoded
    · rename_i track has
      dsimp only at encoded
      split at encoded
      · cases encoded
      · cases encoded
        exact ⟨track, _, has, rfl⟩

/-- An encoder at work completes pictures that wait, in their order; nothing else changes. -/
structure Worked (w after : Writer) : Prop where
  same : after = { w with waiting := after.waiting, done := after.done }
  order : after.handed = w.handed

theorem Worked.refl (w : Writer) : w.Worked w := ⟨rfl, rfl⟩

theorem Worked.trans {middle : Writer} (first : w.Worked middle) (next : middle.Worked after) :
    w.Worked after := by
  refine ⟨?_, next.order.trans first.order⟩
  rw [next.same, first.same]

theorem complete_worked (w : Writer) : w.Worked w.complete.2 := by
  unfold complete
  split
  · exact .refl w
  · rename_i f rest waits
    exact ⟨rfl, by simp [handed, waits]⟩

theorem poll_worked (w : Writer) : w.Worked w.poll.2 := by
  unfold poll
  split
  · exact .refl w
  · exact complete_worked w

/-- With as many turns as pictures wait, all of them are done. -/
theorem completeUpTo_all {n : Nat} (w : Writer) (enough : w.pending ≤ n) :
    w.completeUpTo n = { w with waiting := [], done := w.handed } := by
  induction n generalizing w with
  | zero =>
    have none : w.waiting = [] := List.length_eq_zero_iff.mp (Nat.le_zero.mp enough)
    simp only [completeUpTo, handed, none, List.append_nil]
    rw [← none]
  | succ n ih =>
    rw [completeUpTo, complete]
    cases waits : w.waiting with
    | nil =>
      simp only [handed, waits, List.append_nil]
      rw [← waits]
    | cons f rest =>
      have fewer : rest.length ≤ n := by
        rw [pending, waits] at enough
        exact Nat.le_of_succ_le_succ enough
      have rest_done := ih { w with waiting := rest, done := w.done ++ [f] } fewer
      exact rest_done.trans (by simp [handed, waits])

end Writer

/-- Waiting lets the encoder work, and ends well with few enough pictures waiting. -/
theorem drainUpTo_spec (depth : Nat) (deadline : Deadline) (n : Nat) (w : Writer) (clock : Clock) :
    w.Worked (drainUpTo depth deadline n w clock).2.1 ∧
      ((drainUpTo depth deadline n w clock).1 = .ok () →
        (drainUpTo depth deadline n w clock).2.1.pending ≤ depth) := by
  induction n generalizing w clock with
  | zero => exact ⟨.refl w, nofun⟩
  | succ n ih =>
    have polled := w.poll_worked
    rw [drainUpTo]
    split
    · rename_i few
      exact ⟨.refl w, fun _ => few⟩
    · split
      · rename_i after eq
        rw [eq] at polled
        split
        · exact ⟨polled, nofun⟩
        · exact (ih _ _).imp_left polled.trans
      · rename_i after _ eq
        rw [eq] at polled
        exact (ih _ _).imp_left polled.trans

theorem drain_spec (depth timeout : Nat) (w : Writer) (clock : Clock) :
    w.Worked (drain depth timeout w clock).2.1 ∧
      ((drain depth timeout w clock).1 = .ok () →
        (drain depth timeout w clock).2.1.pending ≤ depth) := by
  unfold drain
  split
  · rename_i few
    exact ⟨.refl w, fun _ => few⟩
  · exact drainUpTo_spec _ _ _ _ _

namespace Writer
variable {w middle after : Writer} {spec : OutputSpec} {traits : EncoderTraits}
  {depth count timeout : Nat} {clock later : Clock} {image : Image}

/-- A new writer has been handed nothing. -/
theorem new_filming (spec : OutputSpec) (traits : EncoderTraits) (depth : Nat) :
    (new spec traits).Filming spec traits depth 0 where
  left := {
    output := rfl
    encoder := rfl
    shots := rfl
    submitted := rfl
    ascending := .nil
    latest := nofun
    waiting := Nat.zero_le _
    most := Nat.zero_le _ }
  right := ⟨rfl, rfl⟩

theorem Worked.filming (worked : w.Worked after) (filming : w.Filming spec traits depth count)
    (few : after.pending ≤ depth) : after.Filming spec traits depth count := by
  obtain ⟨filmed, mute⟩ := filming
  have same := worked.same
  have order := worked.order
  have output : after.spec = w.spec := by rw [same]
  have encoder : after.traits = w.traits := by rw [same]
  have frames : after.frames = w.frames := by rw [same]
  have latest : after.lastTimestamp = w.lastTimestamp := by rw [same]
  have most : after.mostPending = w.mostPending := by rw [same]
  have blocks : after.blocks = w.blocks := by rw [same]
  have audio : after.audio = w.audio := by rw [same]
  refine ⟨⟨output.trans filmed.output, encoder.trans filmed.encoder, ?_, ?_, ?_, ?_, few, ?_⟩, ?_, ?_⟩
  · rw [order, filmed.shots]
  · rw [order, frames, filmed.submitted]
  · rw [order]
    exact filmed.ascending
  · rw [order, latest]
    exact filmed.latest
  · rw [most]
    exact filmed.most
  · exact blocks.trans mute.blocks
  · rw [audio, output, mute.audio]

/-- One more picture is handed over, later than those before it. -/
theorem Filming.submits (filming : w.Filming spec traits depth count)
    (encoded : w.encodeVideo image (frameTimestamp count spec.fps)
      (count % max spec.keyframeInterval 1 == 0) = .ok middle) :
    middle.Filming spec traits (depth + 1) (count + 1) ∧ middle.mostPending ≤ depth + 1 := by
  obtain ⟨filmed, mute⟩ := filming
  obtain ⟨rising, rfl⟩ := encodeVideo_ok encoded
  let shot : RecordedFrame :=
    ⟨frameTimestamp count spec.fps, count % max spec.keyframeInterval 1 == 0, image.centre⟩
  have handed : ({ w with
      frames := w.frames.push ⟨image, frameTimestamp count spec.fps,
        count % max spec.keyframeInterval 1 == 0⟩
      waiting := w.waiting ++ [shot]
      lastTimestamp := some (frameTimestamp count spec.fps)
      mostPending := max w.mostPending (w.pending + 1) } : Writer).handed = w.handed ++ [shot] :=
    (List.append_assoc _ _ _).symm
  have before : ∀ f ∈ w.handed, f.timestamp < frameTimestamp count spec.fps := by
    intro f member
    obtain ⟨last, known, order⟩ := filmed.latest f member
    exact Int.lt_of_le_of_lt order (rising last known)
  have few := filmed.waiting
  have most := filmed.most
  have high : max w.mostPending (w.pending + 1) ≤ depth + 1 := by omega
  refine ⟨⟨⟨filmed.output, filmed.encoder, ?_, ?_, ?_, ?_, ?_, ?_⟩, mute.blocks, mute.audio⟩, high⟩
  · rw [handed, List.map_append, filmed.shots, List.range_succ, List.map_append]
    rfl
  · rw [handed, filmed.submitted, Array.toList_push, List.map_append]
    rfl
  · rw [handed, List.pairwise_append]
    refine ⟨filmed.ascending, List.pairwise_singleton _ _, fun f member g new => ?_⟩
    rw [List.mem_singleton.mp new]
    exact before f member
  · intro f member
    refine ⟨_, rfl, ?_⟩
    rw [handed] at member
    rcases List.mem_append.mp member with old | new
    · exact Int.le_of_lt (before f old)
    · exact Int.le_of_eq (congrArg RecordedFrame.timestamp (List.mem_singleton.mp new))
  · simpa [pending] using few
  · exact Nat.le_succ_of_le high

/-- One more picture, encoded and waited for. -/
theorem Filming.next (filming : w.Filming spec traits depth count)
    (encoded : w.encodeVideo image (frameTimestamp count spec.fps)
      (count % max spec.keyframeInterval 1 == 0) = .ok middle)
    (drained : drain depth timeout middle clock = (.ok (), after, later)) :
    after.Filming spec traits depth (count + 1) := by
  obtain ⟨⟨filmed, mute⟩, most⟩ := filming.submits encoded
  have waited := drain_spec depth timeout middle clock
  rw [drained] at waited
  obtain ⟨worked, few⟩ := waited
  dsimp only at worked few
  obtain ⟨done, silent⟩ := worked.filming ⟨filmed, mute⟩ (Nat.le_succ_of_le (few rfl))
  have same : after.mostPending = middle.mostPending := by rw [worked.same]
  exact ⟨{ done with waiting := few rfl, most := same ▸ most }, silent⟩

section Sound
variable {shape : StreamShape} {mix : Mix Float32} {size start stop : Nat}

theorem block_frames (whole : mix.samples.size = mix.frames * max shape.channels 1)
    (inside : stop ≤ mix.frames) : (Production.block shape mix start stop).frames = stop - start := by
  have fits : stop * max shape.channels 1 ≤ mix.samples.size := by
    rw [whole]
    exact Nat.mul_le_mul_right _ inside
  have length : (Production.block shape mix start stop).samples.length =
      (stop - start) * max shape.channels 1 := by
    simp [Production.block, Sound.limited, Nat.sub_mul]
    omega
  rw [AudioBlock.frames, length]
  exact Nat.mul_div_cancel _ (Nat.lt_of_lt_of_le Nat.one_pos (Nat.le_max_right _ _))

/-- The mix up to the end of a block is what comes before the block, and then the block. -/
theorem block_follows (ordered : start ≤ stop) :
    Sound.limited (mix.samples.extract 0 (stop * max shape.channels 1)).toList =
      Sound.limited (mix.samples.extract 0 (start * max shape.channels 1)).toList ++
        (Production.block shape mix start stop).samples := by
  have joined : mix.samples.extract 0 (start * max shape.channels 1) ++
      mix.samples.extract (start * max shape.channels 1) (stop * max shape.channels 1) =
      mix.samples.extract 0 (stop * max shape.channels 1) := by
    rw [Array.extract_append_extract, Nat.zero_min,
      Nat.max_eq_right (Nat.mul_le_mul_right _ ordered)]
  rw [← joined, Array.toList_append]
  exact List.map_append

theorem Mute.sounded (mute : w.Mute) {audio : AudioSpec} (asked : w.spec.audio = some audio)
    (positive : 0 < size) : w.Sounded audio.shape mix size 0 where
  samples := by simp [mute.blocks, Sound.limited]
  track := ⟨0, by simp [mute.audio, mute.blocks, asked]⟩
  count := by
    rw [mute.blocks, Nat.zero_add, Nat.div_eq_of_lt (Nat.sub_one_lt_of_lt positive)]
    rfl
  edge := .inr (by simp [mute.blocks])

/-- One more block, a short one at the end of the mix. -/
theorem Sounded.next (sounded : w.Sounded shape mix size start) (positive : 0 < size)
    (inside : start < mix.frames) (whole : mix.samples.size = mix.frames * max shape.channels 1)
    (stops : stop = min (start + size) mix.frames)
    (encoded : w.encodeAudio (Production.block shape mix start stop) = .ok after) :
    after.Sounded shape mix size stop := by
  obtain ⟨track, peak, has, rfl⟩ := encodeAudio_ok encoded
  have full : start = w.blocks.size * size := by
    rcases sounded.edge with last | full
    · omega
    · exact full
  have before : start < stop := by omega
  refine ⟨?_, ?_, ?_, ?_⟩
  · rw [block_follows (Nat.le_of_lt before), Array.toList_push, List.flatMap_append, sounded.samples,
      List.flatMap_singleton]
  · obtain ⟨old, known⟩ := sounded.track
    rw [known] at has
    obtain rfl := Option.some.inj has
    refine ⟨peak, ?_⟩
    rw [block_frames whole (by omega)]
    simp
    omega
  · rw [Array.size_push]
    symm
    apply Nat.div_eq_of_lt_le
    · rw [Nat.succ_mul]
      omega
    · rw [Nat.succ_mul, Nat.succ_mul]
      omega
  · rw [Array.size_push, Nat.succ_mul]
    omega

theorem Voicing.next (voicing : w.Voicing spec traits depth count shape mix start)
    (inside : start < mix.frames) (whole : mix.samples.size = mix.frames * max shape.channels 1)
    (encoded : w.encodeAudio (Production.block shape mix start
      (min (start + max traits.frameSize 1) mix.frames)) = .ok after) :
    after.Voicing spec traits depth count shape mix
      (min (start + max traits.frameSize 1) mix.frames) := by
  refine ⟨?_, voicing.2.next (by omega) inside whole rfl encoded⟩
  obtain ⟨track, peak, -, rfl⟩ := encodeAudio_ok encoded
  have filmed := voicing.1
  exact { filmed with }

end Sound
end Writer
end Montage
