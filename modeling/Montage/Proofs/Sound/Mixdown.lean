import Mathlib.Algebra.BigOperators.Group.List.Basic
import Montage.Proofs.Sound.Summing
import Montage.Proofs.Sound.Voices
import Montage.Proofs.Timeline.Reordering

/- A mix is the sum of its clips: each of its samples adds up what the clips that sound there read
   from their sounds, so that it does not matter in which order a project lists its tracks, their
   clips and its media. -/
namespace Montage

/-- A clip sounds from the frame nearest to its start up to, but not in, the one nearest to its
end. -/
def Scheduled.soundsAt (s : Scheduled Rat) (rate : Rat) (frame : Nat) : Bool :=
  decide (Scalar.round (s.timing.start * rate) ≤ frame) &&
    decide ((frame : Rat) < Scalar.round (s.timing.stop * rate))

/-- What a clip adds to a sample: its sound at the source time of the frame, behind what comes
before the declared length, by its envelope. -/
def Scheduled.part (s : Scheduled Rat) (sound : Sound Rat) (rate : Rat) (frame channel : Nat) : Rat :=
  sound.sampleAt (Voice.priming sound s.media.duration +
      s.timing.sourceTime (frame / rate) * sound.shape.sampleRate) channel *
    clipEnvelope s.transitions (frame / rate - s.timing.start) s.timing.timelineDuration

/-- All that the clips on unmuted audio tracks that take time add to a sample. -/
def Project.soundAt (p : Project Rat) (decoded : MediaFile Rat → Sound Rat) (shape : StreamShape)
    (frame channel : Nat) : Rat :=
  ((p.playedAudio.filter (·.soundsAt shape.sampleRate frame)).map fun s =>
    s.part ((decoded s.media).remix shape.channels) shape.sampleRate frame channel).sum

section Clips
variable {clip : Scheduled Rat} {sound : Sound Rat} {rate : Rat} {total frame channel : Nat}

theorem gain_envelope (clip : Scheduled Rat) (sound : Sound Rat) (rate : Rat) (total : Nat)
    (time : Rat) : (Voice.ofClip rate total clip sound).gain time =
      clipEnvelope clip.transitions (time - clip.timing.start) clip.timing.timelineDuration := by
  unfold Voice.gain
  split
  · rename_i none
    have empty : clip.transitions = [] := List.isEmpty_iff.mp none
    rw [empty]
    rfl
  · rfl

/-- The voice of a clip adds in the frames where the clip sounds, and nowhere else. -/
theorem ofClip_sample (word : total ≤ twoTo 64 - 1) (inside : frame < total) :
    (Voice.ofClip rate total clip sound).sample? rate frame channel =
      if clip.soundsAt rate frame then some (clip.part sound rate frame channel) else none := by
  have begun := frameOf_le_round rate clip.timing.start (inside.trans_le word)
  have ended := frameOf_le_round rate clip.timing.stop (inside.trans_le word)
  have plays : (Voice.ofClip rate total clip sound).first ≤ frame ∧
      frame < (Voice.ofClip rate total clip sound).last ↔ clip.soundsAt rate frame = true := by
    rw [Scheduled.soundsAt, Bool.and_eq_true, decide_eq_true_eq, decide_eq_true_eq, ← begun,
      ← not_le (b := (frame : Rat)), ← ended, not_le]
    change _ ∧ frame < min (Voice.frameOf rate clip.timing.stop) total ↔ _
    rw [lt_min_iff]
    exact and_congr_right fun _ => and_iff_left inside
  unfold Voice.sample?
  refine if_congr plays ?_ rfl
  dsimp only
  rw [gain_envelope]
  rfl

end Clips

section Sums
variable {p : Project Rat} {library : SoundLibrary Rat Rat} {decoded : MediaFile Rat → Sound Rat}
  {shape : StreamShape} {cancel : Cancel}

/-- Sounds of every clip on an unmuted audio track, with channels and a rate. -/
def Project.Decodes (p : Project Rat) (library : SoundLibrary Rat Rat)
    (decoded : MediaFile Rat → Sound Rat) : Prop :=
  ∀ s ∈ p.audioClips, library s.media = .ok (decoded s.media) ∧
    0 < (decoded s.media).shape.channels ∧ (decoded s.media).shape.sampleRate ≠ 0

/-- Frames of a project's mix. -/
def Project.mixFrames (p : Project Rat) (shape : StreamShape) : Nat :=
  min ⌈p.duration * shape.sampleRate⌉.toNat (twoTo 64 - 1)

/-- The buffer of a project's sound. -/
def Project.summed (p : Project Rat) (decoded : MediaFile Rat → Sound Rat) (shape : StreamShape) :
    Mix Rat :=
  { samples := Array.ofFn (n := p.mixFrames shape * shape.channels) fun i =>
      p.soundAt decoded shape (i.val / shape.channels) (i.val % shape.channels)
    shape }

theorem ofVoices_summed (p : Project Rat) (decoded : MediaFile Rat → Sound Rat)
    (shape : StreamShape) :
    Mix.ofVoices (Scalar.ofNat shape.sampleRate) (p.mixFrames shape) shape
      (p.playedAudio.map (Voice.heard decoded shape (p.mixFrames shape))) =
      p.summed decoded shape := by
  have added : ∀ frame channel, frame < p.mixFrames shape →
      ((p.playedAudio.map (Voice.heard decoded shape (p.mixFrames shape))).filterMap fun v =>
        v.sample? (Scalar.ofNat shape.sampleRate : Rat) frame channel).foldl (· + ·) 0 =
      p.soundAt decoded shape frame channel := by
    intro frame channel inside
    have each : (fun v : Voice Rat Rat => v.sample? (Scalar.ofNat shape.sampleRate) frame channel) ∘
        Voice.heard decoded shape (p.mixFrames shape) = fun s =>
          if s.soundsAt shape.sampleRate frame then
            some (s.part ((decoded s.media).remix shape.channels) shape.sampleRate frame channel)
          else none :=
      funext fun s => ofClip_sample (min_le_right _ _) inside
    rw [List.filterMap_map, each, ← List.filterMap_filter]
    change (List.filterMap (some ∘ _) _).foldl _ _ = _
    rw [List.filterMap_eq_map]
    exact (List.sum_eq_foldl (α := Rat)).symm
  unfold Mix.ofVoices Project.summed
  dsimp only
  congr 1
  refine congrArg Array.ofFn (funext fun i => ?_)
  have some : 0 < shape.channels := Nat.pos_of_mul_pos_left (Nat.zero_lt_of_lt i.isLt)
  exact added _ _ ((Nat.div_lt_iff_lt_mul some).mpr i.isLt)

/-- A mix nobody cancels, of sounds that decode, is the sum of the clips. -/
theorem mix_summed (decodes : p.Decodes library decoded) (quiet : cancel.Quiet) :
    (p.mix library shape cancel).1 = .ok (p.summed decoded shape) := by
  have frames : p.soundFrames (Scalar.ofNat shape.sampleRate) = p.mixFrames shape :=
    soundFrames_rat p _
  rw [mix_voices (fun s member => ⟨(decodes s member).1, (decodes s member).2.2⟩) quiet, frames,
    ofVoices_summed]

theorem summed_sample (p : Project Rat) (decoded : MediaFile Rat → Sound Rat) {frame channel : Nat}
    (inside : frame < p.mixFrames shape) (own : channel < shape.channels) :
    (p.summed decoded shape).samples[frame * shape.channels + channel]? =
      some (p.soundAt decoded shape frame channel) := by
  have next : (frame + 1) * shape.channels ≤ p.mixFrames shape * shape.channels :=
    Nat.mul_le_mul_right _ inside
  rw [Nat.succ_mul] at next
  have place : frame * shape.channels + channel < p.mixFrames shape * shape.channels := by omega
  obtain ⟨row, column⟩ := (place_iff own).mp (rfl : frame * shape.channels + channel = _)
  rw [Project.summed, Array.getElem?_ofFn, dif_pos place, ← row, ← column]

theorem summed_frames (p : Project Rat) (decoded : MediaFile Rat → Sound Rat)
    (some : 0 < shape.channels) : (p.summed decoded shape).frames = p.mixFrames shape := by
  have size : (p.summed decoded shape).samples.size = p.mixFrames shape * shape.channels :=
    Array.size_ofFn
  rw [Mix.frames, size]
  change _ / max shape.channels 1 = _
  rw [Nat.max_eq_left some, Nat.mul_div_cancel _ some]

/-- Voice by voice, the buffer is filled without a sample missing that is read or changed. -/
theorem added_summed (decodes : p.Decodes library decoded) :
    Mix.added? (Scalar.ofNat shape.sampleRate) (p.mixFrames shape) shape.channels
      (p.playedAudio.map (Voice.heard decoded shape (p.mixFrames shape))) =
      some (p.summed decoded shape).samples := by
  rw [added_mix shape, ofVoices_summed]
  · intro v member
    obtain ⟨s, -, rfl⟩ := List.mem_map.mp member
    exact min_le_right _ _
  · intro v member
    obtain ⟨s, played, rfl⟩ := List.mem_map.mp member
    have channels := (decodes s (Project.mem_playedAudio.mp played).1).2.1
    apply Voice.reads_there
    change shape.channels ≤ ((decoded s.media).remix shape.channels).shape.channels
    rw [Sound.remix_shape channels]

theorem soundAt_level (p : Project Rat) (decoded : MediaFile Rat → Sound Rat)
    (frame channel : Nat) : p.soundAt decoded shape frame channel =
      (((p.audioClips.map Scheduled.level).filter fun s =>
        s.soundsAt shape.sampleRate frame && s.isPlayed).map fun s =>
        s.part ((decoded s.media).remix shape.channels) shape.sampleRate frame channel).sum := by
  rw [Project.soundAt, Project.playedAudio_eq, List.filter_filter, List.filter_map, List.map_map]
  rfl

theorem summed_alike {q : Project Rat} (alike : p.SoundsAlike q)
    (decoded : MediaFile Rat → Sound Rat) (shape : StreamShape) :
    q.summed decoded shape = p.summed decoded shape := by
  have frames : q.mixFrames shape = p.mixFrames shape := by
    rw [Project.mixFrames, Project.mixFrames, alike.duration]
  have sounds : q.soundAt decoded shape = p.soundAt decoded shape := by
    funext frame channel
    rw [soundAt_level, soundAt_level]
    exact ((alike.clips.filter _).map _).sum_eq.symm
  rw [Project.summed, Project.summed, frames, sounds]

theorem Project.Decodes.alike {q : Project Rat} (decodes : p.Decodes library decoded)
    (alike : p.SoundsAlike q) : q.Decodes library decoded := by
  intro s member
  obtain ⟨r, listed, same⟩ :=
    List.mem_map.mp (alike.clips.mem_iff.mpr (List.mem_map_of_mem member))
  have media : r.level.media = s.level.media := congrArg Scheduled.media same
  change r.media = s.media at media
  rw [← media]
  exact decodes r listed

end Sums

/-- The sound of a project: a frame for each that its length takes, as far as a word counts them,
and in each of its samples the sum of what the clips add, silence where none sounds. Adding voice
by voice makes the same buffer, and finds every sample it reads and every place it adds to. -/
structure Mixdown (p : Project Rat) (decoded : MediaFile Rat → Sound Rat) (shape : StreamShape)
    (mix : Mix Rat) : Prop where
  form : mix.shape = shape
  size : mix.samples.size =
    min ⌈p.duration * shape.sampleRate⌉.toNat (twoTo 64 - 1) * shape.channels
  frames : 0 < shape.channels →
    mix.frames = min ⌈p.duration * shape.sampleRate⌉.toNat (twoTo 64 - 1)
  sample : ∀ frame channel, frame < p.mixFrames shape → channel < shape.channels →
    mix.samples[frame * shape.channels + channel]? = some (p.soundAt decoded shape frame channel)
  silent : ∀ frame channel, frame < p.mixFrames shape → channel < shape.channels →
    (∀ s ∈ p.playedAudio, s.soundsAt shape.sampleRate frame = false) →
    mix.samples[frame * shape.channels + channel]? = some 0
  added : Mix.added? (Scalar.ofNat shape.sampleRate) (p.mixFrames shape) shape.channels
    (p.playedAudio.map (Voice.heard decoded shape (p.mixFrames shape))) = some mix.samples

/-- Of sounds that decode, a mix that nobody cancels adds up the clips, and it is the same for a
project with its tracks, the clips on them or its media in another order. -/
theorem mix_adds_clips {p : Project Rat} {library : SoundLibrary Rat Rat}
    {decoded : MediaFile Rat → Sound Rat} {cancel : Cancel}
    (decodes : p.Decodes library decoded) (quiet : cancel.Quiet) (shape : StreamShape) :
    ∃ mix, (p.mix library shape cancel).1 = .ok mix ∧ Mixdown p decoded shape mix ∧
      ∀ q, Relation.ReflTransGen Project.Reorders p q →
        (q.mix library shape cancel).1 = .ok mix := by
  refine ⟨p.summed decoded shape, mix_summed decodes quiet, ?_, ?_⟩
  · refine ⟨rfl, Array.size_ofFn, summed_frames p decoded, ?_, ?_, added_summed decodes⟩
    · intro frame channel inside own
      exact summed_sample p decoded inside own
    · intro frame channel inside own none
      have empty : p.playedAudio.filter (·.soundsAt shape.sampleRate frame) = [] := by
        simpa [List.filter_eq_nil_iff] using none
      rw [summed_sample p decoded inside own, Project.soundAt, empty]
      rfl
  · intro q steps
    have alike := Project.reordered_alike steps
    rw [← summed_alike alike]
    exact mix_summed (decodes.alike alike) quiet

/-- Clips of two files on a track each: one that fades out, and one that is played backwards and
begins while the first still sounds. -/
def duet : Project Rat :=
  { id := "p"
    name := "p"
    mediaFiles := [.ofAudio "a" "/a/a.wav" 1, .ofAudio "b" "/a/b.wav" 1]
    tracks := [⟨"upper", .audio, [.new "fading" "a" 0], false⟩,
      ⟨"lower", .audio, [{ Clip.new "backwards" "b" (1 / 2) with reverse := true }], false⟩]
    transitions := [⟨"t", "fading", .fadeOut, 1⟩]
    framerate := 10 }

/-- One channel at four frames a second, or two channels at two, of which the first frame comes
before the declared length. -/
def duetSound (media : MediaFile Rat) : Sound Rat :=
  if media.id = "a" then ⟨#[8, 16, 24, 32], 1, 4⟩ else ⟨#[9, 9, 10, 20, 30, 40], 2, 2⟩

theorem mix_adds_clips_duet :
    ∃ mix, (duet.mix (fun media => .ok (duetSound media)) ⟨2, 4⟩ .clear).1 = .ok mix ∧
      mix.frames = 6 ∧ mix.samples[3 * 2 + 1]? = some (32 / 4 + 40) ∧
      ({ duet with tracks := duet.tracks.reverse }.mix (fun media => .ok (duetSound media)) ⟨2, 4⟩
        .clear).1 = .ok mix := by
  have decodes : duet.Decodes (fun media => .ok (duetSound media)) duetSound :=
    fun s member => ⟨rfl, by revert s; decide +kernel⟩
  obtain ⟨mix, mixed, sums, reordered⟩ := mix_adds_clips decodes .clear ⟨2, 4⟩
  refine ⟨mix, mixed, ?_, ?_, reordered _ (.single (.tracks duet (List.reverse_perm _).symm))⟩
  · rw [sums.frames (by decide)]
    decide +kernel
  · rw [sums.sample 3 1 (by decide +kernel) (by decide)]
    decide +kernel

end Montage
