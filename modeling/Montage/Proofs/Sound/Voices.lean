import Montage.Proofs.Number.Exact
import Montage.Proofs.Sound.Gathering
import Montage.Proofs.Timeline.Placement

/- The voices of a mix: one for each audio clip that takes time, with the sound of its media. A
   voice plays in the frames whose times lie inside its clip, give or take half a frame. -/
namespace Montage

section Gathering
variable {K S : Type} [Scalar S] {library : SoundLibrary K S} {decoded : MediaFile K → Sound S}
  {channels : Nat} {cancel : Cancel} {g : Gathered K S}

theorem remix_rate (sound : Sound S) (channels : Nat) :
    (sound.remix channels).shape.sampleRate = sound.shape.sampleRate := by
  unfold Sound.remix
  dsimp only
  split <;> rfl

/-- Sounds that are kept are those of the media that go by their identifier. -/
def Gathered.Faithful (g : Gathered K S) (decoded : MediaFile K → Sound S) (channels : Nat)
    (media : MediaFile K) : Prop :=
  ∀ e ∈ g.sounds, e.1 = media.id → e.2 = (decoded media).remix channels

theorem sound_decoded {media : MediaFile K} (faithful : g.Faithful decoded channels media)
    (decodes : library media = .ok (decoded media)) (cancel : Cancel) :
    ∃ after, (g.sound library channels media cancel).1 =
        .ok ((decoded media).remix channels, after) ∧ after.voices = g.voices ∧
      ∀ e ∈ after.sounds, e ∈ g.sounds ∨ e = (media.id, (decoded media).remix channels) := by
  unfold Gathered.sound
  split
  · rename_i e found
    have same : e.1 = media.id := by simpa using List.find?_some found
    rw [faithful e (List.mem_of_find?_eq_some found) same]
    exact ⟨g, rfl, rfl, fun e member => .inl member⟩
  · rw [decodes]
    refine ⟨_, rfl, rfl, ?_⟩
    intro e member
    rcases List.mem_cons.mp member with rfl | member
    · exact .inr rfl
    · exact .inl member

variable [Scalar K] {shape : StreamShape}

/-- The voice of a clip. -/
def Voice.heard (decoded : MediaFile K → Sound S) (shape : StreamShape) (total : Nat)
    (clip : Scheduled K) : Voice K S :=
  .ofClip (Scalar.ofNat shape.sampleRate) total clip ((decoded clip.media).remix shape.channels)

theorem gather_voices (total : Nat) {clips : List (Scheduled K)} (quiet : cancel.Quiet)
    (decodes : ∀ s ∈ clips, library s.media = .ok (decoded s.media) ∧
      (decoded s.media).shape.sampleRate ≠ 0)
    (named : ∀ s ∈ clips, ∀ r ∈ clips, s.media.id = r.media.id → s.media = r.media)
    (faithful : ∀ s ∈ clips, g.Faithful decoded shape.channels s.media) :
    (gather library shape total clips g cancel).1 =
      .ok (g.voices.reverse ++
        (clips.filter (·.isPlayed)).map (Voice.heard decoded shape total)) := by
  induction clips generalizing g cancel with
  | nil => simp [gather]
  | cons clip rest ih =>
    have inner : ∀ {s}, s ∈ rest → s ∈ clip :: rest := fun member => List.mem_cons_of_mem _ member
    obtain ⟨decode, rate⟩ := decodes clip List.mem_cons_self
    obtain ⟨after, looked, stays⟩ := quiet.check
    have kept := sound_quiet library shape.channels clip.media g stays
    obtain ⟨filled, sounds, voices, grown⟩ :=
      sound_decoded (faithful clip List.mem_cons_self) decode after
    have faithful' : ∀ s ∈ rest, filled.Faithful decoded shape.channels s.media := by
      intro s member e mem same
      rcases grown e mem with old | rfl
      · exact faithful s (inner member) e old same
      · rw [named clip List.mem_cons_self s (inner member) same]
    rw [gather, looked]
    dsimp only
    generalize g.sound library shape.channels clip.media after = heard at sounds kept ⊢
    obtain ⟨result, flag⟩ := heard
    dsimp only at sounds kept
    subst sounds
    dsimp only
    have audible : (((decoded clip.media).remix shape.channels).shape.sampleRate == 0) = false := by
      rw [remix_rate]
      simpa using rate
    rw [audible, Bool.or_false, ih kept (fun s member => decodes s (inner member))
      (fun s hs r hr => named s (inner hs) r (inner hr))]
    · cases played : clip.isPlayed with
      | false => simp [played, voices]
      | true => simp [played, voices, Voice.heard]
    · intro s member
      split
      · exact faithful' s member
      · exact faithful' s member

variable [Narrowing K S]

/-- A mix nobody cancels is that of one voice for each audio clip that takes time. -/
theorem mix_voices {p : Project K}
    (decodes : ∀ s ∈ p.audioClips, library s.media = .ok (decoded s.media) ∧
      (decoded s.media).shape.sampleRate ≠ 0) (quiet : cancel.Quiet) :
    (p.mix library shape cancel).1 =
      .ok (Mix.ofVoices (Scalar.ofNat shape.sampleRate)
        (p.soundFrames (Scalar.ofNat shape.sampleRate)) shape
        (p.playedAudio.map
          (Voice.heard decoded shape (p.soundFrames (Scalar.ofNat shape.sampleRate))))) := by
  have fresh : ∀ s ∈ p.audioClips,
      (⟨[], 0, []⟩ : Gathered K S).Faithful decoded shape.channels s.media := by
    intro s _ e member
    cases member
  have gathered :=
    gather_voices (p.soundFrames (Scalar.ofNat shape.sampleRate)) quiet decodes
      (fun _ hs _ hr => Project.audioClips_media hs hr) fresh
  rw [← Project.playedAudio_eq] at gathered
  change (gather library shape _ ((p.unmuted.filter fun c => c.track.isAudio).map p.schedule) _ _).1 =
    _ at gathered
  unfold Project.mix
  dsimp only
  generalize gather library shape _ ((p.unmuted.filter fun c => c.track.isAudio).map p.schedule)
    ⟨[], 0, []⟩ cancel = made at gathered ⊢
  obtain ⟨result, flag⟩ := made
  dsimp only at gathered
  subst gathered
  rfl

end Gathering

section Frames
variable {rate time : Rat} {n : Nat}

/-- The frame of a time is the whole number nearest to it, as far as words go. -/
theorem frameOf_le_round (rate time : Rat) (word : n < twoTo 64 - 1) :
    Voice.frameOf rate time ≤ n ↔ Scalar.round (time * rate) ≤ n := by
  obtain ⟨k, rounded, -, -⟩ := Scalar.round_rat (time * rate)
  have frame : Voice.frameOf rate time = min (max k 0).toNat (twoTo 64 - 1) := by
    unfold Voice.frameOf
    rw [rounded, Scalar.max_rat, ← Scalar.toCount_whole]
    push_cast
    rfl
  have whole : Voice.frameOf rate time ≤ n ↔ k ≤ (n : Int) := by
    rw [frame]
    omega
  rw [whole, rounded]
  exact_mod_cast Iff.rfl

/-- The frame of a time that lies at least a millisecond from another frame, at a thousand frames a
second or more, is no later than that one exactly when the time is not. -/
theorem frameOf_le_iff (fast : 1000 ≤ rate) (word : n < twoTo 64 - 1)
    (far : 1 / 1000 ≤ |(n : Rat) / rate - time|) :
    Voice.frameOf rate time ≤ n ↔ time ≤ (n : Rat) / rate := by
  have positive : 0 < rate := by linarith
  have back : (n : Rat) / rate * rate = n := div_mul_cancel₀ _ positive.ne'
  obtain ⟨k, rounded, above, below⟩ := Scalar.round_rat (time * rate)
  rw [frameOf_le_round rate time word, rounded]
  rcases le_abs.mp far with after | before
  · have apart : (n : Rat) - time * rate ≥ 1 := by nlinarith
    exact iff_of_true (by linarith) (by linarith)
  · have apart : time * rate - n ≥ 1 := by nlinarith
    exact iff_of_false (by linarith) (by linarith)

theorem soundFrames_rat (p : Project Rat) (rate : Rat) :
    p.soundFrames rate = min ⌈p.duration * rate⌉.toNat (twoTo 64 - 1) := by
  unfold Project.soundFrames
  rw [Scalar.ceil_rat, Scalar.toCount_whole]

variable {S : Type} [Scalar S] [Narrowing Rat S]

/-- A voice adds to a frame at least a millisecond from its clip's ends exactly when the frame's
time lies inside the clip. -/
theorem ofClip_sounds (clip : Scheduled Rat) (sound : Sound S) {total channel : Nat}
    (fast : 1000 ≤ rate) (word : total ≤ twoTo 64 - 1) (inside : n < total)
    (begins : 1 / 1000 ≤ |(n : Rat) / rate - clip.timing.start|)
    (ends : 1 / 1000 ≤ |(n : Rat) / rate - clip.timing.stop|) :
    ((Voice.ofClip rate total clip sound).sample? rate n channel).isSome =
      clip.timing.contains ((n : Rat) / rate) := by
  have begun := frameOf_le_iff fast (inside.trans_le word) begins
  have ended := frameOf_le_iff fast (inside.trans_le word) ends
  have window : (Voice.ofClip rate total clip sound).first ≤ n ∧
      n < (Voice.ofClip rate total clip sound).last ↔
        clip.timing.start ≤ (n : Rat) / rate ∧ (n : Rat) / rate < clip.timing.stop := by
    rw [← begun, ← not_le (a := clip.timing.stop), ← ended, not_le]
    change _ ∧ n < min (Voice.frameOf rate clip.timing.stop) total ↔ _
    rw [lt_min_iff]
    exact ⟨fun both => ⟨both.1, both.2.1⟩, fun both => ⟨both.1, both.2, inside⟩⟩
  rw [Bool.eq_iff_iff, Timing.contains, Bool.and_eq_true, decide_eq_true_eq, decide_eq_true_eq,
    ← window]
  unfold Voice.sample?
  split
  · rename_i within
    exact iff_of_true rfl within
  · rename_i without
    exact iff_of_false Bool.false_ne_true without

end Frames
end Montage
