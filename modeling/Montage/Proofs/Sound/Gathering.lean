import Montage.Sound.Mix

/- A mix that comes about is the same under every cancellation flag, and whole: each of its frames
   has a sample in every channel. -/
namespace Montage
variable {K S : Type} [Scalar S]

/-- Nobody has tripped the flag, and nobody will. -/
structure Cancel.Quiet (c : Cancel) : Prop where
  untripped : c.tripped = false
  undisturbed : ∀ m, c.interference m = false

namespace Cancel.Quiet

theorem clear : Cancel.clear.Quiet := ⟨rfl, fun _ => rfl⟩

theorem pass {c : Cancel} (quiet : c.Quiet) (m : Moment) : (c.pass m).Quiet :=
  ⟨by simp [Cancel.pass, quiet.untripped, quiet.undisturbed], quiet.undisturbed⟩

theorem check {c : Cancel} (quiet : c.Quiet) : ∃ after, c.check = (.ok (), after) ∧ after.Quiet := by
  have passed := quiet.pass (.look c.looks)
  refine ⟨c.check.2, ?_, passed.untripped, passed.undisturbed⟩
  unfold Cancel.check Cancel.look
  dsimp only
  rw [passed.untripped]
  rfl

end Cancel.Quiet

theorem sound_flag (library : SoundLibrary K S) (channels : Nat) (media : MediaFile K)
    (g : Gathered K S) (c d : Cancel) :
    (g.sound library channels media c).1 = (g.sound library channels media d).1 := by
  unfold Gathered.sound
  split
  · rfl
  · cases library media <;> rfl

theorem sound_quiet (library : SoundLibrary K S) (channels : Nat) (media : MediaFile K)
    (g : Gathered K S) {c : Cancel} (quiet : c.Quiet) :
    (g.sound library channels media c).2.Quiet := by
  have passed := quiet.pass (.audioDecode g.decodes)
  unfold Gathered.sound
  split
  · exact quiet
  · cases library media <;> exact passed

variable [Scalar K]

theorem gather_quiet (library : SoundLibrary K S) (shape : StreamShape) (total : Nat)
    (clips : List (Scheduled K)) {g : Gathered K S} {c quiet : Cancel} {voices : List (Voice K S)}
    (undisturbed : quiet.Quiet) (gathered : (gather library shape total clips g c).1 = .ok voices) :
    (gather library shape total clips g quiet).1 = .ok voices := by
  induction clips generalizing g c quiet with
  | nil => exact gathered
  | cons clip rest ih =>
    obtain ⟨still, looked, stays⟩ := undisturbed.check
    rw [gather, looked]
    rw [gather] at gathered
    split at gathered
    · cases gathered
    · rename_i c' _
      have same := sound_flag library shape.channels clip.media g still c'
      have kept := sound_quiet library shape.channels clip.media g stays
      dsimp only
      generalize g.sound library shape.channels clip.media still = heard at same kept ⊢
      generalize g.sound library shape.channels clip.media c' = other at same gathered
      obtain ⟨result, flag⟩ := heard
      obtain ⟨result', flag'⟩ := other
      obtain rfl : result = result' := same
      cases result with
      | error e => cases gathered
      | ok made => exact ih kept gathered

variable [Narrowing K S] {p : Project K} {library : SoundLibrary K S} {shape : StreamShape}
  {c : Cancel} {mix : Mix S}

theorem mix_clear (mixed : (p.mix library shape c).1 = .ok mix) :
    (p.mix library shape .clear).1 = .ok mix := by
  unfold Project.mix at mixed ⊢
  dsimp only at mixed ⊢
  split at mixed
  · cases mixed
  · rename_i voices _ gathered
    have quiet := gather_quiet library shape _ _ Cancel.Quiet.clear (congrArg (·.1) gathered)
    split
    · rename_i eq
      rw [eq] at quiet
      cases quiet
    · rename_i eq
      rw [eq] at quiet
      cases quiet
      exact mixed

theorem mix_whole (mixed : (p.mix library shape c).1 = .ok mix) :
    mix.samples.size = mix.frames * max shape.channels 1 := by
  unfold Project.mix at mixed
  dsimp only at mixed
  split at mixed
  · cases mixed
  · cases mixed
    simp only [Mix.ofVoices, Mix.frames, Array.size_ofFn]
    rcases Nat.eq_zero_or_pos shape.channels with none | some
    · simp [none]
    · rw [Nat.max_eq_left some, Nat.mul_div_cancel _ some]

end Montage
