import Montage.Proofs.Sound.Sampling
import Montage.Proofs.Timeline.Placement
import Montage.Sound.Mix

/- Frames that come before the declared ones are not heard: whatever they hold and however many
   they are, the mix is the same as without them. -/
namespace Montage

/-- A window of a source that does not begin before it. -/
structure Timing.Windowed (t : Timing Rat) : Prop where
  low : 0 ≤ t.sourceStart
  ordered : t.sourceStart ≤ t.sourceEnd

theorem Timing.Windowed.sourceTime_nonneg {t : Timing Rat} (h : t.Windowed) (time : Rat) :
    0 ≤ t.sourceTime time :=
  h.low.trans (Scalar.low_le_clamp h.ordered _)

theorem Clip.timing_windowed (c : Clip Rat) (m : MediaFile Rat) : (c.timing m).Windowed := by
  constructor
  · change 0 ≤ Scalar.max c.trimStart 0
    rw [Scalar.max_rat]
    exact le_max_right _ _
  · change Scalar.max c.trimStart 0 ≤ Scalar.max (m.duration - c.trimEnd) (Scalar.max c.trimStart 0)
    rw [Scalar.max_rat (m.duration - c.trimEnd)]
    exact le_max_right _ _

/-- The same sound, or one with so many frames more before its own, which last at least as long as
the media declares. -/
inductive Sound.Primed {S : Type} (declared : Rat) : Sound S → Sound S → Prop where
  | same (s : Sound S) : Sound.Primed declared s s
  | more (s : Sound S) (extra : Array S) (n : Nat) (whole : extra.size = n * s.shape.channels)
      (long : declared ≤ s.duration) (counted : s.frames + n ≤ twoTo 64) :
      Sound.Primed declared s (s.prepended extra)

section Voices
variable {S : Type} {s t : Sound S} {extra : Array S} {n : Nat} {declared : Rat}

theorem Voice.priming_rat (long : declared ≤ s.duration) :
    Voice.priming s declared = Scalar.round ((s.duration - declared) * s.shape.sampleRate) := by
  have excess : 0 ≤ (s.duration : Rat) - declared := sub_nonneg.mpr long
  unfold Voice.priming
  rw [Scalar.max_rat, max_eq_left excess]
  rfl

theorem Voice.priming_nonneg (s : Sound S) (declared : Rat) : 0 ≤ Voice.priming s declared := by
  unfold Voice.priming
  rw [Scalar.max_rat]
  refine Scalar.round_nonneg (mul_nonneg (le_max_right _ _) ?_)
  exact Int.cast_nonneg (Int.natCast_nonneg _)

/-- So many more frames before the declared ones are so many more to skip. -/
theorem Voice.priming_prepended (own : 0 < s.shape.channels) (audible : s.shape.sampleRate ≠ 0)
    (whole : extra.size = n * s.shape.channels) (long : declared ≤ s.duration) :
    Voice.priming (s.prepended extra) declared = Voice.priming s declared + n := by
  have positive : (0 : Rat) < s.shape.sampleRate := by exact_mod_cast Nat.pos_of_ne_zero audible
  have duration : ((s.prepended extra).duration : Rat) = s.duration + n / s.shape.sampleRate := by
    rw [Sound.duration_rat (s := s.prepended extra) audible, Sound.prepended_frames own whole,
      Sound.duration_rat audible, Nat.cast_add, add_div]
    rfl
  have longer : declared ≤ (s.prepended extra).duration := by
    rw [duration]
    have more : (0 : Rat) ≤ n / s.shape.sampleRate := by positivity
    linarith
  have excess : (s.duration + n / s.shape.sampleRate - declared) * s.shape.sampleRate =
      (s.duration - declared) * s.shape.sampleRate + n := by
    field_simp
    ring
  rw [Voice.priming_rat longer, Voice.priming_rat long, duration]
  change Scalar.round ((_ - declared) * (s.shape.sampleRate : Rat)) = _
  rw [excess]
  exact Scalar.round_add_nat (mul_nonneg (sub_nonneg.mpr long) positive.le) n

end Voices

section Alike
variable {S : Type} [Scalar S] [Narrowing Rat S] {s t : Sound S} {extra : Array S} {n : Nat}
  {declared : Rat} {shape : StreamShape}

/-- Voices that add the same to every sample of a mix. -/
def Voice.Alike (shape : StreamShape) (v w : Voice Rat S) : Prop :=
  ∀ frame channel, channel < shape.channels →
    v.sample? (Scalar.ofNat shape.sampleRate) frame channel =
      w.sample? (Scalar.ofNat shape.sampleRate) frame channel

/-- Sounds that no clip of a file of that length tells apart. -/
structure Sound.Alike (shape : StreamShape) (declared : Rat) (s t : Sound S) : Prop where
  rate : s.shape.sampleRate = t.shape.sampleRate
  voices : ∀ (total : Nat) (clip : Scheduled Rat), clip.media.duration = declared →
    clip.timing.Windowed → s.shape.sampleRate ≠ 0 →
    (Voice.ofClip (Scalar.ofNat shape.sampleRate) total clip s).Alike shape
      (Voice.ofClip (Scalar.ofNat shape.sampleRate) total clip t)

theorem Sound.Alike.refl (s : Sound S) : Sound.Alike shape declared s s :=
  ⟨rfl, fun _ _ _ _ _ _ _ _ => rfl⟩

/-- A clip reads the same samples behind the added frames as it reads without them. -/
theorem Voice.ofClip_prepended (rate : Rat) (total : Nat) {clip : Scheduled Rat}
    (own : 0 < s.shape.channels) (audible : s.shape.sampleRate ≠ 0)
    (whole : extra.size = n * s.shape.channels) (long : clip.media.duration ≤ s.duration)
    (counted : s.frames + n ≤ twoTo 64) (windowed : clip.timing.Windowed) (frame channel : Nat) :
    (Voice.ofClip rate total clip (s.prepended extra)).sample? rate frame channel =
      (Voice.ofClip rate total clip s).sample? rate frame channel := by
  unfold Voice.sample?
  split
  · rename_i plays
    have plays' : (Voice.ofClip rate total clip s).first ≤ frame ∧
        frame < (Voice.ofClip rate total clip s).last := plays
    rw [if_pos plays']
    dsimp only
    obtain ⟨pos, place⟩ : ∃ pos : Rat, pos = Voice.priming s clip.media.duration +
        clip.timing.sourceTime (Scalar.ofNat frame / rate) * s.rate := ⟨_, rfl⟩
    have rate_nonneg : (0 : Rat) ≤ s.rate := Int.cast_nonneg (Int.natCast_nonneg _)
    have low : 0 ≤ pos := by
      rw [place]
      exact add_nonneg (Voice.priming_nonneg s _)
        (mul_nonneg (windowed.sourceTime_nonneg _) rate_nonneg)
    have behind : Voice.priming (s.prepended extra) clip.media.duration +
        clip.timing.sourceTime (Scalar.ofNat frame / rate) * (s.prepended extra).rate = pos + n := by
      rw [Voice.priming_prepended own audible whole long, place, add_right_comm]
      rfl
    have heard := Sound.prepended_sampleAt own whole counted low channel
    rw [← behind, place] at heard
    exact congrArg (fun x => some (x * _)) heard
  · rename_i silent
    exact (if_neg silent).symm

theorem Sound.Primed.alike (primed : Sound.Primed declared s t) (shape : StreamShape) :
    Sound.Alike shape declared (s.remix shape.channels) (t.remix shape.channels) := by
  cases primed with
  | same => exact .refl _
  | more extra n whole long counted =>
    rcases Nat.eq_zero_or_pos s.shape.channels with none | own
    · -- without channels the added frames have no samples
      have empty : extra = #[] := Array.eq_empty_of_size_eq_zero (by rw [whole, none, Nat.mul_zero])
      have unchanged : s.prepended extra = s := by rw [empty, Sound.prepended, Array.empty_append]
      rw [unchanged]
      exact .refl _
    · obtain ⟨lead, size, eq⟩ := Sound.prepended_remix own whole shape.channels
      rw [eq]
      refine ⟨rfl, ?_⟩
      intro total clip length windowed audible frame channel inside
      have some : 0 < shape.channels := Nat.zero_lt_of_lt inside
      have frames := Sound.remix_frames own some
      have mixed := Sound.remix_shape own shape.channels
      have own' : 0 < (s.remix shape.channels).shape.channels := by
        rw [mixed]
        exact some
      have duration : ((s.remix shape.channels).duration : Rat) = s.duration := by
        rw [Sound.duration, Sound.duration, Sound.rate, Sound.rate, frames, mixed]
      refine (Voice.ofClip_prepended _ total own' audible size ?_ ?_ windowed frame channel).symm
      · rw [length, duration]
        exact long
      · rw [frames]
        exact counted

/-- As far as these clips go, the same was gathered. -/
structure Gathered.Alike (shape : StreamShape) (clips : List (Scheduled Rat))
    (g h : Gathered Rat S) : Prop where
  decodes : g.decodes = h.decodes
  sounds : List.Forall₂ (fun e f => e.1 = f.1 ∧ ∀ s ∈ clips, s.media.id = e.1 →
    Sound.Alike shape s.media.duration e.2 f.2) g.sounds h.sounds
  voices : List.Forall₂ (Voice.Alike shape) g.voices h.voices

/-- Refused for the same reason, or the same apart from what nobody tells apart. -/
inductive ResultAlike {α : Type} (alike : α → α → Prop) :
    Except RenderFault α → Except RenderFault α → Prop where
  | refused (e : RenderFault) : ResultAlike alike (.error e) (.error e)
  | given {a b : α} (same : alike a b) : ResultAlike alike (.ok a) (.ok b)

theorem ResultAlike.imp {α : Type} {R Q : α → α → Prop} {x y : Except RenderFault α}
    (alike : ResultAlike R x y) (weaker : ∀ a b, R a b → Q a b) : ResultAlike Q x y := by
  cases alike with
  | refused e => exact .refused e
  | given same => exact .given (weaker _ _ same)

end Alike

/-- Of two lists of kept sounds that are alike, the same entry is found. -/
theorem find_alike {S : Type} {R : String × Sound S → String × Sound S → Prop}
    {sounds others : List (String × Sound S)}
    (alike : List.Forall₂ (fun e f => e.1 = f.1 ∧ R e f) sounds others) (id : String) :
    Option.Rel (fun e f => e.1 = id ∧ R e f) (sounds.find? fun e => e.1 == id)
      (others.find? fun e => e.1 == id) := by
  induction alike with
  | nil => exact .none
  | @cons e f sounds others first _ ih =>
    obtain ⟨same, related⟩ := first
    rw [List.find?_cons, List.find?_cons, ← same]
    cases found : e.1 == id with
    | false => exact ih
    | true => exact .some ⟨by simpa using found, related⟩

section Gathering
variable {S : Type} [Scalar S] [Narrowing Rat S] {shape : StreamShape}
  {library other : SoundLibrary Rat S} {clips : List (Scheduled Rat)} {clip : Scheduled Rat}
  {g h : Gathered Rat S}

theorem sound_alike (alike : Gathered.Alike shape clips g h) (member : clip ∈ clips)
    (named : ∀ s ∈ clips, s.media.id = clip.media.id → s.media = clip.media)
    (decoded : ResultAlike (fun s t => Sound.Alike shape clip.media.duration
      (s.remix shape.channels) (t.remix shape.channels)) (library clip.media) (other clip.media))
    (cancel : Cancel) :
    (g.sound library shape.channels clip.media cancel).2 =
        (h.sound other shape.channels clip.media cancel).2 ∧
      ResultAlike (fun x y => Sound.Alike shape clip.media.duration x.1 y.1 ∧
          Gathered.Alike shape clips x.2 y.2)
        (g.sound library shape.channels clip.media cancel).1
        (h.sound other shape.channels clip.media cancel).1 := by
  have found := find_alike alike.sounds clip.media.id
  unfold Gathered.sound
  generalize g.sounds.find? (fun e => e.1 == clip.media.id) = kept at found ⊢
  generalize h.sounds.find? (fun e => e.1 == clip.media.id) = kept' at found ⊢
  cases found with
  | some related =>
    obtain ⟨id, same⟩ := related
    exact ⟨rfl, .given ⟨same clip member id.symm, alike⟩⟩
  | none =>
    dsimp only
    rw [alike.decodes]
    generalize library clip.media = result at decoded ⊢
    generalize other clip.media = result' at decoded ⊢
    cases decoded with
    | refused e => exact ⟨rfl, .refused e⟩
    | given same =>
      refine ⟨rfl, .given ⟨same, rfl, .cons ⟨rfl, ?_⟩ alike.sounds, alike.voices⟩⟩
      intro s listed id
      rw [named s listed id]
      exact same

theorem Gathered.Alike.rest (alike : Gathered.Alike shape (clip :: clips) g h) :
    Gathered.Alike shape clips g h := by
  refine ⟨alike.decodes, alike.sounds.imp ?_, alike.voices⟩
  rintro e f ⟨same, kept⟩
  exact ⟨same, fun s member => kept s (List.mem_cons_of_mem clip member)⟩

theorem Gathered.Alike.add (alike : Gathered.Alike shape clips g h) {v w : Voice Rat S}
    (voices : Voice.Alike shape v w) : Gathered.Alike shape clips
      { g with voices := v :: g.voices } { h with voices := w :: h.voices } :=
  ⟨alike.decodes, alike.sounds, .cons voices alike.voices⟩

theorem gather_alike (total : Nat) (alike : Gathered.Alike shape clips g h)
    (windowed : ∀ s ∈ clips, s.timing.Windowed)
    (named : ∀ s ∈ clips, ∀ r ∈ clips, s.media.id = r.media.id → s.media = r.media)
    (decoded : ∀ s ∈ clips, ResultAlike (fun a b => Sound.Alike shape s.media.duration
      (a.remix shape.channels) (b.remix shape.channels)) (library s.media) (other s.media))
    (cancel : Cancel) :
    (gather library shape total clips g cancel).2 = (gather other shape total clips h cancel).2 ∧
      ResultAlike (List.Forall₂ (Voice.Alike shape))
        (gather library shape total clips g cancel).1
        (gather other shape total clips h cancel).1 := by
  induction clips generalizing g h cancel with
  | nil => exact ⟨rfl, .given (List.rel_reverse alike.voices)⟩
  | cons clip rest ih =>
    have inner : ∀ {s}, s ∈ rest → s ∈ clip :: rest := fun member => List.mem_cons_of_mem _ member
    rw [gather, gather]
    split
    · exact ⟨rfl, .refused _⟩
    · rename_i looked _
      obtain ⟨flag, results⟩ := sound_alike alike List.mem_cons_self
        (fun s member => named s member clip List.mem_cons_self) (decoded clip List.mem_cons_self)
        looked
      generalize g.sound library shape.channels clip.media looked = heard at flag results ⊢
      generalize h.sound other shape.channels clip.media looked = heard' at flag results ⊢
      obtain ⟨result, after⟩ := heard
      obtain ⟨result', after'⟩ := heard'
      obtain rfl : after = after' := flag
      dsimp only at results ⊢
      cases results with
      | refused e => exact ⟨rfl, .refused e⟩
      | given both =>
        rename_i a b
        obtain ⟨sounds, gathered⟩ := both
        dsimp only
        refine ih ?_ (fun s member => windowed s (inner member))
          (fun s hs r hr => named s (inner hs) r (inner hr)) (fun s member => decoded s (inner member))
          after
        rw [← sounds.rate]
        split
        · exact gathered.rest
        · rename_i plays
          simp only [Bool.or_eq_true, beq_iff_eq, not_or] at plays
          exact gathered.rest.add
            (sounds.voices total clip rfl (windowed clip List.mem_cons_self) plays.2)

theorem ofVoices_alike (total : Nat) {voices others : List (Voice Rat S)}
    (alike : List.Forall₂ (Voice.Alike shape) voices others) :
    Mix.ofVoices (Scalar.ofNat shape.sampleRate) total shape voices =
      Mix.ofVoices (Scalar.ofNat shape.sampleRate) total shape others := by
  have added : ∀ frame channel, channel < shape.channels →
      voices.filterMap (fun v => v.sample? (Scalar.ofNat shape.sampleRate) frame channel) =
        others.filterMap (fun v => v.sample? (Scalar.ofNat shape.sampleRate) frame channel) := by
    intro frame channel inside
    induction alike with
    | nil => rfl
    | cons same _ ih => rw [List.filterMap_cons, List.filterMap_cons, same frame channel inside, ih]
  unfold Mix.ofVoices
  dsimp only
  congr 1
  refine congrArg Array.ofFn (funext fun i => ?_)
  have some : 0 < shape.channels := Nat.pos_of_mul_pos_left (Nat.zero_lt_of_lt i.isLt)
  rw [added _ _ (Nat.mod_lt _ some)]

end Gathering

/-- Frames that come before the declared ones of any sounds, in any number and with anything in
them, leave every mix as it is. -/
theorem primed_mix {S : Type} [Scalar S] [Narrowing Rat S] {library primed : SoundLibrary Rat S}
    (more : ∀ media, ResultAlike (Sound.Primed media.duration) (library media) (primed media))
    (p : Project Rat) (shape : StreamShape) (cancel : Cancel) :
    p.mix primed shape cancel = p.mix library shape cancel := by
  have windowed : ∀ s ∈ p.audioClips, s.timing.Windowed := by
    intro s member
    obtain ⟨c, -, -, -, rfl⟩ := Project.mem_audioClips.mp member
    exact c.clip.timing_windowed c.media
  have decoded : ∀ s ∈ p.audioClips, ResultAlike (fun a b => Sound.Alike shape s.media.duration
      (a.remix shape.channels) (b.remix shape.channels)) (library s.media) (primed s.media) := by
    intro s _
    exact (more s.media).imp fun _ _ begins => begins.alike shape
  have alike := gather_alike (g := ⟨[], 0, []⟩) (h := ⟨[], 0, []⟩)
    (p.soundFrames (Scalar.ofNat shape.sampleRate)) ⟨rfl, .nil, .nil⟩ windowed
    (fun _ hs _ hr => Project.audioClips_media hs hr) decoded cancel
  unfold Project.audioClips at alike
  unfold Project.mix
  dsimp only
  generalize gather library shape _ _ ⟨[], 0, []⟩ cancel = made at alike ⊢
  generalize gather primed shape _ _ ⟨[], 0, []⟩ cancel = made' at alike ⊢
  obtain ⟨result, after⟩ := made
  obtain ⟨result', after'⟩ := made'
  obtain ⟨flag, results⟩ := alike
  obtain rfl : after = after' := flag
  dsimp only at results ⊢
  cases results with
  | refused e => rfl
  | given voices =>
    dsimp only
    rw [ofVoices_alike _ voices]

/-- Two clips of one file: one from its beginning, and one that plays a part of it backwards at
half the speed and fades out. -/
def echo : Project Rat :=
  { id := "p"
    name := "p"
    mediaFiles := [.ofAudio "a" "/a/a.wav" 1]
    tracks := [⟨"t", .audio, [.new "plain" "a" 0,
      { Clip.new "slow" "a" (1 / 2) with trimStart := 1 / 4, speed := 1 / 2, reverse := true }],
      false⟩]
    transitions := [⟨"x", "slow", .fadeOut, 1⟩]
    framerate := 4 }

/-- Five frames of two channels, a file of which declares the last four. -/
def echoSound : Sound Rat := ⟨#[7, 7, 8, -8, 16, -16, 24, -24, 32, -32], 2, 4⟩

theorem primed_mix_echo :
    echo.mix (fun media => .ok (if media.duration ≤ 5 / 4 then echoSound.prepended #[1, 2, 3, 4]
        else echoSound)) ⟨1, 3⟩ .clear = echo.mix (fun _ => .ok echoSound) ⟨1, 3⟩ .clear := by
  refine primed_mix (fun media => .given ?_) echo ⟨1, 3⟩ .clear
  split
  · rename_i short
    have lasts : (echoSound.duration : Rat) = 5 / 4 := by decide +kernel
    exact .more _ _ 2 rfl (short.trans_eq lasts.symm) (by decide +kernel)
  · exact .same _

end Montage
