import Montage.Proofs.Sound.Gathering
import Montage.Proofs.Stream.Shooting
import Montage.Proofs.Stream.Writing

/- What a streaming render that succeeds has written. Each of its steps, if it succeeds, takes the
   writer in use from one description to the next; the end of the file leaves the last of them. -/
namespace Montage

/-- A render under way whose writer in use is as said; the writers before it are booked. -/
structure Reel.Uses (booked : List UsedWriter) (held : Writer → Prop) (reel : Reel) : Prop where
  booked : reel.session.writers = booked
  writing : ∃ w, reel.writer = some w ∧ held w

theorem Reel.Uses.imp {booked : List UsedWriter} {held next : Writer → Prop} {reel : Reel}
    (uses : reel.Uses booked held) (follows : ∀ w, held w → next w) : reel.Uses booked next := by
  obtain ⟨w, has, holds⟩ := uses.writing
  exact ⟨uses.booked, w, has, follows w holds⟩

section Uses
variable {booked : List UsedWriter} {held : Writer → Prop}

theorem lift_uses {α : Type} {step : Run α} (unbooked : step.Unbooked) :
    Steps.Yields (Reel.Uses booked held) (Shoot.lift step) fun _ => Reel.Uses booked held := by
  intro reel h a after ran
  obtain rfl : { reel with session := (step reel.session).2 } = after := congrArg (·.2) ran
  exact ⟨(unbooked _).writers.trans h.booked, h.writing⟩

theorem writer_uses : Steps.Yields (Reel.Uses booked held) Shoot.writer fun w reel =>
    held w ∧ Reel.Uses booked (· = w) reel := by
  intro reel h w after ran
  obtain ⟨v, has, holds⟩ := h.writing
  simp only [Shoot.writer, Steps.bind_run, Steps.get_run, has] at ran
  cases ran
  exact ⟨holds, h.booked, _, has, rfl⟩

theorem replace_uses {next : Writer → Prop} {w : Writer} (holds : next w) :
    Steps.Yields (Reel.Uses booked held)
      (modify fun reel : Reel => { reel with writer := some w } : Shoot PUnit)
      fun _ => Reel.Uses booked next :=
  Steps.yields_modify fun _ h => ⟨h.booked, w, rfl, holds⟩

theorem close_uses : Steps.Yields (Reel.Uses booked held)
    (modify Reel.closeSeats : Shoot PUnit) fun _ => Reel.Uses booked held :=
  Steps.yields_modify fun _ h => ⟨h.booked, h.writing⟩

theorem compose_uses (p : Production) (t : Float) :
    Steps.Yields (Reel.Uses booked held) (p.compose t) fun _ => Reel.Uses booked held := by
  intro reel h canvas after ran
  simp only [Production.compose, Steps.bind_run, Steps.get_run, Steps.set_run] at ran
  generalize composeLayers _ _ _ _ _ _ _ = composed at ran
  obtain ⟨result, seats, books, clock⟩ := composed
  cases result with
  | error e => cases ran
  | ok image =>
    cases ran
    exact ⟨h.booked, h.writing⟩

variable {traits : EncoderTraits}

theorem encodeFrame_uses (p : Production) (index : Nat) (canvas : Image) :
    Steps.Yields (Reel.Uses booked (Writer.Filming p.spec traits p.engine.encoderQueueDepth index))
      (p.encodeFrame index canvas) fun _ =>
      Reel.Uses booked (Writer.Filming p.spec traits p.engine.encoderQueueDepth (index + 1)) := by
  refine Steps.yields_bind writer_uses fun w => Steps.yields_given fun filming => ?_
  refine Steps.yields_bind (lift_uses (Run.pass_unbooked _)) fun _ => ?_
  dsimp only
  split
  · exact Steps.yields_throw _
  · rename_i middle encoded
    intro reel h a after ran
    simp only [Steps.bind_run, Steps.get_run, Steps.set_run] at ran
    cases drained : drain p.engine.encoderQueueDepth p.engine.stallTimeout middle
        reel.session.clock with
    | mk result rest =>
      obtain ⟨w', clock⟩ := rest
      rw [drained] at ran
      cases result with
      | error e => cases ran
      | ok done =>
        cases ran
        exact ⟨h.booked, w', rfl, filming.next encoded drained⟩

theorem frames_uses (p : Production) (n index : Nat) :
    Steps.Yields (Reel.Uses booked (Writer.Filming p.spec traits p.engine.encoderQueueDepth index))
      (p.frames n index) fun _ =>
      Reel.Uses booked (Writer.Filming p.spec traits p.engine.encoderQueueDepth (index + n)) := by
  induction n generalizing index with
  | zero => exact Steps.yields_pure fun _ h => h
  | succ n ih =>
    refine Steps.yields_bind (lift_uses Run.check_unbooked) fun _ => ?_
    refine Steps.yields_bind (compose_uses p _) fun canvas => ?_
    refine Steps.yields_bind (encodeFrame_uses p index canvas) fun _ => ?_
    refine Steps.yields_bind (lift_uses (Run.fraction_unbooked _ _ _ _)) fun _ => ?_
    have rest := ih (index + 1)
    rwa [Nat.add_right_comm] at rest

section Voicing
variable {spec : OutputSpec} {depth count : Nat} {shape : StreamShape} {mix : Mix Float32}

theorem blocks_uses (whole : mix.samples.size = mix.frames * max shape.channels 1) (n start : Nat)
    (enough : mix.frames ≤ start + n) (inside : start ≤ mix.frames) :
    Steps.Yields (Reel.Uses booked (Writer.Voicing spec traits depth count shape mix start))
      (Production.blocks shape mix (max traits.frameSize 1) n start) fun _ =>
      Reel.Uses booked (Writer.Voicing spec traits depth count shape mix mix.frames) := by
  induction n generalizing start with
  | zero =>
    obtain rfl : start = mix.frames := by omega
    exact Steps.yields_pure fun _ h => h
  | succ n ih =>
    rw [Production.blocks]
    split
    · obtain rfl : start = mix.frames := by omega
      exact Steps.yields_pure fun _ h => h
    · refine Steps.yields_bind (lift_uses Run.check_unbooked) fun _ => ?_
      refine Steps.yields_bind writer_uses fun w => Steps.yields_given fun voicing => ?_
      refine Steps.yields_bind (lift_uses (Run.pass_unbooked _)) fun _ => ?_
      split
      · exact Steps.yields_throw _
      · rename_i after encoded
        refine Steps.yields_bind (replace_uses (voicing.next (by omega) whole encoded)) fun _ => ?_
        refine Steps.yields_bind (lift_uses (Run.fraction_unbooked _ _ _ _)) fun _ => ?_
        exact ih _ (by omega) (by omega)

end Voicing

/-- What a writer has of the project's sound in the end: the whole mix, if sound was asked for. -/
def Production.Voiced (p : Production) (w : Writer) : Prop :=
  match p.spec.audio with
  | none => w.audio = none
  | some audio => ∃ mix, (p.project.mix p.host.sounds audio.shape .clear).1 = .ok mix ∧
      w.Sounded audio.shape mix (max w.traits.frameSize 1) mix.frames

/-- The writer when only the end of the file is left. -/
def Production.Shot (p : Production) (traits : EncoderTraits) (w : Writer) : Prop :=
  w.Filmed p.spec traits p.engine.encoderQueueDepth p.frameCount ∧ p.Voiced w

theorem encodeSound_uses (p : Production) {audio : AudioSpec} (asked : p.spec.audio = some audio) :
    Steps.Yields
      (Reel.Uses booked (Writer.Filming p.spec traits p.engine.encoderQueueDepth p.frameCount))
      (p.encodeSound audio) fun _ => Reel.Uses booked (p.Shot traits) := by
  refine Steps.yields_bind writer_uses fun w => Steps.yields_given fun filming => ?_
  refine Steps.yields_bind (lift_uses (Run.report_unbooked _ _ _)) fun _ => ?_
  intro reel h a after ran
  simp only [Steps.bind_run, Steps.get_run, Steps.set_run] at ran
  cases mixed : p.project.mix p.host.sounds audio.shape reel.session.cancel with
  | mk result cancel =>
    rw [mixed] at ran
    cases result with
    | error e => cases ran
    | ok mix =>
      have made := congrArg (·.1) mixed
      rw [filming.1.encoder] at ran
      have begun : Reel.Uses booked (· = w)
          { reel with session := { reel.session with cancel } } := ⟨h.booked, h.writing⟩
      have silent := begun.imp fun v same => same ▸ (⟨filming.1,
        filming.2.sounded (filming.1.output ▸ asked) (by omega)⟩ : w.Voicing p.spec traits
          p.engine.encoderQueueDepth p.frameCount audio.shape mix 0)
      have voiced := blocks_uses (mix_whole made) mix.frames 0 (by omega) (by omega) _ silent a
        after ran
      refine voiced.imp fun v voicing => ⟨voicing.1, ?_⟩
      rw [Production.Voiced, asked, voicing.1.encoder]
      exact ⟨mix, mix_clear made, voicing.2⟩

theorem finish_yields {held : Writer → Prop} :
    Steps.Yields (Reel.Uses booked held) Production.finish fun bytes reel =>
      reel.writer = none ∧ ∃ w, held w ∧ bytes = w.finish ∧
        reel.session.writers = booked ++ [⟨w, true⟩] := by
  refine Steps.yields_bind writer_uses fun w => Steps.yields_given fun holds => ?_
  intro reel h bytes after ran
  cases ran
  exact ⟨rfl, w, holds, rfl, congrArg (· ++ _) h.booked⟩

/-- The last steps, which finish the writer. -/
theorem ending_yields : Steps.Yields (Reel.Uses booked held)
    (do
      Shoot.lift Run.check
      Shoot.lift (Run.report .finalizing 0 "Finalizing container")
      let bytes ← Production.finish
      Shoot.lift (Run.report .finalizing 100 "Container finalized")
      return bytes : Shoot Bytes) fun bytes reel => reel.writer = none ∧
        ∃ w, held w ∧ bytes = w.finish ∧ reel.session.writers = booked ++ [⟨w, true⟩] := by
  refine Steps.yields_bind (lift_uses Run.check_unbooked) fun _ => ?_
  refine Steps.yields_bind (lift_uses (Run.report_unbooked _ _ _)) fun _ => ?_
  refine Steps.yields_bind finish_yields fun bytes => ?_
  intro reel h a after ran
  cases ran
  obtain ⟨idle, w, holds, same, written⟩ := h
  exact ⟨idle, w, holds, same, (Run.report_unbooked _ _ _ _).writers.trans written⟩

theorem shoot_yields (p : Production) : Steps.Yields
    (Reel.Uses booked (Writer.Filming p.spec traits p.engine.encoderQueueDepth 0)) p.shoot
    fun bytes reel => reel.writer = none ∧ ∃ w, p.Shot traits w ∧ bytes = w.finish ∧
      reel.session.writers = booked ++ [⟨w, true⟩] := by
  refine Steps.yields_bind (lift_uses (Run.report_unbooked _ _ _)) fun _ => ?_
  refine Steps.yields_bind (frames_uses p _ 0) fun _ => ?_
  rw [Nat.zero_add]
  refine Steps.yields_bind close_uses fun _ => ?_
  cases asked : p.spec.audio with
  | none =>
    intro reel h
    refine ending_yields reel (h.imp fun w filming => ⟨filming.1, ?_⟩)
    simp [Production.Voiced, asked, filming.2.audio, filming.1.output]
  | some audio => exact Steps.yields_bind (encodeSound_uses p asked) fun _ => ending_yields

end Uses

namespace Production.Shot
variable {p : Production} {traits : EncoderTraits} {w : Writer}

theorem sound_iff (shot : p.Shot traits w) : w.audio.isSome = p.spec.audio.isSome := by
  have voiced := shot.2
  unfold Voiced at voiced
  cases asked : p.spec.audio with
  | none =>
    rw [asked] at voiced
    rw [voiced]
    rfl
  | some audio =>
    rw [asked] at voiced
    obtain ⟨mix, -, sounded⟩ := voiced
    obtain ⟨peak, track⟩ := sounded.track
    rw [track]
    rfl

theorem track_mix (shot : p.Shot traits w) {audio : AudioSpec} (asked : p.spec.audio = some audio) :
    ∃ mix, (p.project.mix p.host.sounds audio.shape .clear).1 = .ok mix ∧
      (∀ track, w.audio = some track → track.frames = mix.frames ∧ track.blocks = w.blocks.size) ∧
      w.blocks.size = (mix.frames + max traits.frameSize 1 - 1) / max traits.frameSize 1 ∧
      List.Forall₂ Clipped mix.samples.toList (w.blocks.toList.flatMap (·.samples)) := by
  have voiced := shot.2
  rw [Voiced, asked, shot.1.encoder] at voiced
  obtain ⟨mix, mixed, sounded⟩ := voiced
  refine ⟨mix, mixed, ?_, sounded.count, ?_⟩
  · intro track has
    obtain ⟨peak, known⟩ := sounded.track
    rw [known] at has
    obtain rfl := Option.some.inj has
    exact ⟨rfl, rfl⟩
  · rw [sounded.samples, ← mix_whole mixed, Array.extract_size]
    exact limited_clipped _

end Production.Shot

theorem keyframe_iff (seconds fps : Float) (i : Nat) :
    (i % max (keyframeFrames seconds fps) 1 == 0) = decide (keyframeFrames seconds fps ∣ i) := by
  have least : 1 ≤ keyframeFrames seconds fps := Nat.le_max_right _ _
  rw [Nat.max_eq_left least, Bool.eq_iff_iff, beq_iff_eq, decide_eq_true_iff,
    Nat.dvd_iff_mod_eq_zero]

section Spec
variable {engine : EngineConfig} {p : Project Float} {settings : RenderSettings Float}

theorem outputSpec_sound :
    (outputSpec engine p settings).audio.isSome = (Features.detect p).hasAudio := by
  unfold outputSpec
  cases (Features.detect p).hasAudio <;> rfl

theorem outputSpec_shape {audio : AudioSpec}
    (asked : (outputSpec engine p settings).audio = some audio) :
    audio.shape = ⟨engine.audioChannels, engine.audioSampleRate⟩ := by
  unfold outputSpec at asked
  dsimp only at asked
  split at asked
  · cases asked
    rfl
  · cases asked

end Spec

/-- A streaming render that succeeds has written the timeline. Every picture that was handed over is
in the file, in order and at its time, and with them is the whole mix, cut at the ends of the range,
exactly when the project has sound. -/
theorem streaming_records_timeline {h : Host} {sources : List (String × Source Float)}
    {hardware : Bool} {traits : EncoderTraits} (backend : h.backend = .synthetic sources hardware traits)
    {p : Project Float} {settings : RenderSettings Float} {session after : Session} {bytes : Bytes}
    (rendered : renderByStreaming h p settings session = (.ok bytes, after)) :
    let engine := h.config.render
    let fps := settings.framerate
    let size := max traits.frameSize 1
    ∃ w, after.writers = session.writers ++ [⟨w, true⟩] ∧
      let container := (w.completeUpTo w.pending).recording
      bytes = (if traits.silent then [] else container.bytes) ∧
      container.video = w.frames.toList.map Submission.recorded ∧
      (container.video.map fun f => (f.timestamp, f.keyframe)) =
        ((List.range (totalFrames p.duration fps)).map fun i =>
          (frameTimestamp i fps, decide (engine.keyframeInterval fps ∣ i))) ∧
      (container.video.Pairwise fun a b => a.timestamp < b.timestamp) ∧
      w.mostPending ≤ engine.encoderQueueDepth + 1 ∧
      container.audio.isSome = (Features.detect p).hasAudio ∧
      ∀ track, container.audio = some track →
        ∃ mix, (p.mix h.sounds ⟨engine.audioChannels, engine.audioSampleRate⟩ .clear).1 = .ok mix ∧
          track.frames = mix.frames ∧ track.blocks = w.blocks.size ∧
          w.blocks.size = (mix.frames + size - 1) / size ∧
          List.Forall₂ Clipped mix.samples.toList (w.blocks.toList.flatMap (·.samples)) := by
  intro engine fps size
  let production := Production.ofHost h p settings
  have timed : engine.Timed := by
    by_contra late
    rw [renderByStreaming_untimed session late] at rendered
    cases rendered
  have opened : h.backend.openWriter production.spec = .ok (Writer.new production.spec traits) := by
    rw [backend]
    rfl
  have filming : (production.begun session (Writer.new production.spec traits)).Uses session.writers
      (Writer.Filming production.spec traits engine.encoderQueueDepth 0) :=
    ⟨rfl, _, rfl, Writer.new_filming _ _ _⟩
  cases ran : production.shoot (production.begun session (Writer.new production.spec traits)) with
  | mk result rolled =>
    rw [renderByStreaming_shoots session timed opened ran] at rendered
    cases rendered
    obtain ⟨idle, w, shot, same, written⟩ := shoot_yields production _ filming bytes rolled ran
    have emptied := w.completeUpTo_all (Nat.le_refl w.pending)
    refine ⟨w, ?_, ?_⟩
    · simp [idle, written]
    rw [Writer.finish, emptied, shot.1.encoder] at same
    rw [emptied]
    refine ⟨same, shot.1.submitted, ?_, shot.1.ascending, shot.1.most, ?_, ?_⟩
    · refine shot.1.shots.trans (List.map_congr_left fun i _ => Prod.ext rfl ?_)
      exact keyframe_iff engine.keyframeIntervalSecs fps i
    · exact shot.sound_iff.trans outputSpec_sound
    · intro track has
      have sounds : production.spec.audio.isSome = true := by
        rw [← shot.sound_iff]
        exact Option.isSome_of_eq_some has
      obtain ⟨audio, asked⟩ := Option.isSome_iff_exists.mp sounds
      obtain ⟨mix, mixed, counts, blocks, samples⟩ := shot.track_mix asked
      rw [outputSpec_shape asked] at mixed
      exact ⟨mix, mixed, (counts track has).1, (counts track has).2, blocks, samples⟩

/-- One second of a clip that is seen through and of a sound. -/
def shortProject : Project Float :=
  { id := "p"
    name := "p"
    mediaFiles := [MediaFile.ofVideo "m" "/v/a.mp4" 1 2 2 2, MediaFile.ofAudio "n" "/v/b.wav" 1]
    tracks :=
      [⟨"v", .video, [{ (Clip.new "c" "m" 0 : Clip Float) with opacity := 0 }], false⟩,
        ⟨"a", .audio, [Clip.new "d" "n" 0], false⟩]
    transitions := []
    framerate := 2 }

/-- Two pictures of two by two pixels. -/
def shortSettings : RenderSettings Float :=
  { (RenderSettings.standard : RenderSettings Float) with width := 2, height := 2, framerate := 2 }

/-- Four samples a second in blocks of three, and no picture may wait. -/
def shortHost : Host :=
  { config := { Config.standard with
      render := { EngineConfig.standard with
        audioSampleRate := 4
        audioChannels := 1
        encoderQueueDepth := 0 } }
    backend := .synthetic [("m", Source.new 2 2 2 1)] true { EncoderTraits.sound with frameSize := 3 }
    sounds := fun _ => .ok (Sound.constant 2 (1 : Float) ⟨1, 4⟩)
    font := none
    service := .unreachable
    programs := .none
    scratch := "/tmp" }

def shortSession : Session :=
  .start Progress.channel Cancel.clear (Clock.stepping 10) ⟨[], []⟩

theorem streaming_records_timeline_short :
    ∃ bytes after w track,
      renderByStreaming shortHost shortProject shortSettings shortSession = (.ok bytes, after) ∧
      after.writers = [⟨w, true⟩] ∧
      let container := (w.completeUpTo w.pending).recording
      bytes = container.bytes ∧
      (container.video.map fun f => (f.timestamp, f.keyframe)) = [(0, true), (500000, false)] ∧
      container.audio = some track ∧ track.frames = 4 ∧ track.blocks = 2 := by
  have succeeds : (renderByStreaming shortHost shortProject shortSettings shortSession).1.isOk =
      true := by
    decide +kernel
  have listed : ((List.range (totalFrames shortProject.duration shortSettings.framerate)).map
      fun i => (frameTimestamp i shortSettings.framerate,
        decide (shortHost.config.render.keyframeInterval shortSettings.framerate ∣ i))) =
      [(0, true), (500000, false)] := by
    decide +kernel
  have sizes : ((shortProject.mix shortHost.sounds ⟨1, 4⟩ .clear).1.toOption.map (·.frames)) =
      some 4 := by
    decide +kernel
  cases rendered : renderByStreaming shortHost shortProject shortSettings shortSession with
  | mk result after =>
    rw [rendered] at succeeds
    cases result with
    | error e => cases succeeds
    | ok bytes =>
      obtain ⟨w, writers, same, -, shots, -, -, sound, voiced⟩ :=
        streaming_records_timeline rfl rendered
      have heard : (w.completeUpTo w.pending).recording.audio.isSome = true :=
        sound.trans (by decide +kernel)
      obtain ⟨track, has⟩ := Option.isSome_iff_exists.mp heard
      obtain ⟨mix, mixed, frames, blocks, count, -⟩ := voiced track has
      change (shortProject.mix shortHost.sounds ⟨1, 4⟩ .clear).1 = .ok mix at mixed
      rw [mixed] at sizes
      have four : mix.frames = 4 := Option.some.inj sizes
      refine ⟨bytes, after, w, track, rfl, writers, same.trans (if_neg Bool.false_ne_true),
        shots.trans listed, has, frames.trans four, ?_⟩
      rw [blocks, count, four]
      rfl

end Montage
