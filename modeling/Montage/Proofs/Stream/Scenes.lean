import Montage.Proofs.Stream.Shooting
import Montage.Proofs.Timeline.Placement

/- A streaming render one step at a time. A look at the flag is a step of its own, and so is each
   picture, clip and block, so that somebody may trip the flag between any two of them. Taken
   together the steps are the render. -/
namespace Montage

/-- What a streaming render does next. -/
inductive Scene where
  | opening
  /-- A look at the flag, unless no frames are left. -/
  | frame (left index : Nat)
  | composing (left index : Nat)
  /-- A picture is to be handed to the encoder. -/
  | drawn (left index : Nat) (canvas : Image)
  | framed (left index : Nat)
  | sound (audio : AudioSpec)
  /-- A look at the flag, unless no clips are left. -/
  | clip (shape : StreamShape) (size : Nat) (left : List (Scheduled Float))
      (gathered : Gathered Float Float32)
  | mixing (shape : StreamShape) (size : Nat) (clip : Scheduled Float)
      (left : List (Scheduled Float)) (gathered : Gathered Float Float32)
  /-- A look at the flag, unless no sound is left. -/
  | block (shape : StreamShape) (mix : Mix Float32) (size left start : Nat)
  | encoding (shape : StreamShape) (mix : Mix Float32) (size left start : Nat)
  | encoded (shape : StreamShape) (mix : Mix Float32) (size left stop : Nat)
  /-- The last look at the flag. -/
  | ending
  | closing
  | wrapped (result : Except RenderFault Bytes)

/-- A streaming render under way, with the clips that were taken up for its mix so far. -/
structure Take where
  scene : Scene
  reel : Reel
  mixed : Array (Scheduled Float)

/-- A render is over where a step of it fails. -/
def Scene.unless {α : Type} (scene : α → Scene) : Except RenderFault α → Scene
  | .ok a => scene a
  | .error e => .wrapped (.error e)

/-- After a step, in the scene that its result calls for. -/
def Take.after {α : Type} (t : Take) (step : Shoot α) (scene : α → Scene) : Take :=
  ⟨Scene.unless scene (step t.reel).1, (step t.reel).2, t.mixed⟩

/-- A step that concerns the flag alone. -/
def Shoot.flagged {α : Type} (step : Cancel → Except RenderFault α × Cancel) : Shoot α :=
  fun reel =>
    let (result, cancel) := step reel.session.cancel
    (result, { reel with session := { reel.session with cancel } })

/-- One more clip for a mix. -/
def Gathered.add (library : SoundLibrary Float Float32) (shape : StreamShape) (total : Nat)
    (clip : Scheduled Float) (g : Gathered Float Float32) (cancel : Cancel) :
    Except RenderFault (Gathered Float Float32) × Cancel :=
  match g.sound library shape.channels clip.media cancel with
  | (.error e, cancel) => (.error e, cancel)
  | (.ok (sound, g), cancel) =>
    (.ok (if !clip.isPlayed || sound.shape.sampleRate == 0 then g
      else { g with
        voices := Voice.ofClip (Scalar.ofNat shape.sampleRate) total clip sound :: g.voices }),
      cancel)

namespace Production

def soundFrames (p : Production) (shape : StreamShape) : Nat :=
  p.project.soundFrames (Scalar.ofNat shape.sampleRate)

def mixed (p : Production) (shape : StreamShape) (g : Gathered Float Float32) : Mix Float32 :=
  Mix.ofVoices (Scalar.ofNat shape.sampleRate : Float) (p.soundFrames shape) shape g.voices.reverse

/-- Before the clips: how long the blocks will be. -/
def openSound : Shoot Nat := do
  let w ← Shoot.writer
  Shoot.lift (Run.report .encoding 0 "Mixing audio")
  return max w.traits.frameSize 1

def encodeBlock (shape : StreamShape) (mix : Mix Float32) (start stop : Nat) : Shoot Unit := do
  let w ← Shoot.writer
  Shoot.lift (Run.pass (.audioBlock w.blocks.size))
  match w.encodeAudio (block shape mix start stop) with
  | .error e => throw (.encode e)
  | .ok w => modify fun reel => { reel with writer := some w }

def close : Shoot Bytes := do
  Shoot.lift (Run.report .finalizing 0 "Finalizing container")
  let bytes ← finish
  Shoot.lift (Run.report .finalizing 100 "Container finalized")
  return bytes

def next (p : Production) (t : Take) : Take :=
  match t.scene with
  | .opening =>
    t.after (Shoot.lift (Run.report .rendering 0 "Rendering frames")) fun _ =>
      .frame p.frameCount 0
  | .frame 0 _ =>
    t.after (modify Reel.closeSeats) fun _ =>
      match p.spec.audio with
      | some audio => .sound audio
      | none => .ending
  | .frame (left + 1) index => t.after (Shoot.lift Run.check) fun _ => .composing left index
  | .composing left index =>
    t.after (p.compose (Scalar.ofNat index / p.spec.fps)) (.drawn left index)
  | .drawn left index canvas => t.after (p.encodeFrame index canvas) fun _ => .framed left index
  | .framed left index =>
    t.after (Shoot.lift <| Run.fraction .rendering (index + 1) p.frameCount
      ("Rendered frame " ++ toString (index + 1) ++ "/" ++ toString p.frameCount)) fun _ =>
      .frame left (index + 1)
  | .sound audio =>
    t.after openSound fun size => .clip audio.shape size p.project.audioClips ⟨[], 0, []⟩
  | .clip shape size [] g =>
    let mix := p.mixed shape g
    { t with scene := .block shape mix size mix.frames 0 }
  | .clip shape size (clip :: left) g =>
    t.after (Shoot.lift Run.check) fun _ => .mixing shape size clip left g
  | .mixing shape size clip left g =>
    { t with mixed := t.mixed.push clip }.after
      (Shoot.flagged (g.add p.host.sounds shape (p.soundFrames shape) clip))
      (.clip shape size left)
  | .block _ _ _ 0 _ => { t with scene := .ending }
  | .block shape mix size (left + 1) start =>
    if mix.frames ≤ start then { t with scene := .ending }
    else t.after (Shoot.lift Run.check) fun _ => .encoding shape mix size left start
  | .encoding shape mix size left start =>
    let stop := min (start + size) mix.frames
    t.after (encodeBlock shape mix start stop) fun _ => .encoded shape mix size left stop
  | .encoded shape mix size left stop =>
    t.after (Shoot.lift (Run.fraction .encoding stop mix.frames "Encoding audio")) fun _ =>
      .block shape mix size left stop
  | .ending => t.after (Shoot.lift Run.check) fun _ => .closing
  | .closing => t.after close fun bytes => .wrapped (.ok bytes)
  | .wrapped _ => t

/-- So many steps, perhaps none, lead from one moment of a render to another. -/
def Reaches (p : Production) (s t : Take) : Prop := ∃ n, p.next^[n] s = t

variable {p : Production} {s t u : Take}

theorem Reaches.refl (t : Take) : p.Reaches t t := ⟨0, rfl⟩

theorem Reaches.trans (first : p.Reaches s t) (rest : p.Reaches t u) : p.Reaches s u := by
  obtain ⟨n, reached⟩ := first
  obtain ⟨m, further⟩ := rest
  refine ⟨m + n, ?_⟩
  rw [Function.iterate_add_apply, reached, further]

theorem Reaches.step (rest : p.Reaches (p.next s) t) : p.Reaches s t :=
  Reaches.trans ⟨1, rfl⟩ rest

/-- From a scene on, the steps do this part of the render, and then come to a scene that depends on
what it gives. -/
def Plays {α : Type} (p : Production) (scene : Scene) (part : Shoot α) (done : α → Scene) : Prop :=
  ∀ reel mixed, ∃ more, p.Reaches ⟨scene, reel, mixed⟩
    ⟨Scene.unless done (part reel).1, (part reel).2, more⟩

section Plays
variable {α β : Type} {scene : Scene} {part : Shoot α} {middle : α → Scene}

theorem plays_one (one : ∀ reel mixed, ∃ more, p.next ⟨scene, reel, mixed⟩ =
      ⟨Scene.unless middle (part reel).1, (part reel).2, more⟩) : p.Plays scene part middle := by
  intro reel mixed
  obtain ⟨more, same⟩ := one reel mixed
  refine ⟨more, .step ?_⟩
  rw [same]
  exact .refl _

theorem plays_pure {a : α} (here : scene = middle a) : p.Plays scene (pure a) middle := by
  intro reel mixed
  subst here
  exact ⟨mixed, .refl _⟩

theorem plays_bind {rest : α → Shoot β} {done : β → Scene} (middle : α → Scene)
    (first : p.Plays scene part middle)
    (following : ∀ a, p.Plays (middle a) (rest a) done) : p.Plays scene (part >>= rest) done := by
  intro reel mixed
  obtain ⟨more, reached⟩ := first reel mixed
  rw [Steps.bind_run]
  cases ran : part reel with
  | mk result after =>
    rw [ran] at reached
    cases result with
    | error e => exact ⟨more, reached⟩
    | ok a =>
      obtain ⟨further, arrived⟩ := following a after more
      exact ⟨further, reached.trans arrived⟩

end Plays

/-- The frames come to an end where none is left. -/
theorem frames_play (p : Production) (left index : Nat) :
    p.Plays (.frame left index) (p.frames left index) fun _ => .frame 0 (index + left) := by
  induction left generalizing index with
  | zero => exact plays_pure rfl
  | succ left ih =>
    have rest := ih (index + 1)
    rw [Nat.add_right_comm] at rest
    apply plays_bind fun _ => .composing left index
    · exact plays_one fun _ mixed => ⟨mixed, rfl⟩
    intro _
    apply plays_bind fun canvas => .drawn left index canvas
    · exact plays_one fun _ mixed => ⟨mixed, rfl⟩
    intro canvas
    apply plays_bind fun _ => .framed left index
    · exact plays_one fun _ mixed => ⟨mixed, rfl⟩
    intro _
    apply plays_bind fun _ => .frame left (index + 1)
    · exact plays_one fun _ mixed => ⟨mixed, rfl⟩
    intro _
    exact rest

theorem blocks_succ (shape : StreamShape) (mix : Mix Float32) (size left start : Nat) :
    blocks shape mix size (left + 1) start =
      if mix.frames ≤ start then pure ()
      else (do
        Shoot.lift Run.check
        encodeBlock shape mix start (min (start + size) mix.frames)
        Shoot.lift
          (Run.fraction .encoding (min (start + size) mix.frames) mix.frames "Encoding audio")
        blocks shape mix size left (min (start + size) mix.frames)) := by
  rw [blocks]
  split
  · rfl
  · unfold encodeBlock
    simp only [bind_assoc]
    congr
    funext _
    congr
    funext w
    congr
    funext _
    cases w.encodeAudio (block shape mix start (min (start + size) mix.frames)) <;> rfl

theorem blocks_play (p : Production) (shape : StreamShape) (mix : Mix Float32)
    (size left start : Nat) :
    p.Plays (.block shape mix size left start) (blocks shape mix size left start) fun _ =>
      .ending := by
  induction left generalizing start with
  | zero => exact plays_one fun _ mixed => ⟨mixed, rfl⟩
  | succ left ih =>
    rw [blocks_succ]
    by_cases last : mix.frames ≤ start
    · rw [if_pos last]
      apply plays_one
      intro reel mixed
      simp only [next, if_pos last]
      exact ⟨mixed, rfl⟩
    · rw [if_neg last]
      apply plays_bind fun _ => .encoding shape mix size left start
      · apply plays_one
        intro reel mixed
        simp only [next, if_neg last]
        exact ⟨mixed, rfl⟩
      intro _
      apply plays_bind fun _ => .encoded shape mix size left (min (start + size) mix.frames)
      · exact plays_one fun _ mixed => ⟨mixed, rfl⟩
      intro _
      apply plays_bind fun _ => .block shape mix size left (min (start + size) mix.frames)
      · exact plays_one fun _ mixed => ⟨mixed, rfl⟩
      intro _
      exact ih _

theorem lift_check : Shoot.lift Run.check = Shoot.flagged Cancel.check := by
  funext reel
  simp only [Shoot.lift, Run.check_eq]
  rfl

theorem gather_cons (library : SoundLibrary Float Float32) (shape : StreamShape) (total : Nat)
    (clip : Scheduled Float) (rest : List (Scheduled Float)) (g : Gathered Float Float32) :
    Shoot.flagged (gather library shape total (clip :: rest) g) =
      (do
        Shoot.lift Run.check
        let g ← Shoot.flagged (g.add library shape total clip)
        Shoot.flagged (gather library shape total rest g)) := by
  funext reel
  rw [Steps.bind_run, lift_check]
  unfold Shoot.flagged
  rw [gather]
  rcases reel.session.cancel.check with ⟨_ | _, looked⟩
  · rfl
  · dsimp only
    rw [Steps.bind_run]
    unfold Gathered.add
    rcases g.sound library shape.channels clip.media looked with ⟨_ | ⟨sound, g⟩, decoded⟩
    · rfl
    · rfl

theorem gather_play (p : Production) (shape : StreamShape) (size : Nat)
    (clips : List (Scheduled Float)) (g : Gathered Float Float32) :
    p.Plays (.clip shape size clips g)
      (Shoot.flagged (gather p.host.sounds shape (p.soundFrames shape) clips g)) fun voices =>
      let mix : Mix Float32 :=
        Mix.ofVoices (Scalar.ofNat shape.sampleRate : Float) (p.soundFrames shape) shape voices
      .block shape mix size mix.frames 0 := by
  induction clips generalizing g with
  | nil => exact plays_one fun _ mixed => ⟨mixed, rfl⟩
  | cons clip rest ih =>
    rw [gather_cons]
    apply plays_bind fun _ => .mixing shape size clip rest g
    · exact plays_one fun _ mixed => ⟨mixed, rfl⟩
    intro _
    apply plays_bind fun g => .clip shape size rest g
    · exact plays_one fun _ mixed => ⟨mixed.push clip, rfl⟩
    intro g
    exact ih g

theorem encodeSound_play (p : Production) (audio : AudioSpec) :
    p.Plays (.sound audio) (p.encodeSound audio) fun _ => .ending := by
  have parts : p.encodeSound audio = (do
      let size ← openSound
      let voices ← Shoot.flagged (gather p.host.sounds audio.shape (p.soundFrames audio.shape)
        p.project.audioClips ⟨[], 0, []⟩)
      let mix : Mix Float32 := Mix.ofVoices (Scalar.ofNat audio.shape.sampleRate : Float)
        (p.soundFrames audio.shape) audio.shape voices
      blocks audio.shape mix size mix.frames 0) := by
    unfold encodeSound openSound
    simp only [bind_assoc]
    congr
    funext w
    congr
    funext _
    funext reel
    simp only [Steps.bind_run, Steps.pure_run, Steps.get_run, Steps.set_run, Shoot.flagged]
    have clips : ((p.project.unmuted.filter fun c => c.track.isAudio).map p.project.schedule) =
        p.project.audioClips := rfl
    have total : p.project.soundFrames (Scalar.ofNat audio.shape.sampleRate) =
        p.soundFrames audio.shape := rfl
    simp only [Project.mix, clips, total]
    rcases gather p.host.sounds audio.shape (p.soundFrames audio.shape) p.project.audioClips
      ⟨[], 0, []⟩ reel.session.cancel with ⟨_ | voices, cancel⟩
    · rfl
    · rfl
  rw [parts]
  apply plays_bind fun size => .clip audio.shape size p.project.audioClips ⟨[], 0, []⟩
  · exact plays_one fun _ mixed => ⟨mixed, rfl⟩
  intro size
  refine plays_bind _ (gather_play p audio.shape size p.project.audioClips ⟨[], 0, []⟩) ?_
  intro voices
  exact blocks_play p _ _ _ _ _

theorem ending_play (p : Production) :
    p.Plays .ending (do Shoot.lift Run.check; close : Shoot Bytes) fun bytes =>
      .wrapped (.ok bytes) := by
  apply plays_bind fun _ => .closing
  · exact plays_one fun _ mixed => ⟨mixed, rfl⟩
  intro _
  exact plays_one fun _ mixed => ⟨mixed, rfl⟩

/-- The whole of a streaming render, step by step. -/
theorem shoot_plays (p : Production) :
    p.Plays .opening p.shoot fun bytes => .wrapped (.ok bytes) := by
  apply plays_bind fun _ => .frame p.frameCount 0
  · exact plays_one fun _ mixed => ⟨mixed, rfl⟩
  intro _
  apply plays_bind _ (frames_play p p.frameCount 0)
  intro _
  apply plays_bind fun _ => match p.spec.audio with
    | some audio => .sound audio
    | none => .ending
  · exact plays_one fun _ mixed => ⟨mixed, rfl⟩
  intro _
  cases p.spec.audio with
  | none => exact ending_play p
  | some audio => exact plays_bind _ (encodeSound_play p audio) fun _ => ending_play p

/-- A render that has opened its writer. -/
def opening (p : Production) (s : Session) (w : Writer) : Take :=
  ⟨.opening, p.begun s w, #[]⟩

/-- Step by step a render comes to its end, and what it has then is torn down. -/
theorem renderByStreaming_plays {h : Host} {project : Project Float}
    {settings : RenderSettings Float} {w : Writer} (s : Session) (timed : h.config.render.Timed)
    (opened : h.backend.openWriter (outputSpec h.config.render project settings) = .ok w) :
    ∃ result reel mixed,
      (ofHost h project settings).Reaches ((ofHost h project settings).opening s w)
        ⟨.wrapped result, reel, mixed⟩ ∧
      renderByStreaming h project settings s = (result, reel.teardown) := by
  obtain ⟨mixed, reached⟩ := shoot_plays (ofHost h project settings)
    ((ofHost h project settings).begun s w) #[]
  cases ran : (ofHost h project settings).shoot ((ofHost h project settings).begun s w) with
  | mk result reel =>
    rw [ran] at reached
    refine ⟨result, reel, mixed, ?_, renderByStreaming_shoots s timed opened ran⟩
    cases result <;> exact reached

end Production
end Montage
