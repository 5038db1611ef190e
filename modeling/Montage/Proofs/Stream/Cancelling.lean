import Montage.Proofs.Stream.Recorded
import Montage.Proofs.Stream.Scenes

/- A streaming render whose flag is tripped. Between two looks at the flag at most one picture, one
   clip or one block goes its way, and that was taken up after the look before. The next look ends
   the render, and its writer is aborted. -/
namespace Montage

section Growth
variable {α : Type} {before middle after : α → Prop} {xs ys zs : Array α}

/-- Nothing has come in, or one thing of those that might. -/
def Grown (hand : α → Prop) (xs ys : Array α) : Prop :=
  ys = xs ∨ ∃ a, hand a ∧ ys = xs.push a

/-- What was in hand is still there, or it has come in and nothing is in hand. -/
def Handed (before after : α → Prop) (xs ys : Array α) : Prop :=
  (ys = xs ∧ ∀ a, after a → before a) ∨ (∃ a, before a ∧ ys = xs.push a) ∧ ∀ a, ¬ after a

theorem Grown.size (grown : Grown before xs ys) : ys.size ≤ xs.size + 1 := by
  rcases grown with same | ⟨a, -, come⟩
  · rw [same]
    omega
  · rw [come, Array.size_push]

theorem Handed.grown (h : Handed before after xs ys) : Grown before xs ys := by
  cases h with
  | inl still => exact .inl still.1
  | inr come => exact .inr come.1

theorem Grown.handed (grown : Grown before xs ys) (empty : ∀ a, ¬ after a) :
    Handed before after xs ys := by
  cases grown with
  | inl same => exact .inl ⟨same, fun a left => absurd left (empty a)⟩
  | inr come => exact .inr ⟨come, empty⟩

theorem Handed.trans (first : Handed before middle xs ys) (rest : Handed middle after ys zs) :
    Handed before after xs zs := by
  rcases first with ⟨same, had⟩ | ⟨come, empty⟩
  · rcases rest with ⟨again, has⟩ | ⟨⟨a, held, came⟩, none⟩
    · exact .inl ⟨again.trans same, fun a left => had a (has a left)⟩
    · subst same
      exact .inr ⟨⟨a, had a held, came⟩, none⟩
  · rcases rest with ⟨again, has⟩ | ⟨⟨a, held, -⟩, -⟩
    · subst again
      exact .inr ⟨come, fun a left => empty a (has a left)⟩
    · exact absurd held (empty a)

end Growth

namespace Scene

/-- The picture that is in hand. -/
def picture (fps : Float) : Scene → Submission → Prop
  | .composing _ index, f => f.timestamp = frameTimestamp index fps
  | .drawn _ index canvas, f => f.image = canvas ∧ f.timestamp = frameTimestamp index fps
  | _, _ => False

/-- The block that is in hand. -/
def soundBlock : Scene → AudioBlock → Prop
  | .encoding shape mix size _ start, b =>
    b = Production.block shape mix start (min (start + size) mix.frames)
  | _, _ => False

/-- The clip that is in hand. -/
def voice : Scene → Scheduled Float → Prop
  | .mixing _ _ taken _ _, c => c = taken
  | _, _ => False

/-- The last look at the flag is still to come. -/
def isFilming : Scene → Bool
  | .closing | .wrapped _ => false
  | _ => true

def isIdle : Scene → Bool
  | .composing .. | .drawn .. | .mixing .. | .encoding .. => false
  | _ => true

/-- Steps to the next look at the flag, at most. -/
def rank : Scene → Nat
  | .wrapped _ | .closing => 0
  | .ending => 1
  | .block .. => 2
  | .clip .. | .encoded .. => 3
  | .mixing .. | .encoding .. | .sound _ => 4
  | .frame .. => 5
  | .framed .. | .opening => 6
  | .drawn .. => 7
  | .composing .. => 8

end Scene

namespace Take

def tripped (t : Take) : Bool := t.reel.session.cancel.tripped

def looks (t : Take) : Nat := t.reel.session.cancel.looks

/-- Somebody trips the flag. -/
def trip (t : Take) : Take :=
  { t with reel := { t.reel with
      session := { t.reel.session with
        cancel := { t.reel.session.cancel with tripped := true } } } }

/-- The writer in use; those before it are booked. -/
structure Films (booked : List UsedWriter) (w : Writer) (t : Take) : Prop where
  booked : t.reel.session.writers = booked
  writing : t.reel.writer = some w

end Take

/-- The flag was not looked at, and stays tripped if it was. -/
structure Session.Unseeing (origin s : Session) : Prop where
  writers : s.writers = origin.writers
  tripped : origin.cancel.tripped = true → s.cancel.tripped = true
  looks : s.cancel.looks = origin.cancel.looks

namespace Session.Unseeing
variable {origin s t : Session}

theorem refl (s : Session) : s.Unseeing s := ⟨rfl, id, rfl⟩

theorem pass (h : origin.Unseeing s) (m : Moment) :
    origin.Unseeing { s with cancel := s.cancel.pass m } := by
  constructor
  · exact h.writers
  · intro tripped
    simp [Cancel.pass, h.tripped tripped]
  · exact h.looks

/-- Other parts of a session are free to change. -/
theorem other (h : origin.Unseeing s) (writers : t.writers = s.writers)
    (cancel : t.cancel = s.cancel) : origin.Unseeing t := by
  constructor
  · rw [writers]
    exact h.writers
  · rw [cancel]
    exact h.tripped
  · rw [cancel]
    exact h.looks

theorem reported (h : origin.Unseeing s) (p : Progress) : origin.Unseeing (s.reported p) := by
  unfold Session.reported
  dsimp only
  split
  · exact h.other rfl rfl
  · exact (h.pass _).other rfl rfl

end Session.Unseeing

/-- What a step does that neither looks at the flag nor changes the writer. -/
structure Reel.Still (origin reel : Reel) : Prop where
  session : origin.session.Unseeing reel.session
  writer : reel.writer = origin.writer

section Still
open Steps
variable {origin : Reel}

theorem Reel.Still.refl (reel : Reel) : reel.Still reel := ⟨.refl _, rfl⟩

theorem report_still (stage : Stage) (percent : Nat) (message : String) :
    Keeps (Reel.Still origin) (Shoot.lift (Run.report stage percent message)) :=
  fun _ h => ⟨h.session.reported _, h.writer⟩

theorem fraction_still (stage : Stage) (done total : Nat) (message : String) :
    Keeps (Reel.Still origin) (Shoot.lift (Run.fraction stage done total message)) := by
  intro reel h
  change Reel.Still origin
    { reel with session := (Run.fraction stage done total message reel.session).2 }
  rw [Run.fraction_run]
  split
  · exact ⟨h.session.reported _, h.writer⟩
  · exact h

theorem close_still : Keeps (Reel.Still origin) (modify Reel.closeSeats : Shoot PUnit) :=
  keeps_modify fun _ h => ⟨h.session.other rfl rfl, h.writer⟩

theorem compose_still (p : Production) (t : Float) : Keeps (Reel.Still origin) (p.compose t) := by
  apply keeps_get
  intro reel h
  simp only [bind_run, set_run]
  generalize composeLayers _ _ _ _ _ _ _ = composed
  obtain ⟨result, seats, books, clock⟩ := composed
  have kept : Reel.Still origin
      { reel with seats, session := { reel.session with books, clock } } :=
    ⟨h.session.other rfl rfl, h.writer⟩
  cases result <;> exact kept

theorem openSound_still : Keeps (Reel.Still origin) Production.openSound := by
  refine keeps_bind writer_keeps ?_
  intro w
  apply keeps_bind (report_still _ _ _)
  intro _
  exact keeps_pure _

theorem sound_cancel (library : SoundLibrary Float Float32) (channels : Nat)
    (media : MediaFile Float) (g : Gathered Float Float32) (c : Cancel) :
    (g.sound library channels media c).2 = c ∨
      ∃ m, (g.sound library channels media c).2 = c.pass m := by
  unfold Gathered.sound
  split
  · exact .inl rfl
  · right
    cases library media <;> exact ⟨_, rfl⟩

theorem add_still (library : SoundLibrary Float Float32) (shape : StreamShape) (total : Nat)
    (clip : Scheduled Float) (g : Gathered Float Float32) :
    Keeps (Reel.Still origin) (Shoot.flagged (g.add library shape total clip)) := by
  intro reel h
  have same : (g.add library shape total clip reel.session.cancel).2 =
      (g.sound library shape.channels clip.media reel.session.cancel).2 := by
    unfold Gathered.add
    rcases g.sound library shape.channels clip.media reel.session.cancel with ⟨_ | _, _⟩ <;> rfl
  constructor
  · rcases sound_cancel library shape.channels clip.media g reel.session.cancel with
      kept | ⟨m, passed⟩
    · exact h.session.other rfl (same.trans kept)
    · exact (h.session.pass m).other rfl (same.trans passed)
  · exact h.writer

end Still

section Writing
variable {reel : Reel} {v : Writer}

/-- A writer of the same render after a step, with more or less taken. -/
structure Reel.Passes (origin : Reel) (w : Writer) (reel : Reel) : Prop where
  session : origin.session.Unseeing reel.session
  writer : reel.writer = some w

theorem writer_run (writing : reel.writer = some v) : Shoot.writer reel = (.ok v, reel) := by
  simp only [Shoot.writer, Steps.bind_run, Steps.get_run, writing]
  rfl

theorem encodeFrame_passes (p : Production) (index : Nat) (canvas : Image)
    (writing : reel.writer = some v) :
    ∃ w, reel.Passes w (p.encodeFrame index canvas reel).2 ∧ w.blocks = v.blocks ∧
      Grown (fun f => f.image = canvas ∧ f.timestamp = frameTimestamp index p.spec.fps)
        v.frames w.frames := by
  have passing : Shoot.lift (Run.pass (.videoFrame index)) reel = (.ok (), { reel with
      session := { reel.session with cancel := reel.session.cancel.pass (.videoFrame index) } }) :=
    rfl
  have passed : reel.session.Unseeing
      { reel.session with cancel := reel.session.cancel.pass (.videoFrame index) } :=
    (Session.Unseeing.refl _).pass _
  unfold Production.encodeFrame
  rw [Steps.bind_run, writer_run writing]
  dsimp only
  rw [Steps.bind_run, passing]
  dsimp only
  cases encoded : v.encodeVideo canvas (frameTimestamp index p.spec.fps)
      (index % max p.spec.keyframeInterval 1 == 0) with
  | error e => exact ⟨v, ⟨passed, writing⟩, rfl, .inl rfl⟩
  | ok w =>
    obtain ⟨-, took⟩ := Writer.encodeVideo_ok encoded
    simp only [Steps.bind_run, Steps.get_run, Steps.set_run]
    obtain ⟨worked, -⟩ :=
      drain_spec p.engine.encoderQueueDepth p.engine.stallTimeout w reel.session.clock
    cases waited : drain p.engine.encoderQueueDepth p.engine.stallTimeout w
        reel.session.clock with
    | mk result rest =>
      obtain ⟨after, clock⟩ := rest
      rw [waited] at worked
      have same := worked.same
      dsimp only at same
      refine ⟨after, ⟨?_, ?_⟩, ?_, ?_⟩
      · cases result <;> exact passed.other rfl rfl
      · cases result <;> rfl
      · rw [same, took]
      · refine .inr ⟨_, ?_, by rw [same, took]⟩
        exact ⟨rfl, rfl⟩

theorem encodeBlock_passes (shape : StreamShape) (mix : Mix Float32) (start stop : Nat)
    (writing : reel.writer = some v) :
    ∃ w, reel.Passes w (Production.encodeBlock shape mix start stop reel).2 ∧
      w.frames = v.frames ∧
      Grown (fun b => b = Production.block shape mix start stop) v.blocks w.blocks := by
  have passing : Shoot.lift (Run.pass (.audioBlock v.blocks.size)) reel = (.ok (), { reel with
      session := { reel.session with
        cancel := reel.session.cancel.pass (.audioBlock v.blocks.size) } }) :=
    rfl
  have passed : reel.session.Unseeing
      { reel.session with cancel := reel.session.cancel.pass (.audioBlock v.blocks.size) } :=
    (Session.Unseeing.refl _).pass _
  unfold Production.encodeBlock
  rw [Steps.bind_run, writer_run writing]
  dsimp only
  rw [Steps.bind_run, passing]
  dsimp only
  cases encoded : v.encodeAudio (Production.block shape mix start stop) with
  | error e => exact ⟨v, ⟨passed, writing⟩, rfl, .inl rfl⟩
  | ok w =>
    obtain ⟨track, peak, -, took⟩ := Writer.encodeAudio_ok encoded
    refine ⟨w, ⟨passed, rfl⟩, by rw [took], .inr ⟨_, rfl, by rw [took]⟩⟩

end Writing

/-- From one scene to another what was in hand may have come in, and nothing else was taken up. -/
structure Hands (p : Production) (x : Scene) (v : Writer) (given : Array (Scheduled Float))
    (y : Scene) (w : Writer) (mixed : Array (Scheduled Float)) : Prop where
  pictures : Handed (x.picture p.spec.fps) (y.picture p.spec.fps) v.frames w.frames
  blocks : Handed x.soundBlock y.soundBlock v.blocks w.blocks
  clips : Handed x.voice y.voice given mixed

section Hands
variable {p : Production} {x y z : Scene} {u v w : Writer}
  {first second third : Array (Scheduled Float)}

theorem Hands.trans (one : Hands p x u first y v second) (two : Hands p y v second z w third) :
    Hands p x u first z w third :=
  ⟨one.pictures.trans two.pictures, one.blocks.trans two.blocks, one.clips.trans two.clips⟩

/-- Nothing is in hand. -/
theorem hands_idle (idle : y.isIdle = true)
    (pictures : Grown (x.picture p.spec.fps) v.frames w.frames)
    (blocks : Grown x.soundBlock v.blocks w.blocks) (clips : Grown x.voice first second) :
    Hands p x v first y w second := by
  constructor
  · apply pictures.handed
    cases y <;> simp_all [Scene.isIdle, Scene.picture]
  · apply blocks.handed
    cases y <;> simp_all [Scene.isIdle, Scene.soundBlock]
  · apply clips.handed
    cases y <;> simp_all [Scene.isIdle, Scene.voice]

end Hands

/-- A step of a render before its last look at the flag. If the flag is tripped after it, it was no
look that let the render pass, and another look is nearer. -/
structure Stepped (p : Production) (booked : List UsedWriter) (s : Take) (v : Writer) (t : Take)
    (w : Writer) : Prop where
  films : t.Films booked w
  onward : t.scene.isFilming = true ∨ t.scene = .closing ∨ ∃ e, t.scene = .wrapped (.error e)
  tripped : s.tripped = true → t.tripped = true
  hands : t.tripped = true → Hands p s.scene v s.mixed t.scene w t.mixed
  looks : t.tripped = true → t.scene = .wrapped (.error .cancelled) ∨ t.looks = s.looks
  sooner : t.tripped = true →
    t.scene.isFilming = true ∧ t.scene.rank < s.scene.rank ∨ ∃ e, t.scene = .wrapped (.error e)

section Steps
variable {p : Production} {booked : List UsedWriter} {s : Take} {v w : Writer} {α : Type}
  {step : Shoot α} {scene : α → Scene} {mixed : Array (Scheduled Float)}

/-- A step without a look. -/
theorem after_stepped (films : s.Films booked v) (passes : s.reel.Passes w (step s.reel).2)
    (failed : ∀ e, Hands p s.scene v s.mixed (.wrapped (.error e)) w mixed)
    (onward : ∀ a, (scene a).isFilming = true ∧ (scene a).rank < s.scene.rank ∧
      Hands p s.scene v s.mixed (scene a) w mixed) :
    Stepped p booked s v ((⟨s.scene, s.reel, mixed⟩ : Take).after step scene) w := by
  have looks : ((⟨s.scene, s.reel, mixed⟩ : Take).after step scene).looks = s.looks :=
    passes.session.looks
  have held : ((⟨s.scene, s.reel, mixed⟩ : Take).after step scene).Films booked w :=
    ⟨passes.session.writers.trans films.booked, passes.writer⟩
  unfold Take.after at looks held ⊢
  cases ran : (step s.reel).1 with
  | ok a =>
    rw [ran] at looks held
    obtain ⟨filming, sooner, hands⟩ := onward a
    exact
      { films := held
        onward := .inl filming
        tripped := passes.session.tripped
        hands := fun _ => hands
        looks := fun _ => .inr looks
        sooner := fun _ => .inl ⟨filming, sooner⟩ }
  | error e =>
    rw [ran] at looks held
    exact
      { films := held
        onward := .inr (.inr ⟨e, rfl⟩)
        tripped := passes.session.tripped
        hands := fun _ => failed e
        looks := fun _ => .inr looks
        sooner := fun _ => .inr ⟨e, rfl⟩ }

/-- A step after which nothing is in hand. -/
theorem after_idle (films : s.Films booked v) (passes : s.reel.Passes w (step s.reel).2)
    (pictures : Grown (s.scene.picture p.spec.fps) v.frames w.frames)
    (blocks : Grown s.scene.soundBlock v.blocks w.blocks)
    (clips : Grown s.scene.voice s.mixed mixed)
    (onward : ∀ a, (scene a).isIdle = true ∧ (scene a).isFilming = true ∧
      (scene a).rank < s.scene.rank) :
    Stepped p booked s v ((⟨s.scene, s.reel, mixed⟩ : Take).after step scene) w := by
  apply after_stepped films passes
  · intro e
    exact hands_idle rfl pictures blocks clips
  · intro a
    obtain ⟨idle, filming, sooner⟩ := onward a
    exact ⟨filming, sooner, hands_idle idle pictures blocks clips⟩

theorem films_still (films : s.Films booked v) (still : Steps.Keeps (Reel.Still s.reel) step) :
    s.reel.Passes v (step s.reel).2 := by
  have kept := still s.reel (.refl _)
  exact ⟨kept.session, kept.writer.trans films.writing⟩

theorem after_still (films : s.Films booked v) (still : Steps.Keeps (Reel.Still s.reel) step)
    (onward : ∀ a, (scene a).isIdle = true ∧ (scene a).isFilming = true ∧
      (scene a).rank < s.scene.rank) : Stepped p booked s v (s.after step scene) v :=
  after_idle films (films_still films still) (.inl rfl) (.inl rfl) (.inl rfl) onward

/-- Only the scene changes. -/
theorem cut_stepped (films : s.Films booked v) {next : Scene} (idle : next.isIdle = true)
    (filming : next.isFilming = true) (sooner : next.rank < s.scene.rank) :
    Stepped p booked s v { s with scene := next } v := by
  have still : Steps.Keeps (Reel.Still s.reel) (pure () : Shoot Unit) := Steps.keeps_pure ()
  exact after_still films still fun _ => ⟨idle, filming, sooner⟩

/-- A look lets a render pass only if the flag is not tripped. -/
theorem after_look (films : s.Films booked v) {next : Scene}
    (onward : next.isFilming = true ∨ next = .closing) :
    Stepped p booked s v (s.after (Shoot.lift Run.check) fun _ => next) v := by
  have looked : s.after (Shoot.lift Run.check) (fun _ => next) =
      ⟨Scene.unless (fun _ => next) s.reel.session.cancel.check.1, { s.reel with
        session := { s.reel.session with cancel := s.reel.session.cancel.check.2 } }, s.mixed⟩ := by
    simp only [Take.after, Shoot.lift, Run.check_eq]
  rw [looked]
  unfold Cancel.check Cancel.look
  dsimp only
  cases found : (s.reel.session.cancel.pass (.look s.reel.session.cancel.looks)).tripped with
  | false =>
    exact
      { films := ⟨films.booked, films.writing⟩
        onward := onward.imp_right .inl
        tripped := by
          intro already
          simp [Cancel.pass, show s.reel.session.cancel.tripped = true from already] at found
        hands := fun tripped => absurd tripped Bool.false_ne_true
        looks := fun tripped => absurd tripped Bool.false_ne_true
        sooner := fun tripped => absurd tripped Bool.false_ne_true }
  | true =>
    exact
      { films := ⟨films.booked, films.writing⟩
        onward := .inr (.inr ⟨_, rfl⟩)
        tripped := fun _ => rfl
        hands := fun _ => hands_idle rfl (.inl rfl) (.inl rfl) (.inl rfl)
        looks := fun _ => .inl rfl
        sooner := fun _ => .inr ⟨_, rfl⟩ }

/-- Every step before the last look at the flag. -/
theorem next_stepped (films : s.Films booked v) (filming : s.scene.isFilming = true) :
    ∃ w, Stepped p booked s v (p.next s) w := by
  obtain ⟨current, reel, mixed⟩ := s
  cases current with
  | opening =>
    exact ⟨v, after_still films (report_still _ _ _) fun _ => ⟨rfl, rfl, by simp [Scene.rank]⟩⟩
  | frame left index =>
    cases left with
    | zero =>
      refine ⟨v, after_still films close_still fun _ => ?_⟩
      cases p.spec.audio with
      | none => exact ⟨rfl, rfl, by simp [Scene.rank]⟩
      | some audio => exact ⟨rfl, rfl, by simp [Scene.rank]⟩
    | succ left => exact ⟨v, after_look films (.inl rfl)⟩
  | composing left index =>
    refine ⟨v, after_stepped films (films_still films (compose_still p _)) ?_ ?_⟩
    · intro e
      exact hands_idle rfl (.inl rfl) (.inl rfl) (.inl rfl)
    · intro canvas
      refine ⟨rfl, by simp [Scene.rank], .inl ⟨rfl, fun _ held => held.2⟩, ?_, ?_⟩
      · exact .inl ⟨rfl, fun _ => False.elim⟩
      · exact .inl ⟨rfl, fun _ => False.elim⟩
  | drawn left index canvas =>
    obtain ⟨w, passes, blocks, pictures⟩ := encodeFrame_passes p index canvas films.writing
    exact ⟨w, after_idle films passes pictures (.inl blocks) (.inl rfl) fun _ =>
      ⟨rfl, rfl, by simp [Scene.rank]⟩⟩
  | framed left index =>
    exact ⟨v, after_still films (fraction_still _ _ _ _) fun _ => ⟨rfl, rfl, by simp [Scene.rank]⟩⟩
  | sound audio =>
    exact ⟨v, after_still films openSound_still fun _ => ⟨rfl, rfl, by simp [Scene.rank]⟩⟩
  | clip shape size left g =>
    cases left with
    | nil => exact ⟨v, cut_stepped films rfl rfl (by simp [Scene.rank])⟩
    | cons clip left => exact ⟨v, after_look films (.inl rfl)⟩
  | mixing shape size clip left g =>
    refine ⟨v, after_idle films (films_still films (add_still _ _ _ _ _)) (.inl rfl) (.inl rfl)
      (.inr ⟨clip, rfl, rfl⟩) fun _ => ⟨rfl, rfl, by simp [Scene.rank]⟩⟩
  | block shape mix size left start =>
    cases left with
    | zero => exact ⟨v, cut_stepped films rfl rfl (by simp [Scene.rank])⟩
    | succ left =>
      by_cases last : mix.frames ≤ start
      · simp only [Production.next, if_pos last]
        exact ⟨v, cut_stepped films rfl rfl (by simp [Scene.rank])⟩
      · simp only [Production.next, if_neg last]
        exact ⟨v, after_look films (.inl rfl)⟩
  | encoding shape mix size left start =>
    obtain ⟨w, passes, pictures, blocks⟩ :=
      encodeBlock_passes shape mix start (min (start + size) mix.frames) films.writing
    exact ⟨w, after_idle films passes (.inl pictures) blocks (.inl rfl) fun _ =>
      ⟨rfl, rfl, by simp [Scene.rank]⟩⟩
  | encoded shape mix size left stop =>
    exact ⟨v, after_still films (fraction_still _ _ _ _) fun _ => ⟨rfl, rfl, by simp [Scene.rank]⟩⟩
  | ending => exact ⟨v, after_look films (.inr rfl)⟩
  | closing => cases filming
  | wrapped result => cases filming

end Steps

section Runs
open Production
variable {p : Production} {booked : List UsedWriter} {s t u : Take} {v : Writer}

/-- A flag that is tripped by the end of a step ends the render: what was in hand may come in, and
then a step fails, or the next look finds the flag tripped. -/
theorem stops (films : s.Films booked v) (filming : s.scene.isFilming = true)
    (tripped : (p.next s).tripped = true) :
    ∃ t w e, p.Reaches s t ∧ t.scene = .wrapped (.error e) ∧ t.Films booked w ∧
      Hands p s.scene v s.mixed t.scene w t.mixed ∧ (e = .cancelled ∨ t.looks = s.looks) := by
  induction near : s.scene.rank using Nat.strongRecOn generalizing s v with
  | ind n ih =>
    obtain ⟨w, stepped⟩ := @next_stepped p booked s v films filming
    rcases stepped.sooner tripped with ⟨still, sooner⟩ | ⟨e, ended⟩
    · obtain ⟨w₂, following⟩ := @next_stepped p booked (p.next s) w stepped.films still
      have later := following.tripped tripped
      obtain ⟨t, last, e, reached, ended, held, hands, looks⟩ :=
        ih _ (near ▸ sooner) stepped.films still later rfl
      refine ⟨t, last, e, reached.step, ended, held, (stepped.hands tripped).trans hands, ?_⟩
      rcases stepped.looks tripped with wrapped | same
      · rw [wrapped] at still
        cases still
      · rwa [same] at looks
    · refine ⟨p.next s, w, e, ⟨1, rfl⟩, ended, stepped.films, stepped.hands tripped, ?_⟩
      rcases stepped.looks tripped with cancelled | same
      · rw [ended] at cancelled
        cases cancelled
        exact .inl rfl
      · exact .inr same

theorem next_wrapped {result : Except RenderFault Bytes} (wrapped : t.scene = .wrapped result) :
    p.next t = t := by
  unfold Production.next
  rw [wrapped]

theorem reaches_wrapped {result : Except RenderFault Bytes} (wrapped : t.scene = .wrapped result)
    (reached : p.Reaches t u) : u = t := by
  obtain ⟨n, same⟩ := reached
  rw [← same]
  exact Function.iterate_fixed (next_wrapped wrapped) n

/-- The end of a render lies ahead of each of its moments. -/
theorem reaches_end {origin : Take} {result : Except RenderFault Bytes}
    (here : p.Reaches origin s) (there : p.Reaches origin t) (wrapped : t.scene = .wrapped result) :
    p.Reaches s t := by
  obtain ⟨n, rfl⟩ := here
  obtain ⟨m, rfl⟩ := there
  rcases Nat.le_total n m with early | late
  · refine ⟨m - n, ?_⟩
    rw [← Function.iterate_add_apply, Nat.sub_add_cancel early]
  · have past : p.Reaches (p.next^[m] origin) (p.next^[n] origin) := by
      refine ⟨n - m, ?_⟩
      rw [← Function.iterate_add_apply, Nat.sub_add_cancel late]
    rw [reaches_wrapped wrapped past]
    exact .refl _

/-- The one writer of a render, as a teardown at this moment would leave it. -/
def Take.Holds (booked : List UsedWriter) (u : UsedWriter) (t : Take) : Prop :=
  t.reel.teardown.writers = booked ++ [u]

theorem films_holds (films : s.Films booked v) : s.Holds booked ⟨v, false⟩ := by
  unfold Take.Holds
  simp [films.booked, films.writing]

theorem close_run {reel : Reel} (writing : reel.writer = some v) :
    ∃ bytes after, Production.close reel = (.ok bytes, after) ∧ after.writer = none ∧
      after.session.writers = reel.session.writers ++ [⟨v, true⟩] := by
  let begun : Reel := { reel with
    session := reel.session.report .finalizing 0 "Finalizing container" }
  have reported : Shoot.lift (Run.report .finalizing 0 "Finalizing container") reel =
      (.ok (), begun) := rfl
  have booked : begun.session.writers = reel.session.writers :=
    (Run.reported_books reel.session _).writers
  have used : Production.finish begun = (.ok v.finish, { begun with
      writer := none
      session := { begun.session with writers := begun.session.writers ++ [⟨v, true⟩] } }) := by
    unfold Production.finish
    rw [Steps.bind_run, writer_run (show begun.writer = some v from writing)]
    rfl
  unfold Production.close
  rw [Steps.bind_run, reported]
  dsimp only
  rw [Steps.bind_run, used]
  refine ⟨v.finish, _, rfl, rfl, ?_⟩
  rw [← booked]
  exact (Run.reported_books _ _).writers

/-- Past the last look at the flag the file is finished. -/
theorem closing_next (films : s.Films booked v) (closing : s.scene = .closing) :
    ∃ bytes, (p.next s).scene = .wrapped (.ok bytes) ∧ (p.next s).Holds booked ⟨v, true⟩ ∧
      (p.next s).mixed = s.mixed := by
  obtain ⟨bytes, after, ran, none, writers⟩ := close_run films.writing
  have closed : p.next s = ⟨.wrapped (.ok bytes), after, s.mixed⟩ := by
    simp only [Production.next, closing, Take.after, ran]
    rfl
  rw [closed]
  refine ⟨bytes, rfl, ?_, rfl⟩
  unfold Take.Holds
  simp [none, writers, films.booked]

/-- The moments of a render. -/
def Take.Kept (booked : List UsedWriter) (t : Take) : Prop :=
  (∃ w, t.Films booked w ∧
    (t.scene.isFilming = true ∨ t.scene = .closing ∨ ∃ e, t.scene = .wrapped (.error e))) ∨
  ∃ w bytes, t.Holds booked ⟨w, true⟩ ∧ t.scene = .wrapped (.ok bytes)

theorem next_kept (kept : s.Kept booked) : (p.next s).Kept booked := by
  rcases kept with ⟨w, films, filming | closing | ⟨e, wrapped⟩⟩ | ⟨w, bytes, holds, wrapped⟩
  · obtain ⟨w₂, stepped⟩ := next_stepped films filming
    exact .inl ⟨w₂, stepped.films, stepped.onward⟩
  · obtain ⟨bytes, wrapped, holds, -⟩ := closing_next films closing
    exact .inr ⟨w, bytes, holds, wrapped⟩
  · rw [next_wrapped wrapped]
    exact .inl ⟨w, films, .inr (.inr ⟨e, wrapped⟩)⟩
  · rw [next_wrapped wrapped]
    exact .inr ⟨w, bytes, holds, wrapped⟩

theorem reaches_kept (kept : s.Kept booked) (reached : p.Reaches s t) : t.Kept booked := by
  obtain ⟨n, rfl⟩ := reached
  induction n with
  | zero => exact kept
  | succ n ih =>
    rw [Function.iterate_succ_apply']
    exact next_kept ih

theorem opening_kept (session : Session) (w : Writer) :
    (p.opening session w).Kept session.writers :=
  .inl ⟨w, ⟨rfl, rfl⟩, .inl rfl⟩

/-- How a render takes notice of a flag that was tripped at a moment. Only what was in hand then is
still taken. Unless the last look at the flag was past, the render fails, by that flag or in a step
before it is looked at again, and its writer is aborted. -/
structure Heeded (p : Production) (booked : List UsedWriter) (moment last : Take) : Prop where
  submitted : ∃ u v, moment.Holds booked u ∧ last.Holds booked v ∧
    Grown (moment.scene.picture p.spec.fps) u.writer.frames v.writer.frames ∧
    Grown moment.scene.soundBlock u.writer.blocks v.writer.blocks
  mixed : Grown moment.scene.voice moment.mixed last.mixed
  ended : moment.scene.isFilming = true → ∃ e w, last.scene = .wrapped (.error e) ∧
    (e = .cancelled ∨ last.looks = moment.looks) ∧ last.Holds booked ⟨w, false⟩

/-- Once a render is past its last look at the flag, it ends the same. -/
theorem heeded_late {u w : UsedWriter} (late : s.scene.isFilming = false)
    (before : s.Holds booked u) (after : t.Holds booked w) (same : w.writer = u.writer)
    (mixed : t.mixed = s.mixed) : Heeded p booked s t := by
  constructor
  · exact ⟨u, w, before, after, .inl (by rw [same]), .inl (by rw [same])⟩
  · exact .inl mixed
  · intro filming
    rw [late] at filming
    cases filming

theorem filming_heeded (films : s.Films booked v) (filming : s.scene.isFilming = true)
    (tripped : (p.next s).tripped = true) :
    ∃ t e, p.Reaches s t ∧ t.scene = .wrapped (.error e) ∧ Heeded p booked s t := by
  obtain ⟨t, w, e, reached, wrapped, held, hands, looks⟩ := stops films filming tripped
  have holds := films_holds held
  refine ⟨t, e, reached, wrapped, ?_, hands.clips.grown, ?_⟩
  · exact ⟨_, _, films_holds films, holds, hands.pictures.grown, hands.blocks.grown⟩
  · intro _
    exact ⟨e, w, wrapped, looks, holds⟩

theorem kept_heeded (kept : s.Kept booked)
    (tripped : s.scene.isFilming = true → (p.next s).tripped = true) :
    ∃ t result, p.Reaches s t ∧ t.scene = .wrapped result ∧ Heeded p booked s t := by
  rcases kept with ⟨w, films, filming | closing | ⟨e, wrapped⟩⟩ | ⟨w, bytes, holds, wrapped⟩
  · obtain ⟨t, e, reached, wrapped, heeded⟩ := filming_heeded films filming (tripped filming)
    exact ⟨t, _, reached, wrapped, heeded⟩
  · obtain ⟨bytes, wrapped, holds, mixed⟩ := @closing_next p booked s w films closing
    have late : s.scene.isFilming = false := by rw [closing]; rfl
    exact ⟨_, _, ⟨1, rfl⟩, wrapped, heeded_late late (films_holds films) holds rfl mixed⟩
  · have late : s.scene.isFilming = false := by rw [wrapped]; rfl
    have holds := films_holds films
    exact ⟨s, _, .refl s, wrapped, heeded_late late holds holds rfl rfl⟩
  · have late : s.scene.isFilming = false := by rw [wrapped]; rfl
    exact ⟨s, _, .refl s, wrapped, heeded_late late holds holds rfl rfl⟩

/-- Somebody else trips the flag at some moment of a render. -/
theorem trip_heeded (kept : s.Kept booked) :
    ∃ t result, p.Reaches s.trip t ∧ t.scene = .wrapped result ∧ Heeded p booked s t := by
  have same : s.trip.Kept booked := by
    rcases kept with ⟨w, films, onward⟩ | rest
    · exact .inl ⟨w, ⟨films.booked, films.writing⟩, onward⟩
    · exact .inr rest
  have tripped : s.trip.scene.isFilming = true → (p.next s.trip).tripped = true := by
    intro filming
    rcases same with ⟨w, films, -⟩ | ⟨w, bytes, -, wrapped⟩
    · obtain ⟨_, stepped⟩ := @next_stepped p booked s.trip w films filming
      exact stepped.tripped rfl
    · rw [wrapped] at filming
      cases filming
  obtain ⟨t, result, reached, wrapped, heeded⟩ := kept_heeded same tripped
  exact ⟨t, result, reached, wrapped, ⟨heeded.submitted, heeded.mixed, heeded.ended⟩⟩

end Runs

/-- A streaming render takes notice of its flag within one step. Its steps lead from its opening to
its end. Whichever moment on the way is chosen, if the flag is tripped when the next step is done, or
if somebody trips it then and there, only the picture, the block or the clip in hand goes its way.
Before the last look at the flag that means a failure and an aborted writer. -/
theorem streaming_heeds_flag (h : Host) (project : Project Float) (settings : RenderSettings Float)
    (s : Session) :
    let p := Production.ofHost h project settings
    (¬ h.config.render.Timed → renderByStreaming h project settings s = (.error .overflow, s)) ∧
    (h.config.render.Timed → ∀ e, h.backend.openWriter p.spec = .error e →
      renderByStreaming h project settings s = (.error e, s)) ∧
    (h.config.render.Timed → ∀ w, h.backend.openWriter p.spec = .ok w →
      ∃ result last, p.Reaches (p.opening s w) last ∧ last.scene = .wrapped result ∧
        renderByStreaming h project settings s = (result, last.reel.teardown) ∧
        ∀ moment, p.Reaches (p.opening s w) moment →
          ((p.next moment).tripped = true → Heeded p s.writers moment last) ∧
          ∃ other stopped, p.Reaches moment.trip stopped ∧ stopped.scene = .wrapped other ∧
            Heeded p s.writers moment stopped) := by
  intro p
  refine ⟨renderByStreaming_untimed s, fun timed _ => renderByStreaming_unopened s timed, ?_⟩
  · intro timed w opened
    obtain ⟨result, reel, mixed, reached, rendered⟩ :=
      Production.renderByStreaming_plays s timed opened
    refine ⟨result, ⟨.wrapped result, reel, mixed⟩, reached, rfl, rendered, ?_⟩
    intro moment passed
    have kept := reaches_kept (opening_kept s w) passed
    constructor
    · intro tripped
      obtain ⟨t, other, ended, wrapped, heeded⟩ := kept_heeded kept fun _ => tripped
      have same := reaches_end (passed.trans ended) reached rfl
      rw [reaches_wrapped wrapped same]
      exact heeded
    · obtain ⟨t, other, ended, wrapped, heeded⟩ := @trip_heeded p s.writers moment kept
      exact ⟨other, t, ended, wrapped, heeded⟩

/-- What the short render films. -/
def shortProduction : Production := .ofHost shortHost shortProject shortSettings

def shortWriter : Writer := .new shortProduction.spec { EncoderTraits.sound with frameSize := 3 }

/-- Its first picture is being composed. -/
def firstPicture : Take :=
  shortProduction.next^[2] (shortProduction.opening shortSession shortWriter)

theorem streaming_heeds_flag_first : ∃ stopped e w,
    shortProduction.Reaches firstPicture.trip stopped ∧ stopped.scene = .wrapped (.error e) ∧
      stopped.Holds [] ⟨w, false⟩ ∧ w.frames.size ≤ 1 := by
  have filming : firstPicture.scene.isFilming = true := by decide +kernel
  have empty : (firstPicture.reel.teardown.writers.map (·.writer.frames.size)) = [0] := by
    decide +kernel
  obtain ⟨-, -, filmed⟩ := streaming_heeds_flag shortHost shortProject shortSettings shortSession
  obtain ⟨result, last, -, -, -, moments⟩ := filmed (by decide +kernel) shortWriter rfl
  obtain ⟨-, other, stopped, reached, -, heeded⟩ := moments firstPicture ⟨2, rfl⟩
  obtain ⟨e, w, wrapped, -, holds⟩ := heeded.ended filming
  obtain ⟨u, v, before, after, pictures, -⟩ := heeded.submitted
  have same : [v] = [⟨w, false⟩] := after.symm.trans holds
  cases same
  have none : [u.writer.frames.size] = [0] := by
    rw [show firstPicture.reel.teardown.writers = [u] from before] at empty
    exact empty
  have few := pictures.size
  rw [List.singleton_inj.mp none] at few
  exact ⟨stopped, e, w, reached, wrapped, holds, few⟩

end Montage
