import Montage.Proofs.Render.Reports
import Montage.Proofs.Stream.Shooting
import Montage.Render.Chain

/- How the strategies of a host conduct themselves. Whatever they meet, all of them report on work
   alone, and only the one of the service sends requests. -/
namespace Montage

namespace Session

/-- Some work was reported, and no request was sent. -/
structure AtWork (origin s : Session) : Prop where
  requests : s.requests = origin.requests
  progress : origin.progress.Worked s.progress

variable {origin s t : Session}

theorem AtWork.refl (s : Session) : s.AtWork s := ⟨rfl, .start⟩

/-- Other parts of a session are free to change. -/
theorem AtWork.other (h : origin.AtWork s) (requests : t.requests = s.requests)
    (progress : t.progress = s.progress) : origin.AtWork t := by
  constructor
  · rw [requests]
    exact h.requests
  · rw [progress]
    exact h.progress

theorem reported_progress (s : Session) (p : Progress) : (s.reported p).progress = p := by
  unfold reported
  split <;> rfl

theorem reported_requests (s : Session) (p : Progress) :
    (s.reported p).requests = s.requests := by
  unfold reported
  split <;> rfl

end Session

namespace Run
open Steps
variable {held : Session → Prop} {origin : Session} {p : Progress} {stage : Stage}

theorem report_works (work : stage.isWork = true) (percent : Nat) (message : String) :
    Keeps (fun s => p.Worked s.progress) (report stage percent message) := by
  intro s h
  change p.Worked (s.reported _).progress
  rw [Session.reported_progress]
  exact h.report stage percent message work

theorem check_works : Keeps (fun s => p.Worked s.progress) check := by
  intro s h
  rw [check_eq]
  exact h

theorem check_requests {s passed : Session} {result : Except RenderFault Unit}
    (looked : check s = (result, passed)) : passed.requests = s.requests := by
  rw [check_eq] at looked
  cases looked
  rfl

theorem report_atWork (work : stage.isWork = true) (percent : Nat) (message : String) :
    Keeps (Session.AtWork origin) (report stage percent message) := by
  intro s h
  constructor
  · exact (Session.reported_requests s _).trans h.requests
  · exact report_works work percent message s h.progress

theorem fraction_atWork (work : stage.isWork = true) (done total : Nat) (message : String) :
    Keeps (Session.AtWork origin) (fraction stage done total message) := by
  intro s h
  rw [fraction_run]
  unfold Progress.fraction
  cases Progress.percentage? done total with
  | none => exact h
  | some percent => exact report_atWork work percent message s h

theorem pass_atWork (m : Moment) : Keeps (Session.AtWork origin) (pass m) := by
  intro s h
  exact h.other rfl rfl

theorem check_atWork : Keeps (Session.AtWork origin) check := by
  intro s h
  rw [check_eq]
  exact h.other rfl rfl

theorem ofResult_keeps {α : Type} (result : Except RenderFault α) :
    Keeps held (ofResult result) := by
  cases result with
  | ok x => exact keeps_pure x
  | error e => exact keeps_throw e

end Run

section Streaming
open Steps
variable {origin : Session}

/-- A streaming render under way whose session is at work. -/
def Reel.AtWork (origin : Session) (reel : Reel) : Prop := origin.AtWork reel.session

theorem lift_atWork {α : Type} {step : Run α} (kept : Keeps (Session.AtWork origin) step) :
    Keeps (Reel.AtWork origin) (Shoot.lift step) := by
  intro reel h
  exact kept reel.session h

theorem compose_atWork (p : Production) (t : Float) :
    Keeps (Reel.AtWork origin) (p.compose t) := by
  apply keeps_get
  intro reel h
  simp only [bind_run, set_run]
  generalize composeLayers _ _ _ _ _ _ _ = composed
  obtain ⟨result, seats, books, clock⟩ := composed
  have kept : Reel.AtWork origin
      { reel with seats, session := { reel.session with books, clock } } :=
    h.other rfl rfl
  cases result <;> exact kept

theorem encodeFrame_atWork (p : Production) (index : Nat) (canvas : Image) :
    Keeps (Reel.AtWork origin) (p.encodeFrame index canvas) := by
  refine keeps_bind writer_keeps ?_
  intro w
  apply keeps_bind (lift_atWork (Run.pass_atWork _))
  intro _
  dsimp only
  split
  · exact keeps_throw _
  · apply keeps_get
    intro reel h
    simp only [bind_run, set_run]
    generalize drain _ _ _ _ = drained
    obtain ⟨result, w, clock⟩ := drained
    have kept : Reel.AtWork origin
        { reel with writer := some w, session := { reel.session with clock } } := h.other rfl rfl
    cases result <;> exact kept

theorem frames_atWork (p : Production) (n index : Nat) :
    Keeps (Reel.AtWork origin) (p.frames n index) :=
  frames_keep (lift_atWork Run.check_atWork) (compose_atWork p) (encodeFrame_atWork p)
    (fun _ _ _ => lift_atWork (Run.fraction_atWork rfl _ _ _)) n index

theorem blocks_atWork (shape : StreamShape) (mix : Mix Float32) (size n start : Nat) :
    Keeps (Reel.AtWork origin) (Production.blocks shape mix size n start) :=
  blocks_keep (lift_atWork Run.check_atWork) (fun _ => lift_atWork (Run.pass_atWork _))
    (fun _ => keeps_modify fun _ h => h)
    (fun _ _ _ => lift_atWork (Run.fraction_atWork rfl _ _ _)) shape mix size n start

theorem encodeSound_atWork (p : Production) (audio : AudioSpec) :
    Keeps (Reel.AtWork origin) (p.encodeSound audio) := by
  refine keeps_bind writer_keeps ?_
  intro w
  apply keeps_bind (lift_atWork (Run.report_atWork rfl _ _))
  intro _
  apply keeps_get
  intro reel h
  simp only [bind_run, set_run]
  generalize Project.mix (S := Float32) p.project _ _ _ = mixed
  obtain ⟨result, cancel⟩ := mixed
  have kept : Reel.AtWork origin { reel with session := { reel.session with cancel } } :=
    h.other rfl rfl
  cases result with
  | error e => exact kept
  | ok mix => exact blocks_atWork _ _ _ _ _ _ kept

theorem finish_atWork : Keeps (Reel.AtWork origin) Production.finish := by
  refine keeps_bind writer_keeps ?_
  intro w
  apply keeps_bind
  · apply keeps_modify
    intro reel h
    exact h.other rfl rfl
  · intro _
    exact keeps_pure _

theorem shoot_atWork (p : Production) : Keeps (Reel.AtWork origin) p.shoot := by
  have ending : Keeps (Reel.AtWork origin)
      (do
        Shoot.lift Run.check
        Shoot.lift (Run.report .finalizing 0 "Finalizing container")
        let bytes ← Production.finish
        Shoot.lift (Run.report .finalizing 100 "Container finalized")
        return bytes : Shoot Bytes) := by
    apply keeps_bind (lift_atWork Run.check_atWork)
    intro _
    apply keeps_bind (lift_atWork (Run.report_atWork rfl _ _))
    intro _
    apply keeps_bind finish_atWork
    intro bytes
    apply keeps_bind (lift_atWork (Run.report_atWork rfl _ _))
    intro _
    exact keeps_pure _
  apply keeps_bind (lift_atWork (Run.report_atWork rfl _ _))
  intro _
  apply keeps_bind (frames_atWork p _ _)
  intro _
  refine keeps_bind (keeps_modify fun _ h => h.other rfl rfl) ?_
  intro _
  cases p.spec.audio with
  | none => exact ending
  | some audio =>
    apply keeps_bind (encodeSound_atWork p audio)
    intro _
    exact ending

theorem streaming_atWork (h : Host) (p : Project Float) (settings : RenderSettings Float) :
    Keeps (Session.AtWork origin) (renderByStreaming h p settings) := by
  intro s kept
  by_cases timed : h.config.render.Timed
  · cases opened : h.backend.openWriter (outputSpec h.config.render p settings) with
    | error e => rwa [renderByStreaming_unopened s timed opened]
    | ok w =>
      have begun : Reel.AtWork origin ((Production.ofHost h p settings).begun s w) :=
        kept.other rfl rfl
      have shot := shoot_atWork (Production.ofHost h p settings) _ begun
      cases ran : (Production.ofHost h p settings).shoot
          ((Production.ofHost h p settings).begun s w) with
      | mk result reel =>
        rw [ran] at shot
        rw [renderByStreaming_shoots s timed opened ran]
        exact shot.other rfl rfl
  · rwa [renderByStreaming_untimed s timed]

end Streaming

section Transcoding
open Steps
variable {origin : Session}

theorem reportEntry_atWork (total : Nat) (state : TranscoderState) (key : String) :
    Keeps (Session.AtWork origin) (reportEntry total state key) := by
  unfold reportEntry
  split
  · split
    · exact Run.report_atWork rfl _ _
    · exact Run.fraction_atWork rfl _ _ _
  · exact keeps_pure _

theorem followOutput_atWork (total : Nat) (lines : List Bytes) (state : TranscoderState) :
    Keeps (Session.AtWork origin) (followOutput total lines state) := by
  induction lines generalizing state with
  | nil => exact keeps_pure _
  | cons line rest ih =>
    rw [followOutput]
    split
    · exact keeps_throw _
    · split
      · exact ih state
      · apply keeps_bind (reportEntry_atWork _ _ _)
        intro _
        exact ih _

theorem runTranscoder_atWork (programs : Programs) (name : String) (arguments : List String)
    (duration : Float) :
    Keeps (Session.AtWork origin) (runTranscoder programs name arguments duration) := by
  have ending (program : Program) : Keeps (Session.AtWork origin) (do
      followOutput (toMicros duration).toNat (outputLines program.stdout) TranscoderState.start
      if program.hangs then
        modify fun s => { s with cancel := s.cancel.trip }
        throw .cancelled
      if program.exit ≠ 0 then
        throw (.backend (.transcoderFailed ("exit status: " ++ toString program.exit)
          (complaint program.stderr))) : Run Unit) := by
    have status : Keeps (Session.AtWork origin) (if program.exit ≠ 0 then
        throw (.backend (.transcoderFailed ("exit status: " ++ toString program.exit)
          (complaint program.stderr))) else pure () : Run Unit) := by
      split
      · exact keeps_throw _
      · exact keeps_pure _
    apply keeps_bind (followOutput_atWork _ _ _)
    intro _
    cases program.hangs with
    | true =>
      refine keeps_bind (keeps_modify fun _ h => h.other rfl rfl) ?_
      intro _
      exact keeps_failed _ _
    | false => exact status
  apply keeps_bind Run.check_atWork
  intro _
  apply keeps_read
  intro s
  refine keeps_bind (Run.ofResult_keeps _) ?_
  intro program
  refine keeps_bind (keeps_modify fun _ h => h.other rfl rfl) ?_
  intro _
  dsimp only
  split
  · refine keeps_bind (keeps_modify fun _ h => h.other rfl rfl) ?_
    intro _
    exact ending program
  · exact ending program

theorem readOutput_atWork (output : String) : Keeps (Session.AtWork origin) (do
    Run.report .finalizing 0 "Reading rendered output"
    match (← get).files.read output with
    | .error e => throw (.backend (.outputUnread output e.message))
    | .ok bytes =>
      Run.report .finalizing 100 "Output ready"
      return bytes : Run Bytes) := by
  apply keeps_bind (Run.report_atWork rfl _ _)
  intro _
  apply keeps_read
  intro s
  split
  · exact keeps_throw _
  · apply keeps_bind (Run.report_atWork rfl _ _)
    intro _
    exact keeps_pure _

theorem transcoder_atWork (h : Host) (p : Project Float) (settings : RenderSettings Float) :
    Keeps (Session.AtWork origin) (renderByTranscoder h p settings) := by
  apply keeps_read
  intro s
  cases h.programs.isAvailable s.files h.config.render.transcoderPath with
  | false => exact keeps_failed _ _
  | true =>
    dsimp only [Bool.not_true, Bool.false_eq_true]
    cases Graph.compile p settings (graphOptions h settings) with
    | none => exact keeps_throw _
    | some graph =>
      refine keeps_bind (keeps_forIn (fun file _ => ?_) _ _) ?_
      · refine keeps_bind (keeps_modify fun _ h => h.other rfl rfl) ?_
        intro _
        exact keeps_pure _
      · intro _
        apply keeps_read
        intro s
        split
        · exact keeps_failed _ _
        · apply keeps_bind (runTranscoder_atWork _ _ _ _)
          intro _
          exact readOutput_atWork _

end Transcoding

section Asking
open Steps
variable {p : Progress}

theorem exchange_works (answer : Answer) (request : Request) :
    Keeps (fun s => p.Worked s.progress) (exchange answer request) := by
  intro s h
  cases answer <;> exact h

theorem checkHealth_works (c : ServiceConfig) (service : Service) :
    Keeps (fun s => p.Worked s.progress) (checkHealth c service) := by
  apply keeps_bind (exchange_works _ _)
  intro reply
  cases reply with
  | none => exact keeps_throw _
  | some r =>
    dsimp only
    split
    · exact keeps_failed _ _
    · split
      · exact keeps_pure _
      · exact keeps_throw _

theorem ensureCompatible_works (c : ServiceConfig) (service : Service) :
    Keeps (fun s => p.Worked s.progress) (ensureCompatible c service) := by
  apply keeps_bind (checkHealth_works c service)
  intro health
  dsimp only
  split
  · exact keeps_failed _ _
  · exact keeps_pure _

theorem requestRender_works (c : ServiceConfig) (service : Service) (project : Project Float)
    (settings : RenderSettings Float) :
    Keeps (fun s => p.Worked s.progress) (requestRender c service project settings) := by
  apply keeps_read
  intro s
  refine keeps_bind (Run.ofResult_keeps _) ?_
  intro form
  apply keeps_bind Run.check_works
  intro _
  apply keeps_bind (exchange_works _ _)
  intro reply
  cases reply with
  | none =>
    apply keeps_read
    intro s
    dsimp only
    split
    · exact keeps_failed _ _
    · exact keeps_throw _
  | some r =>
    dsimp only
    split
    · exact keeps_throw _
    · split
      · exact keeps_failed _ _
      · split
        · exact keeps_failed _ _
        · exact keeps_pure _

theorem service_works (h : Host) (project : Project Float) (settings : RenderSettings Float) :
    Keeps (fun s => p.Worked s.progress) (renderByService h project settings) := by
  apply keeps_bind (Run.report_works rfl _ _)
  intro _
  apply keeps_bind (ensureCompatible_works _ _)
  intro _
  apply keeps_bind (Run.report_works rfl _ _)
  intro _
  apply keeps_bind (requestRender_works _ _ _ _)
  intro bytes
  apply keeps_bind (Run.report_works rfl _ _)
  intro _
  exact keeps_pure _

end Asking

/-- Whatever they meet, the attempts report on work alone. -/
def ReportsWork (attempt : Strategy → Run Bytes) : Prop :=
  ∀ strategy s, Progress.Worked (Session.progress s) (attempt strategy s).2.progress

section Attempts
variable (h : Host) (p : Project Float) (settings : RenderSettings Float)

theorem attempt_atWork (strategy : Strategy) (s : Session) (offline : strategy ≠ .nativeService) :
    s.AtWork (h.attempt p settings strategy s).2 := by
  cases strategy with
  | nativeService => exact absurd rfl offline
  | streaming => exact streaming_atWork h p settings s (.refl s)
  | filterGraph => exact transcoder_atWork h p settings s (.refl s)

theorem attempt_works : ReportsWork (h.attempt p settings) := by
  intro strategy s
  cases strategy with
  | nativeService => exact service_works h p settings s .start
  | streaming => exact (attempt_atWork h p settings .streaming s nofun).progress
  | filterGraph => exact (attempt_atWork h p settings .filterGraph s nofun).progress

end Attempts
end Montage
