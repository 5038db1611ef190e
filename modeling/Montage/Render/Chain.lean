import Montage.Service.Client
import Montage.Stream.Pipeline
import Montage.Timeline.Store
import Montage.Transcode.Render

/- The render of a project: strategies in turn, until one gives an output. -/
namespace Montage

structure RenderOutput where
  bytes : Bytes
  mime : String
  strategy : Strategy

/-- Whether a failure ends the walk whatever comes next. -/
def RenderFault.endsWalk (e : RenderFault) : Bool :=
  match e.faultClass with
  | .cancelled | .configuration | .halted => true
  | _ => false

/-- Tries strategies in order; the last failure is the one that is told. -/
def walk (attempt : Strategy → Run Bytes) (pinned : Bool) (mime : String) :
    List Strategy → Option RenderFault → Run RenderOutput
  | [], failure => throw (failure.getD (.unavailable .noStrategy))
  | strategy :: rest, _ => do
    Run.check
    Run.restart
    match ← ExceptT.lift (attempt strategy).run with
    | .ok bytes =>
      if bytes.isEmpty then
        let failure := RenderFault.backend (.emptyOutput strategy.name)
        if pinned then throw failure else walk attempt pinned mime rest (some failure)
      else return ⟨bytes, mime, strategy⟩
    | .error e =>
      if e.endsWalk || pinned then throw e else walk attempt pinned mime rest (some e)

/-- Whether a render may begin at all, and by which strategies. -/
def planRender (capabilities : Capabilities) (p : Project Float) (settings : RenderSettings Float) :
    Except RenderFault (List Strategy) := do
  match settings.fault? with
  | some f => throw (.configuration (.settings f))
  | none => pure ()
  if !p.issues.isEmpty then throw (.project (.invalid p.issueTexts))
  if p.duration ≤ 0 then throw (.project .noClips)
  strategies settings.engine (Features.detect p) capabilities settings.format

def runChain (capabilities : Capabilities) (attempt : Strategy → Run Bytes) (p : Project Float)
    (settings : RenderSettings Float) : Run RenderOutput := do
  Run.report .preparing 0 "Validating project"
  Run.check
  let plan ← Run.ofResult (planRender capabilities p settings)
  Run.report .preparing 100 "Render planned"
  walk attempt (settings.engine != .automatic) settings.format.mime plan none

/-- Tells how a render ended; one that is cancelled or that overflows ends in silence. -/
def announce (result : Except RenderFault RenderOutput) (s : Session) : Session :=
  match result with
  | .ok output =>
    s.reported (s.progress.complete ("Rendered with " ++ output.strategy.name))
  | .error .cancelled | .error .overflow => s
  | .error e => s.reported (s.progress.fail e.message)

def renderWith (capabilities : Capabilities) (attempt : Strategy → Run Bytes) (p : Project Float)
    (settings : RenderSettings Float) : Run RenderOutput := fun session =>
  let (result, session) := runChain capabilities attempt p settings session
  (result, announce result session)

/-- The strategies of a host. -/
def Host.attempt (h : Host) (p : Project Float) (settings : RenderSettings Float) :
    Strategy → Run Bytes
  | .nativeService => renderByService h p settings
  | .streaming => renderByStreaming h p settings
  | .filterGraph => renderByTranscoder h p settings

def renderProject (h : Host) (p : Project Float) (settings : RenderSettings Float) :
    Run RenderOutput :=
  renderWith h.capabilities (h.attempt p settings) p settings

end Montage
