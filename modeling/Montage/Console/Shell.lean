import Montage.Console.Command
import Montage.Console.HostReport
import Montage.Console.PlanReport
import Montage.Console.ProgressLine
import Montage.Console.ProjectReport
import Montage.Render.Chain
import Montage.Sound.SoundFile

/- Commands carried out: what they print, how they fail and which files they leave. -/
namespace Montage.Console
open Text

/-- What a command finds around it, apart from files. -/
structure Surroundings where
  configPath : String
  service : Service
  programs : Programs
  fonts : FontReader
  sounds : SoundReader
  /-- A directory for files of no consequence. -/
  temporary : String
  /-- A directory for the files of one render. -/
  scratch : String
  /-- Makes the name of an output unlike others. -/
  stamp : String

inductive CommandFault where
  | unloaded (fault : ProjectFault)
  | settings (fault : SettingsFault Float)
  | uncompiled (fault : RenderFault)
  | unrendered (fault : RenderFault)
  | unwritten (fault : FileFault)

def CommandFault.message : CommandFault → String
  | .unloaded f => "Failed to load project: " ++ f.message
  | .settings f => f.message
  | .uncompiled f => f.message
  | .unrendered f => "Render failed: " ++ f.message
  | .unwritten f => f.message

structure Terminal where
  output : String
  session : Session
  /-- Files that the command leaves behind. -/
  written : List (String × Bytes)

/-- Steps of a command. What it printed stays printed when it fails. -/
abbrev Shell := ExceptT CommandFault (StateM Terminal)

namespace Shell

def print (s : String) : Shell Unit := modify fun t => { t with output := t.output ++ s }
def printLines (lines : List String) : Shell Unit := print (ofLines lines)

def files : Shell FileTree := return (← get).session.files

def attempt {α : Type} (run : Run α) : Shell (Except RenderFault α) := fun t =>
  let (result, session) := run t.session
  (.ok result, { t with session })

def load (path : String) : Shell (Project Float) := do
  match Project.load (← files) path with
  | .ok p => return p
  | .error f => throw (.unloaded f)

end Shell

namespace Surroundings

def config (w : Surroundings) (files : FileTree) : Config := Config.load files w.configPath

def host (w : Surroundings) (files : FileTree) : Host :=
  let config := w.config files
  { config
    backend := Backend.standard
    sounds := fun m => decodeSound w.sounds files m.path
    font := LoadedFont.find w.fonts files config.render.fontPath
    service := w.service
    programs := w.programs
    scratch := w.scratch }

end Surroundings

/-- One document, or lines for people. -/
def report (asDocument : Bool) (document : Json.Value) (lines : List String) : Shell Unit :=
  Shell.printLines (if asDocument then [document.indented] else lines)

def runInfo (project : String) (asDocument : Bool) : Shell Unit := do
  let r := ProjectReport.of (← Shell.load project) (← Shell.files)
  report asDocument r.document r.lines

def planSettings (o : PlanOrder) (p : Project Float) : RenderSettings Float :=
  { (RenderSettings.standard : RenderSettings Float) with
    width := o.width
    height := o.height
    framerate := p.framerate
    format := o.format
    engine := .compatibility }

def runPlan (w : Surroundings) (o : PlanOrder) : Shell Unit := do
  let p ← Shell.load o.project
  let settings := planSettings o p
  match settings.fault? with
  | some f => throw (.settings f)
  | none => pure ()
  let h := w.host (← Shell.files)
  let options : Graph.Options :=
    { graphOptions h settings with
      scratchDir := Path.join w.temporary "cutroom-plan"
      fontPath := h.font.map (·.path) }
  match Graph.compile p settings options with
  | none => throw (.uncompiled (.project .noClips))
  | some graph =>
    let arguments := Graph.arguments graph settings options ("output." ++ settings.format.fileExtension)
    let r : PlanReport := ⟨p.name, graph, h.config.render.transcoderPath, arguments⟩
    report o.asDocument r.document r.lines

def runCheck (w : Surroundings) : Shell Unit := do
  let files ← Shell.files
  let h := w.host files
  let transcoder := h.config.render.transcoderPath
  let r : HostReport :=
    { configPath := w.configPath
      serviceRoot := h.config.service.root
      service := ← Shell.attempt (ensureCompatible h.config.service h.service)
      backend := h.backend
      fontPath := h.font.map (·.path)
      transcoder
      hasTranscoder := h.programs.isAvailable files transcoder }
  Shell.printLines r.lines

/-- Letters and digits, and the two marks that are safe in every file name. -/
def safeCharacter (c : Char) : Char := if c.isAlphanum || c == '-' || c == '_' then c else '_'

def defaultOutput (title stamp : String) (format : Container) : String :=
  let stem := if title = "" then "render" else String.ofList (title.toList.map safeCharacter)
  stem ++ "-" ++ stamp ++ "." ++ format.fileExtension

def renderSettings (o : RenderOrder) (p : Project Float) : RenderSettings Float :=
  { width := o.width
    height := o.height
    bitrate := o.bitrate
    framerate := o.framerate.getD p.framerate
    format := o.format
    engine := o.engine }

def orderLines (title output : String) (s : RenderSettings Float) : List String :=
  ["Rendering project: " ++ title, "  Output: " ++ output,
    "  Settings: " ++ sizeText s.width s.height ++ " @ " ++ NumberStyle.plain.double s.framerate ++
      "fps, " ++ toString s.bitrate ++ " kbps, " ++ s.format.fileExtension,
    "  Engine: " ++ s.engine.name]

def completionText (path : String) (output : RenderOutput) : String :=
  "\nRender complete: " ++ path ++ " (" ++ toString output.bytes.length ++ " bytes, " ++ output.mime ++
    ", via " ++ output.strategy.name ++ ")\n"

def runRender (w : Surroundings) (o : RenderOrder) : Shell Unit := do
  let p ← Shell.load o.project
  let settings := renderSettings o p
  let path := o.output.getD (defaultOutput p.name w.stamp settings.format)
  Shell.printLines (orderLines p.name path settings)
  let result ← Shell.attempt (renderProject (w.host (← Shell.files)) p settings)
  Shell.print (progressText none (← get).session.progress.delivered.toList)
  match result with
  | .error .cancelled => Shell.print "\nRender cancelled.\n"
  | .error e => throw (.unrendered e)
  | .ok output =>
    match (← Shell.files).create path output.bytes with
    | .error f => throw (.unwritten f)
    | .ok files =>
      modify fun t =>
        { t with
          session := { t.session with files }
          written := t.written ++ [(path, output.bytes)] }
      Shell.print (completionText path output)

def runCommand (w : Surroundings) : Command → Shell Unit
  | .render o => runRender w o
  | .plan o => runPlan w o
  | .info project asDocument => runInfo project asDocument
  | .check => runCheck w

structure Ending where
  code : Nat
  output : String
  /-- Told apart from the output. -/
  complaint : Option String
  session : Session
  written : List (String × Bytes)

def Ending.untouched (code : Nat) (output : String) (session : Session) : Ending :=
  ⟨code, output, none, session, []⟩

/-- The program with its arguments. A line that makes no sense leaves everything as it is, and an
overflow ends it with a code of its own. -/
def runProgram (w : Surroundings) (arguments : List String) (session : Session) : Ending :=
  match Directive.ofArguments arguments with
  | none => .untouched 2 "" session
  | some .help => .untouched 0 usage session
  | some .version => .untouched 0 (ofLines [programName ++ " " ++ programVersion]) session
  | some (.run command) =>
    match runCommand w command ⟨"", session, []⟩ with
    | (.ok (), t) => ⟨0, t.output, none, t.session, t.written⟩
    | (.error (.unrendered .overflow), t) => ⟨101, t.output, none, t.session, t.written⟩
    | (.error f, t) => ⟨1, t.output, some ("Error: " ++ f.message), t.session, t.written⟩

def Command.project? : Command → Option String
  | .render o => some o.project
  | .plan o => some o.project
  | .info project _ => some project
  | .check => none

/-- Files whose content decides how the program runs, before any project is known. -/
def Surroundings.openedFirst (w : Surroundings) (arguments : List String) : List String :=
  match Directive.ofArguments arguments with
  | some (.run command) => w.configPath :: command.project?.toList
  | _ => []

/-- Fonts that may be drawn with. -/
def Surroundings.fontPaths (w : Surroundings) (files : FileTree) : List String :=
  (w.config files).render.fontPath.toList ++ LoadedFont.common

/-- Paths that only have to be there: media, the transcoder, the directory of the output. -/
def Surroundings.lookedFor (w : Surroundings) (files : FileTree) (arguments : List String) :
    List String :=
  let ofCommand := match Directive.ofArguments arguments with
    | some (.run command) =>
      let media := command.project?.bind fun path => (Project.load files path).toOption
      let output := match command with
        | .render o => o.output
        | _ => none
      (media.map fun p => p.mediaFiles.map (·.path)).getD [] ++
        (output.bind Project.parentOf).toList ++ output.toList
    | _ => []
  (w.config files).render.transcoderPath :: ofCommand

end Montage.Console
