import Montage.Graph.Arguments
import Montage.Render.Session
import Montage.Timeline.Timing

/- The strategy of a separate transcoder: it gets one filter graph and writes one file. -/
namespace Montage

/-- What an entry of progress output makes known. -/
def reportEntry (total : Nat) (state : TranscoderState) (key : String) : Run Unit :=
  if key = "progress" then
    if state.ended then Run.report .rendering 100 "Transcoder finished"
    else Run.fraction .rendering state.outTime total "Transcoding"
  else return

/-- Follows the output line by line. -/
def followOutput (total : Nat) : List Bytes → TranscoderState → Run Unit
  | [], _ => return
  | line :: rest, state => do
    match Utf8.decode line with
    | .error e => throw (.backend (.transcoderProgress e.message))
    | .ok s =>
      match progressEntry? s with
      | none => followOutput total rest state
      | some (key, value) =>
        let state := state.update key value
        reportEntry total state key
        followOutput total rest state

/-- Runs a transcoder to its end. One that does not end is waited for until somebody trips the flag.
The flag is not looked at between two lines: a transcoder that it stops there is one that prints no
more lines and does not end. -/
def runTranscoder (programs : Programs) (name : String) (arguments : List String)
    (duration : Float) : Run Unit := do
  Run.check
  let program ← Run.ofResult (programs.start (← get).files name)
  modify fun s => { s with invocations := s.invocations ++ [⟨arguments, s.files⟩] }
  match program.output, arguments.getLast? with
  | some bytes, some place =>
    modify fun s => { s with files := (s.files.write place bytes).toOption.getD s.files }
  | _, _ => pure ()
  followOutput (toMicros duration).toNat (outputLines program.stdout) TranscoderState.start
  if program.hangs then
    modify fun s => { s with cancel := s.cancel.trip }
    throw .cancelled
  if program.exit ≠ 0 then
    throw (.backend (.transcoderFailed ("exit status: " ++ toString program.exit)
      (complaint program.stderr)))

/-- Options of the graph, as the host has them. -/
def graphOptions (h : Host) (settings : RenderSettings Float) : Graph.Options :=
  let engine := h.config.render
  { scratchDir := h.scratch
    fontPath := (h.font.map (·.path)) <|> engine.fontPath
    keyframeInterval := engine.keyframeInterval settings.framerate
    audioSampleRate := engine.audioSampleRate
    audioChannels := engine.audioChannels
    audioBitrateKbps := engine.audioBitrateKbps }

def renderByTranscoder (h : Host) (p : Project Float) (settings : RenderSettings Float) :
    Run Bytes := do
  let name := h.config.render.transcoderPath
  if !h.programs.isAvailable (← get).files name then
    throw (.unavailable (.transcoderMissing name))
  let options := graphOptions h settings
  match Graph.compile p settings options with
  | none => throw (.project .noClips)
  | some graph =>
    for (path, content) in graph.textFiles do
      modify fun s => { s with files := s.files.add path (Utf8.encode content) }
    let files := (← get).files
    match graph.inputs.find? fun path => !files.exists? path with
    | some path => throw (.fileNotFound path)
    | none => pure ()
    let output := Path.join h.scratch ("output." ++ settings.format.fileExtension)
    runTranscoder h.programs name (Graph.arguments graph settings options output) graph.duration
    Run.report .finalizing 0 "Reading rendered output"
    match (← get).files.read output with
    | .error e => throw (.backend (.outputUnread output e.message))
    | .ok bytes =>
      Run.report .finalizing 100 "Output ready"
      return bytes

end Montage
