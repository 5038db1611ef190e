import Montage.Graph.Filter
import Montage.Timeline.Schedule
import Montage.Timeline.Settings
import Montage.Timeline.Span

/- A timeline compiled into one filter graph. Video spans are joined over black gaps and
   titled; the audio of each track is joined over silence and the tracks are summed. -/
namespace Montage.Graph
variable {K : Type} [Scalar K]

/-- What neither the project nor the settings say. -/
structure Options where
  scratchDir : String
  fontPath : Option String
  keyframeInterval : Nat
  audioSampleRate : Nat
  audioChannels : Nat
  audioBitrateKbps : Nat

/-- A piece of the output: a clip read from an input, or filler. -/
structure Segment (K : Type) where
  start : K
  duration : K
  source : Option (String × Nat)
  deriving Repr

structure Compiled (K : Type) where
  /-- Each source file once. -/
  inputs : List String
  chains : List (Chain K)
  videoSegments : List (Segment K)
  /-- Segments of each unmuted audio track that has clips. -/
  audioTracks : List (List (Segment K))
  textFiles : List (String × String)
  duration : K

def Compiled.hasAudio (c : Compiled K) : Bool := !c.audioTracks.isEmpty

/-- Grid of audio boundaries. -/
def audioStep : K := 0.001

/-- Stages between a half and two whose product is the speed. -/
def tempoStages (speed : K) : List K :=
  if Scalar.isFinite speed = true ∧ 0 < speed then
    let (fast, rest) := halve (Scalar.halvings speed) speed
    let (slow, rest) := double (Scalar.halvings (1 / rest)) rest
    fast ++ slow ++ (if closeness < Scalar.abs (rest - 1) then [rest] else [])
  else []
where
  halve : Nat → K → List K × K
    | 0, rest => ([], rest)
    | fuel + 1, rest =>
      if 2 < rest then
        let (stages, rest) := halve fuel (rest / 2)
        (2 :: stages, rest)
      else ([], rest)
  double : Nat → K → List K × K
    | 0, rest => ([], rest)
    | fuel + 1, rest =>
      if rest < 0.5 then
        let (stages, rest) := double fuel (rest / 0.5)
        (0.5 :: stages, rest)
      else ([], rest)

/-- First source second played between two times, and how many. -/
def sourceWindow (t : Timing K) (start stop : K) : K × K :=
  let a := t.sourceTime start
  let b := t.sourceTime stop
  (Scalar.min a b, Scalar.abs (a - b))

/-- Distances below this count as touching. -/
def touching : K := 1e-6

/-- The fades of one transition on the span that touches the clip's edges. -/
def fades (timing : Timing K) (span : Span K) (t : Transition K) : List (Filter K) :=
  let ramp := t.ramp timing.timelineDuration
  let length := Scalar.min ramp span.duration
  if ramp ≤ 0 then []
  else
    (if t.fadesIn && decide (Scalar.abs (span.start - timing.start) < touching) then
      [.fadeIn length] else []) ++
    (if t.fadesOut && decide (Scalar.abs (span.stop - timing.stop) < touching) then
      [.fadeOut (span.duration - length) length] else [])

def effectFilter : Effect K → Filter K
  | .brightness v => .brightness v
  | .contrast v => .contrast v
  | .saturation v => .saturation v
  | .grayscale => .grayscale

/-- Source material of a span at its speed and frame rate, with effects and fades. -/
def material (s : Scheduled K) (span : Span K) (fps : K) : List (Filter K) :=
  let t := s.timing
  let (start, length) := sourceWindow t span.start span.stop
  [.trim start length, .restartTime] ++
  (if t.reverse then [.reverse] else []) ++
  (if closeness < Scalar.abs (t.speed - 1) then [.changeSpeed t.speed] else []) ++
  [.frameRate fps] ++
  s.clip.effects.map effectFilter ++
  s.transitions.flatMap (fades t span)

/-- Holds the last frame until the span is over. -/
def heldFor (d : K) : List (Filter K) := [.holdLast d, .trimTo d, .restartTime]

/-- Crop, fit, stretch, flips, opacity and rotation of a framed clip. -/
def framing (crop : Crop K) (t : Transform K) (opacity : K) (width height : Nat) : List (Filter K) :=
  (if crop.isIdentity then []
    else [.crop (1 - crop.left - crop.right) (1 - crop.top - crop.bottom) crop.left crop.top]) ++
  [.fitInside width height] ++
  (if closeness < Scalar.abs (t.scaleX - 1) ∨ closeness < Scalar.abs (t.scaleY - 1) then
    [.stretch (Scalar.abs t.scaleX) (Scalar.abs t.scaleY)] else []) ++
  (if t.scaleX < 0 then [.flipHorizontal] else []) ++
  (if t.scaleY < 0 then [.flipVertical] else []) ++
  [.withAlpha] ++
  (if opacity < 1 then [.fadeAlpha opacity] else []) ++
  (if closeness < Scalar.abs t.rotation then [.rotate t.rotation] else [])

/-- The chains of a video span that shows a clip. -/
def videoClipChains (s : Scheduled K) (span : Span K) (input : Nat) (settings : RenderSettings K)
    (backdrop : Nat) (out : Label) : List (Chain K) :=
  let (w, h) := (settings.width, settings.height)
  let opacity := s.clip.effectiveOpacity
  let source := Label.source input .video
  let start := material s span settings.framerate
  let finish := [Filter.encodable, .squarePixels] ++ heldFor span.duration
  if s.clip.hasFraming then
    let crop := (s.clip.crop.getD Crop.none).clamped
    let t := s.clip.transform.getD Transform.identity
    [⟨[source], start ++ framing crop t opacity w h, .foreground backdrop⟩,
      ⟨[], [.black w h settings.framerate span.duration], .backdrop backdrop⟩,
      ⟨[.backdrop backdrop, .foreground backdrop],
        .overlay (t.x * Scalar.ofNat w) (t.y * Scalar.ofNat h) :: finish, out⟩]
  else
    [⟨[source], start ++ (if opacity < 1 then [.planarColor, .dim opacity] else []) ++
      [.fitInside w h, .padTo w h] ++ finish, out⟩]

def audioClipChain (s : Scheduled K) (span : Span K) (input : Nat) (shape : AudioShape)
    (out : Label) : Chain K :=
  let t := s.timing
  let (start, length) := sourceWindow t span.start span.stop
  let gain := Gain.ofTransitions t.timelineDuration (span.start - t.start) s.transitions
  { consumes := [.source input .audio]
    filters :=
      [.audioTrim start length, .audioRestartTime] ++
      (if t.reverse then [.audioReverse] else []) ++
      (tempoStages t.speed).map .tempo ++
      [.audioFormat shape] ++
      (gain.map Filter.volume).toList ++
      [.padSilence span.duration, .audioTrimTo span.duration, .audioRestartTime]
    produces := out }

structure Draft (K : Type) where
  /-- The next number for a label. -/
  next : Nat
  inputs : List String
  chains : List (Chain K)

namespace Draft

def empty : Draft K := ⟨0, [], []⟩

/-- The place of a file among the inputs, added when it is new. The list is its own table of places:
no path stands in it twice. -/
def inputFor (d : Draft K) (path : String) : Nat × Draft K :=
  match d.inputs.findIdx? fun p => Path.same p path with
  | some i => (i, d)
  | none => (d.inputs.length, { d with inputs := d.inputs ++ [path] })

def fresh (d : Draft K) : Nat × Draft K := (d.next, { d with next := d.next + 1 })

def add (d : Draft K) (chains : List (Chain K)) : Draft K := { d with chains := d.chains ++ chains }

end Draft

def filler (span : Span K) : Segment K := ⟨span.start, span.duration, none⟩

def shown (span : Span K) (s : Scheduled K) (input : Nat) : Segment K :=
  ⟨span.start, span.duration, some (s.clip.id, input)⟩

def addVideoSpan (clips : List (Scheduled K)) (settings : RenderSettings K)
    (d : Draft K) (span : Span K) : Draft K × Label × Segment K :=
  let (n, d) := d.fresh
  let out := Label.videoSpan n
  match span.winner.bind fun i => clips[i]? with
  | none =>
    (d.add [⟨[], [.black settings.width settings.height settings.framerate span.duration, .encodable,
      .squarePixels], out⟩], out, filler span)
  | some s =>
    let (input, d) := d.inputFor s.media.path
    let (base, d) := d.fresh
    (d.add (videoClipChains s span input settings base out), out, shown span s input)

def addAudioSpan (clips : List (Scheduled K)) (shape : AudioShape)
    (d : Draft K) (span : Span K) : Draft K × Label × Segment K :=
  let (n, d) := d.fresh
  let out := Label.audioSpan n
  match span.winner.bind fun i => clips[i]? with
  | none =>
    (d.add [⟨[], [.silence shape span.duration, .audioFormat shape], out⟩], out, filler span)
  | some s =>
    let (input, d) := d.inputFor s.media.path
    (d.add [audioClipChain s span input shape out], out, shown span s input)

/-- Runs a step over all spans and keeps the labels and segments in order. -/
def addSpans (step : Draft K → Span K → Draft K × Label × Segment K) :
    Draft K → List (Span K) → Draft K × List Label × List (Segment K)
  | d, [] => (d, [], [])
  | d, span :: spans =>
    let (d, label, segment) := step d span
    let (d, labels, segments) := addSpans step d spans
    (d, label :: labels, segment :: segments)

/-- The seconds between which a clip's text is shown. -/
def textWindow (s : Scheduled K) (o : TextOverlay K) : K × K :=
  let start := s.timing.start + Scalar.max o.start 0
  let stop := match o.duration with
    | some d => Scalar.min (start + Scalar.max d 0) s.timing.stop
    | none => s.timing.stop
  (start, stop)

/-- Overlays with text and time to show it, with their windows. -/
def shownTexts (clips : List (Scheduled K)) : List (TextOverlay K × K × K) :=
  clips.filterMap fun s => s.clip.textOverlay.bind fun o =>
    let (start, stop) := textWindow s o
    if o.text = "" ∨ stop ≤ start then none else some (o, start, stop)

def textPath (options : Options) (n : Nat) : String :=
  Path.join options.scratchDir ("text_" ++ toString n ++ ".txt")

def titlings (options : Options) (clips : List (Scheduled K)) : List (Titling K × String) :=
  (shownTexts clips).zipIdx.map fun ((o, start, stop), n) =>
    ({ fontPath := options.fontPath
       textPath := textPath options n
       color := o.rgba
       size := Scalar.max (Scalar.round o.fontSize) 1
       x := o.x
       y := o.y
       start, stop }, o.text)

def addAudioTrack (shape : AudioShape) (duration : K) (d : Draft K) (clips : List (Scheduled K)) :
    Draft K × Label × List (Segment K) :=
  let candidates := clips.map fun s => (⟨0, s.timing.start, s.timing.stop⟩ : Candidate K)
  let spans := flatten candidates duration audioStep
  let (d, labels, segments) := addSpans (addAudioSpan clips shape) d spans
  let (n, d) := d.fresh
  let out := Label.audioTrack n
  (d.add [⟨labels, [.joinAudio labels.length], out⟩], out, segments)

def addAudioTracks (shape : AudioShape) (duration : K) :
    Draft K → List (List (Scheduled K)) → Draft K × List Label × List (List (Segment K))
  | d, [] => (d, [], [])
  | d, clips :: rest =>
    let (d, label, segments) := addAudioTrack shape duration d clips
    let (d, labels, tracks) := addAudioTracks shape duration d rest
    (d, label :: labels, segments :: tracks)

def mixdown : List Label → List (Chain K)
  | [] => []
  | [l] => [⟨[l], [.passAudio], .audioOut⟩]
  | ls => [⟨ls, [.mix ls.length], .audioOut⟩]

/-- Video clips by start, then by track. -/
def byStart (clips : List (Scheduled K)) : List (Scheduled K) :=
  clips.mergeSort fun a b =>
    match Scalar.totalCompare a.timing.start b.timing.start with
    | .lt => true
    | .gt => false
    | .eq => decide (a.trackIndex ≤ b.trackIndex)

def videoCandidates (clips : List (Scheduled K)) : List (Candidate K) :=
  clips.map fun s => ⟨s.trackIndex, s.timing.start, s.timing.stop⟩

/-- None when the project lasts no time. -/
def compile (p : Project K) (settings : RenderSettings K) (options : Options) : Option (Compiled K) :=
  let duration := p.duration
  if duration ≤ 0 then none
  else
    let clips := byStart p.playedVideo
    let spans := flatten (videoCandidates clips) duration (1 / settings.framerate)
    let (d, labels, videoSegments) := addSpans (addVideoSpan clips settings) Draft.empty spans
    let titles := titlings options clips
    let join (out : Label) : Chain K := ⟨labels, [.joinVideo labels.length], out⟩
    let d := d.add <|
      if titles.isEmpty then [join .videoOut]
      else [join .untitled, ⟨[.untitled], titles.map fun t => .titling t.1, .videoOut⟩]
    let shape : AudioShape := ⟨options.audioSampleRate, options.audioChannels == 1⟩
    let (d, tracks, audioTracks) := addAudioTracks shape duration d p.playedAudioTracks
    let d := d.add (mixdown tracks)
    some
      { inputs := d.inputs
        chains := d.chains
        videoSegments, audioTracks, duration
        textFiles := titles.map fun t => (t.1.textPath, t.2) }

end Montage.Graph
