import Montage.Graph.Arguments
import Montage.Json.Value
import Montage.Text.Aligned
import Montage.Timeline.Validity

/- The work of a transcoder before it is done: inputs, segments, filter graph and command. -/
namespace Montage.Console
open Text

structure PlanReport where
  title : String
  graph : Graph.Compiled Float
  program : String
  arguments : List String

def segmentDocument (s : Graph.Segment Float) : Json.Value :=
  let (clip, input) := match s.source with
    | some (id, input) => (Json.Value.text id, Json.Value.integer input)
    | none => (.null, .null)
  .object [("start", .number s.start), ("duration", .number s.duration), ("clip", clip),
    ("input", input)]

def segmentLine (s : Graph.Segment Float) : String :=
  let source := match s.source with
    | some (id, input) => id ++ " (input " ++ toString input ++ ")"
    | none => "black"
  "  " ++ toRight 9 (fixedPlaces 3 s.start) ++ "s +" ++ toRight 8 (fixedPlaces 3 s.duration) ++
    "s  " ++ source

def inputLine (input : String × Nat) : String := "  [" ++ toString input.2 ++ "] " ++ input.1

def indented (line : String) : String := "  " ++ line

namespace PlanReport

def document (r : PlanReport) : Json.Value :=
  let g := r.graph
  .object [("duration", .number g.duration), ("inputs", .list (g.inputs.map .text)),
    ("video_segments", .list (g.videoSegments.map segmentDocument)),
    ("audio_tracks", .list (g.audioTracks.map fun t => .list (t.map segmentDocument))),
    ("filter", .text (Graph.text g.chains)), ("program", .text r.program),
    ("args", .list (r.arguments.map .text))]

/-- The text of the graph is cut at every semicolon, also at those inside names. -/
def lines (r : PlanReport) : List String :=
  let g := r.graph
  ["Project: " ++ r.title ++ " (" ++ seconds g.duration ++ ")", "", "Inputs:"] ++
  g.inputs.zipIdx.map inputLine ++ ["", "Video segments:"] ++
  g.videoSegments.map segmentLine ++
  ["Audio tracks: " ++ toString g.audioTracks.length, "", "Filter graph:"] ++
  ((Graph.text g.chains).splitOn ";").map indented ++ ["", "Command:"] ++
  [indented (" ".intercalate (r.program :: r.arguments))]

end PlanReport
end Montage.Console
