import Montage.Json.Value
import Montage.Text.Aligned
import Montage.Timeline.Store

/- What is in a project, as a table for people and as a document. -/
namespace Montage.Console
open Text

/-- What sets a clip apart from a plain one. -/
inductive Mark where
  | reverse
  | framing
  | text
  | transition
  deriving DecidableEq, Repr

def Mark.name : Mark → String
  | .reverse => "reverse"
  | .framing => "framing"
  | .text => "text"
  | .transition => "transition"

structure ClipRow where
  id : String
  track : Nat
  timing : Timing Float
  marks : List Mark

namespace ClipRow

def marksOf (p : Project Float) (c : Clip Float) : List Mark :=
  (if c.reverse then [Mark.reverse] else []) ++
  (if c.hasFraming then [Mark.framing] else []) ++
  (if c.textOverlay.isSome then [Mark.text] else []) ++
  (if (p.transitionsFor c.id).isEmpty then [] else [Mark.transition])

def ofPlaced (p : Project Float) (c : Placed Float) : ClipRow :=
  ⟨c.clip.id, c.trackIndex, c.clip.timing c.media, marksOf p c.clip⟩

end ClipRow

structure ProjectReport where
  project : Project Float
  clips : List ClipRow
  features : Features
  issues : List String

def missingText (path : String) : String := "Source not found: " ++ path

def ProjectReport.of (p : Project Float) (files : FileTree) : ProjectReport :=
  { project := p
    clips := p.placedClips.map (ClipRow.ofPlaced p)
    features := Features.detect p
    issues := p.issueTexts ++ (p.missingSources files).map missingText }

namespace ClipRow

def document (r : ClipRow) : Json.Value :=
  .object [("id", .text r.id), ("track", .integer r.track), ("start", .number r.timing.start),
    ("end", .number r.timing.stop), ("source_in", .number r.timing.sourceStart),
    ("source_out", .number r.timing.sourceEnd), ("speed", .number r.timing.speed),
    ("flags", .list (r.marks.map fun m => .text m.name))]

/-- Seven columns and the marks. -/
def columns (id track start stop sourceIn sourceOut speed marks : String) : String :=
  "  " ++ " ".intercalate
    [toLeft 12 id, toRight 5 track, toRight 9 start, toRight 9 stop, toRight 9 sourceIn,
      toRight 9 sourceOut, toRight 6 speed] ++ "  " ++ marks

def heading : String := columns "id" "track" "start" "end" "src-in" "src-out" "speed" "flags"

def line (r : ClipRow) : String :=
  let places := fixedPlaces 3
  columns r.id (toString r.track) (places r.timing.start) (places r.timing.stop)
    (places r.timing.sourceStart) (places r.timing.sourceEnd) (fixedPlaces 2 r.timing.speed)
    (",".intercalate (r.marks.map Mark.name))

end ClipRow

def kindText : MediaKind → String
  | .video => "Video"
  | .audio => "Audio"

def mediaLine (m : MediaFile Float) : String :=
  let size := match m.width, m.height with
    | some w, some h => " " ++ sizeText w h
    | _, _ => ""
  "  " ++ m.id ++ " " ++ kindText m.kind ++ " " ++ seconds m.duration ++ size ++ " (" ++ m.path ++ ")"

def trackLine (t : Track Float) : String :=
  "  " ++ t.id ++ " " ++ kindText t.kind ++ ": " ++ toString t.clips.length ++ " clip(s)" ++
    (if t.muted then " (muted)" else "")

def truthText (b : Bool) : String := if b then "true" else "false"

namespace ProjectReport

def document (r : ProjectReport) : Json.Value :=
  .object [("id", .text r.project.id), ("name", .text r.project.name),
    ("framerate", .number r.project.framerate), ("duration", .number r.project.duration),
    ("clips", .list (r.clips.map ClipRow.document)),
    ("features", .object [("audio", .boolean r.features.hasAudio),
      ("text_overlays", .boolean r.features.hasText),
      ("transform_or_crop", .boolean r.features.hasFraming)]),
    ("issues", .list (r.issues.map .text))]

def verdict (issues : List String) : List String :=
  if issues.isEmpty then ["Project is valid."]
  else
    "Validation issues:" :: issues.map ("  - " ++ ·) ++
      ["", toString issues.length ++ " issue(s) found."]

def lines (r : ProjectReport) : List String :=
  ["Project: " ++ r.project.name, "  ID: " ++ r.project.id,
    "  Framerate: " ++ NumberStyle.plain.double r.project.framerate ++ "fps",
    "  Duration: " ++ seconds r.project.duration, "", "Media:"] ++
  r.project.mediaFiles.map mediaLine ++ ["", "Tracks:"] ++
  r.project.tracks.map trackLine ++ ["", "Clips:", ClipRow.heading] ++
  r.clips.map ClipRow.line ++
  ["", "Features:", "  Audio: " ++ truthText r.features.hasAudio,
    "  Text overlays: " ++ truthText r.features.hasText,
    "  Transform/crop: " ++ truthText r.features.hasFraming, ""] ++
  verdict r.issues

end ProjectReport
end Montage.Console
