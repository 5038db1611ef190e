import Montage.Timeline.Timing

/- What is wrong with a project's structure. -/
namespace Montage

inductive Issue (K : Type) where
  | missingMedia (clip track media : String)
  | overTrimmed (clip : String) (trimStart trimEnd duration : K)
  | cropOutside (clip : String) (edges : List K)
  | danglingTransition (transition clip : String)
  deriving Repr

namespace Project
variable {K : Type} [Scalar K]

def clipIssues (p : Project K) (track : Track K) (c : Clip K) : List (Issue K) :=
  match p.media? c.mediaId with
  | none => [.missingMedia c.id track.id c.mediaId]
  | some m =>
    (if m.duration - c.trimStart - c.trimEnd < 0 then
      [Issue.overTrimmed c.id c.trimStart c.trimEnd m.duration] else []) ++
    (match c.crop with
      | some r => if r.isValid then [] else [.cropOutside c.id r.edges]
      | none => [])

def hasClip (p : Project K) (id : String) : Bool :=
  p.tracks.any fun t => t.clips.any fun c => c.id == id

/-- Empty exactly when the project is valid. -/
def issues (p : Project K) : List (Issue K) :=
  (p.tracks.flatMap fun t => t.clips.flatMap (p.clipIssues t)) ++
  p.transitions.filterMap fun t =>
    if p.hasClip t.clipId then none else some (.danglingTransition t.id t.clipId)

end Project

def diagnosticList (xs : List Float) : String :=
  "[" ++ ", ".intercalate (xs.map NumberStyle.diagnostic.double) ++ "]"

def seconds (x : Float) : String := fixedPlaces 3 x ++ "s"

def Issue.message : Issue Float → String
  | .missingMedia c t m => "Clip " ++ c ++ " on track " ++ t ++ " references missing media " ++ m
  | .overTrimmed c a b d =>
    "Clip " ++ c ++ " trims " ++ seconds a ++ " + " ++ seconds b ++ " from " ++ seconds d ++ " of media"
  | .cropOutside c es =>
    "Clip " ++ c ++ " crop " ++ diagnosticList es ++ " outside [0, " ++
      NumberStyle.plain.double Crop.limit ++ "]"
  | .danglingTransition t c => "Transition " ++ t ++ " references missing clip " ++ c

end Montage
