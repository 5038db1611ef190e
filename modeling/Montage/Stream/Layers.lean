import Montage.Picture.Font
import Montage.Timeline.Schedule

/- The clips that are composited, from the bottom to the top, and what each shows at a
   time. -/
namespace Montage
variable {K : Type} [Scalar K]

/-- Video clips in the order in which they are drawn: the highest track first, so that the lowest
ends up on top. -/
def Project.layers (p : Project K) : List (Scheduled K) :=
  (List.range p.tracks.length).reverse.flatMap fun i =>
    p.playedVideo.filter fun s => s.trackIndex == i && decide (0 < s.timing.timelineDuration)

namespace Scheduled

/-- How strongly a clip shows at a time: its opacity, weakened by its transitions. -/
def opacityAt (s : Scheduled K) (t : K) : K :=
  let envelope := if s.transitions.isEmpty then 1
    else clipEnvelope s.transitions (t - s.timing.start) s.timing.timelineDuration
  s.clip.effectiveOpacity * envelope

def layerAt (s : Scheduled K) (t : K) : Layer K :=
  { crop := s.clip.crop.getD Crop.none
    transform := s.clip.transform.getD Transform.identity
    opacity := s.opacityAt t
    effects := s.clip.effects }

/-- When a clip's text shows; the end is not part of it. -/
def textSpan (s : Scheduled K) (o : TextOverlay K) : K × K :=
  let start := s.timing.start + Scalar.max o.start 0
  let stop := match o.duration with
    | some d => Scalar.min (start + Scalar.max d 0) s.timing.stop
    | none => s.timing.stop
  (start, stop)

def textAt? (s : Scheduled K) (t : K) : Option (TextOverlay K) := do
  let o ← s.clip.textOverlay
  let (start, stop) := s.textSpan o
  if start ≤ t ∧ t < stop then some o else none

end Scheduled

def Project.layersAt (p : Project K) (t : K) : List (Scheduled K) :=
  p.layers.filter fun s => s.timing.contains t

/-- The texts that show at a time, from the bottom to the top. -/
def textsAt (layers : List (Scheduled K)) (t : K) : List (TextOverlay K) :=
  layers.filterMap fun s => s.textAt? t

/-- Draws every text that shows at a time over the layers. -/
def Image.drawTexts (S : Type) [Scalar S] [Narrowing K S] (canvas : Image)
    (face : Option (Typeface S)) (texts : List (TextOverlay K)) : Image :=
  match face with
  | none => canvas
  | some f => texts.foldl (fun canvas o => canvas.drawText S f o) canvas

end Montage
