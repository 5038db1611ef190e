import Montage.Geometry.Affine
import Montage.Picture.Color

/- Clips and what can be attached to them: text, effects, framing. -/
namespace Montage
variable {K : Type} [Scalar K]

/-- Snaps to the nearest frame boundary; without a usable frame rate nothing moves. -/
def quantizeToFrame (value framerate : K) : K :=
  if Scalar.isFinite framerate = true ∧ 0 < framerate then
    Scalar.round (value * framerate) / framerate
  else value

structure TextOverlay (K : Type) where
  text : String
  /-- Anchor, as shares of the canvas. -/
  x : K
  y : K
  fontSize : K
  color : String
  /-- Seconds after the clip's start. -/
  start : K
  /-- The rest of the clip when absent. -/
  duration : Option K
  deriving Repr

/-- White when the colour has no meaning. -/
def TextOverlay.rgba (o : TextOverlay K) : Color := (Color.parse? o.color).getD Color.white

inductive Effect (K : Type) where
  | brightness (value : K)
  | contrast (value : K)
  | saturation (value : K)
  | grayscale
  deriving Repr

structure Clip (K : Type) where
  id : String
  mediaId : String
  startTime : K
  trimStart : K
  trimEnd : K
  speed : K
  reverse : Bool
  opacity : K
  transform : Option (Transform K)
  crop : Option (Crop K)
  textOverlay : Option (TextOverlay K)
  effects : List (Effect K)
  linkedClipId : Option String
  deriving Repr

namespace Clip

def new (id mediaId : String) (startTime : K) : Clip K :=
  { id, mediaId, startTime
    trimStart := 0
    trimEnd := 0
    speed := 1
    reverse := false
    opacity := 1
    transform := none
    crop := none
    textOverlay := none
    effects := []
    linkedClipId := none }

def snapped (value framerate : K) : K := quantizeToFrame (Scalar.max value 0) framerate

def withStartTime (c : Clip K) (value framerate : K) : Clip K :=
  { c with startTime := snapped value framerate }
def withTrimStart (c : Clip K) (value framerate : K) : Clip K :=
  { c with trimStart := snapped value framerate }
def withTrimEnd (c : Clip K) (value framerate : K) : Clip K :=
  { c with trimEnd := snapped value framerate }

/-- Whether a backend has to crop or transform. -/
def hasFraming (c : Clip K) : Bool :=
  c.transform.any (fun t => !t.isIdentity) || c.crop.any (fun r => !r.isIdentity)

def effectiveOpacity (c : Clip K) : K :=
  if Scalar.isFinite c.opacity then Scalar.clamp 0 1 c.opacity else 1

end Clip
end Montage
