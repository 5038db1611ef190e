import Montage.Graph.Gain
import Montage.Picture.Color
import Montage.Text.Path

/- Filter graphs as data: labelled streams, filters, and chains that join them. -/
namespace Montage.Graph
variable {K : Type}

inductive Medium where
  | video
  | audio
  deriving DecidableEq, Repr

inductive Label where
  | source (input : Nat) (medium : Medium)
  | videoSpan (n : Nat)
  | backdrop (n : Nat)
  | foreground (n : Nat)
  | audioSpan (n : Nat)
  | audioTrack (n : Nat)
  /-- The joined video that text is drawn on. -/
  | untitled
  | videoOut
  | audioOut
  deriving DecidableEq, Repr

def Label.isSource : Label → Bool
  | .source .. => true
  | _ => false

structure Titling (K : Type) where
  fontPath : Option String
  textPath : String
  color : Color
  size : K
  x : K
  y : K
  /-- Seconds between which the text is shown. -/
  start : K
  stop : K
  deriving Repr

structure AudioShape where
  sampleRate : Nat
  mono : Bool
  deriving DecidableEq, Repr

inductive Filter (K : Type) where
  | trim (start duration : K)
  | trimTo (duration : K)
  | restartTime
  | reverse
  | changeSpeed (speed : K)
  | frameRate (fps : K)
  | brightness (value : K)
  | contrast (value : K)
  | saturation (value : K)
  | grayscale
  | fadeIn (duration : K)
  | fadeOut (start duration : K)
  | planarColor
  | dim (opacity : K)
  | fitInside (width height : Nat)
  | padTo (width height : Nat)
  | encodable
  | squarePixels
  | holdLast (duration : K)
  | crop (width height x y : K)
  | stretch (x y : K)
  | flipHorizontal
  | flipVertical
  | withAlpha
  | fadeAlpha (opacity : K)
  | rotate (degrees : K)
  | black (width height : Nat) (fps duration : K)
  | overlay (x y : K)
  | titling (t : Titling K)
  | joinVideo (count : Nat)
  | audioTrim (start duration : K)
  | audioTrimTo (duration : K)
  | audioRestartTime
  | audioReverse
  | tempo (factor : K)
  | audioFormat (shape : AudioShape)
  | volume (gain : Gain K)
  | padSilence (duration : K)
  | silence (shape : AudioShape) (duration : K)
  | joinAudio (count : Nat)
  | mix (count : Nat)
  | passAudio
  deriving Repr

/-- Filters applied one after the other between labelled ends. -/
structure Chain (K : Type) where
  consumes : List Label
  filters : List (Filter K)
  produces : Label
  deriving Repr

end Montage.Graph
