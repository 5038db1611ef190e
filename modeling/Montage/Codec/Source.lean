import Montage.Clock
import Montage.Codec.Sample
import Montage.Picture.Image

/- Sources made in memory: every frame has one colour, which tells its index. -/
namespace Montage

structure Frame where
  image : Image
  timestamp : Int

structure Source (K : Type) where
  width : Nat
  height : Nat
  fps : K
  duration : K
  /-- Frames from one keyframe to the next. -/
  keyframeSpacing : Nat
  /-- Frames held back until later input arrives. -/
  reorderDepth : Nat
  /-- Never gives a frame. -/
  stalled : Bool
  /-- Frame that fails to decode. -/
  corrupt : Option Nat

namespace Source
variable {K : Type} [Scalar K]

def new (width height : Nat) (fps duration : K) : Source K :=
  ⟨width, height, fps, duration, 15, 2, false, none⟩

def withKeyframeSpacing (s : Source K) (n : Nat) : Source K := { s with keyframeSpacing := max n 1 }

def frameCount (s : Source K) : Nat := framesWithin s.duration s.fps

def sample (s : Source K) (index : Nat) : Sample :=
  { payload := lowBytes 8 index
    timestamp := frameTimestamp index s.fps
    duration := frameDuration s.fps
    keyframe := index % s.keyframeSpacing == 0 }

def samples (s : Source K) : List Sample := (List.range s.frameCount).map s.sample

/-- Colour of a frame. -/
def color (index : Nat) : Color :=
  let channel (factor modulus : Nat) : UInt8 := (index * factor % modulus).toUInt8
  ⟨channel 37 251, channel 11 241, channel 5 239, 255⟩

end Source
end Montage
