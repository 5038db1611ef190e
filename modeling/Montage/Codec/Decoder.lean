import Montage.Codec.Source
import Montage.Fault

/- Decoders: samples go in one by one, frames come out in the same order once enough
   samples are waiting or no more will follow. -/
namespace Montage

/-- The books of a backend: what became of its decoders and of the frames that they gave. All its
decoders keep them, the one that works holds them. -/
structure Usage where
  opened : Nat
  closed : Nat
  resets : Nat
  /-- Frames given and not yet let go. -/
  live : Nat
  deriving DecidableEq, Repr

namespace Usage

def none : Usage := ⟨0, 0, 0, 0⟩

end Usage

structure Decoder where
  width : Nat
  height : Nat
  reorderDepth : Nat
  stalled : Bool
  corrupt : Option Nat
  /-- Timestamps and frame indices taken in and not yet given out. -/
  waiting : List (Int × Nat)
  needsKeyframe : Bool
  flushing : Bool
  closed : Bool
  /-- The books, with what it did itself since it was handed them. -/
  usage : Usage

namespace Decoder

/-- A decoder that is opened now, and enters that into the books. -/
def opened {K : Type} (s : Source K) (books : Usage) : Decoder :=
  { width := s.width
    height := s.height
    reorderDepth := s.reorderDepth
    stalled := s.stalled
    corrupt := s.corrupt
    waiting := []
    needsKeyframe := true
    flushing := false
    closed := false
    usage := { books with opened := books.opened + 1 } }

/-- The first decoder of a backend. -/
def ofSource {K : Type} (s : Source K) : Decoder := opened s Usage.none

/-- Hands the books over, as others have kept them meanwhile. -/
def booked (d : Decoder) (books : Usage) : Decoder := { d with usage := books }

def pending (d : Decoder) : Nat := d.waiting.length

def frameIndex (s : Sample) : Except DecodeFault Nat :=
  if s.payload.length = 8 then .ok (ofLowBytes s.payload) else .error .malformedSample

/-- The first sample after opening or a reset has to be a keyframe. -/
def decode (d : Decoder) (s : Sample) : Except DecodeFault Decoder :=
  if d.closed then .error .decoderClosed
  else if d.needsKeyframe && !s.keyframe then .error (.notKeyframe s.timestamp)
  else do
    let index ← frameIndex s
    if d.corrupt = some index then .error (.corruptSample index)
    else .ok { d with needsKeyframe := false, waiting := d.waiting ++ [(s.timestamp, index)] }

def isReady (d : Decoder) : Bool :=
  !d.closed && !d.stalled && (decide (d.reorderDepth < d.pending) || d.flushing)

def frame (d : Decoder) (timestamp : Int) (index : Nat) : Frame :=
  ⟨Image.filled d.width d.height (Source.color index), timestamp⟩

/-- The next frame, if one is ready; it is live until released. -/
def next (d : Decoder) : Option (Frame × Decoder) :=
  if d.isReady then
    match d.waiting with
    | [] => none
    | (timestamp, index) :: rest =>
      some (d.frame timestamp index,
        { d with waiting := rest, usage := { d.usage with live := d.usage.live + 1 } })
  else none

/-- Lets go of frames given earlier. -/
def release (d : Decoder) (frames : Nat) : Decoder :=
  { d with usage := { d.usage with live := d.usage.live - frames } }

/-- No more input follows, so that all that waits becomes ready. -/
def flush (d : Decoder) : Decoder := { d with flushing := true }

def reset (d : Decoder) : Decoder :=
  { d with
    waiting := []
    needsKeyframe := true
    flushing := false
    usage := { d.usage with resets := d.usage.resets + 1 } }

/-- Later calls change nothing. -/
def close (d : Decoder) : Decoder :=
  if d.closed then d
  else
    { d with
      closed := true
      waiting := []
      usage := { d.usage with closed := d.usage.closed + 1 } }

end Decoder
end Montage
