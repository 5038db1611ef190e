import Montage.Timeline.Project

/- When a clip plays, and which source second is shown at a given time. -/
namespace Montage
variable {K : Type} [Scalar K]

/-- Gap between 1 and the next stored number. -/
def leastSpeed : K := 2.220446049250313e-16

/-- Speeds that are not positive numbers play as 1. -/
def effectiveSpeed (speed : K) : K :=
  if Scalar.isFinite speed = true ∧ 0 < speed then Scalar.max speed leastSpeed else 1

namespace Clip

/-- Seconds of source the clip plays. -/
def sourceDuration (c : Clip K) (m : MediaFile K) : K :=
  Scalar.max (m.duration - c.trimStart - c.trimEnd) 0

/-- Seconds the clip takes on the timeline. -/
def timelineDuration (c : Clip K) (m : MediaFile K) : K :=
  c.sourceDuration m / effectiveSpeed c.speed

def endTime (c : Clip K) (m : MediaFile K) : K := c.startTime + c.timelineDuration m

end Clip

/-- A clip's timing against its media. -/
structure Timing (K : Type) where
  start : K
  /-- Exclusive. -/
  stop : K
  sourceStart : K
  sourceEnd : K
  speed : K
  reverse : Bool
  deriving Repr

def Clip.timing (c : Clip K) (m : MediaFile K) : Timing K :=
  let sourceStart := Scalar.max c.trimStart 0
  { start := c.startTime
    stop := c.endTime m
    sourceStart := sourceStart
    sourceEnd := Scalar.max (m.duration - c.trimEnd) sourceStart
    speed := effectiveSpeed c.speed
    reverse := c.reverse }

namespace Timing

def timelineDuration (t : Timing K) : K := t.stop - t.start
def sourceDuration (t : Timing K) : K := t.sourceEnd - t.sourceStart

def contains (t : Timing K) (time : K) : Bool := decide (t.start ≤ time) && decide (time < t.stop)

/-- The source second shown at a time, kept inside the window. -/
def sourceTime (t : Timing K) (time : K) : K :=
  let elapsed := (time - t.start) * t.speed
  let raw := if t.reverse then t.sourceEnd - elapsed else t.sourceStart + elapsed
  Scalar.clamp t.sourceStart t.sourceEnd raw

end Timing

/-- Greatest of the values and zero. -/
def latest (times : List K) : K := times.foldl Scalar.max 0

def Track.duration (t : Track K) (media : List (MediaFile K)) : K :=
  latest <| t.clips.filterMap fun c =>
    (media.find? fun m => m.id == c.mediaId).map c.endTime

/-- Latest end of a clip. -/
def Project.duration (p : Project K) : K :=
  latest (p.tracks.map fun t => t.duration p.mediaFiles)

namespace Transition

def fadesIn (t : Transition K) : Bool := t.kind == .fadeIn || t.kind == .crossfade
def fadesOut (t : Transition K) : Bool := t.kind == .fadeOut || t.kind == .crossfade

/-- Length of the ramp within a clip; none without a positive one. -/
def ramp (t : Transition K) (clipDuration : K) : K :=
  Scalar.max (Scalar.min t.duration clipDuration) 0

/-- Multiplier at an offset into the clip. -/
def envelope (t : Transition K) (offset clipDuration : K) : K :=
  let ramp := t.ramp clipDuration
  if ramp ≤ 0 then 1
  else
    let fadeIn := Scalar.clamp 0 1 (offset / ramp)
    let fadeOut := Scalar.clamp 0 1 ((clipDuration - offset) / ramp)
    match t.kind with
    | .fadeIn => fadeIn
    | .fadeOut => fadeOut
    | .crossfade => Scalar.min fadeIn fadeOut

end Transition

/-- The weakest of all transitions at an offset. -/
def clipEnvelope (ts : List (Transition K)) (offset clipDuration : K) : K :=
  (ts.map fun t => t.envelope offset clipDuration).foldl Scalar.min 1

end Montage
