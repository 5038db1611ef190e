import Montage.Number.Scalar

/- Time as a sequence of readings, deadlines on it, and microseconds. -/
namespace Montage

/-- The n-th look at the clock sees the n-th reading, in microseconds. A clock that moves on
has passed a given time after so many looks, whatever was added to its readings. -/
structure Clock where
  reading : Nat → Nat
  looks : Nat
  looksUntil : Nat → Nat

namespace Clock

/-- Every look moves time on by a step. -/
def stepping (step : Nat) : Clock := ⟨fun n => n * step, 0, fun time => time / step + 1⟩

def look (c : Clock) : Nat × Clock := (c.reading c.looks, { c with looks := c.looks + 1 })

/-- Moves all readings to come. -/
def advance (c : Clock) (amount : Nat) : Clock := { c with reading := fun n => c.reading n + amount }

end Clock

/-- When a wait counts as stalled. -/
structure Deadline where
  limit : Nat
  deriving DecidableEq, Repr

def Deadline.after (c : Clock) (timeout : Nat) : Deadline × Clock :=
  let (now, c) := c.look
  (⟨now + timeout⟩, c)

def Deadline.expired (d : Deadline) (c : Clock) : Bool × Clock :=
  let (now, c) := c.look
  (decide (d.limit ≤ now), c)

variable {K : Type} [Scalar K]

def microsPerSecond : K := 1000000

/-- Nearest microsecond. -/
def toMicros (seconds : K) : Int := Scalar.toSigned (Scalar.round (seconds * microsPerSecond))

def ofMicros (us : Int) : K := Scalar.ofInt us / microsPerSecond

/-- Presentation time of an output frame. -/
def frameTimestamp (index : Nat) (fps : K) : Int :=
  Scalar.toSigned (Scalar.round (Scalar.ofNat index * microsPerSecond / fps))

/-- Frames that a duration takes, a hair's breadth of one apart. -/
def framesWithin (duration fps : K) : Nat :=
  Scalar.toCount (Scalar.max (Scalar.ceil (duration * fps - 1e-6)) 0)

def totalFrames (duration fps : K) : Nat :=
  if duration ≤ 0 ∨ fps ≤ 0 then 0 else framesWithin duration fps

def frameDuration (fps : K) : Int := Scalar.toSigned (Scalar.round (microsPerSecond / fps))

end Montage
