import Montage.Codec.Source
import Montage.Number.Word

/- Decoded frames in ascending order, of which the one nearest to a target is picked. -/
namespace Montage

structure FrameQueue where
  frames : List Frame
  capacity : Nat

namespace FrameQueue

def withCapacity (n : Nat) : FrameQueue := ⟨[], max n 2⟩

def size (q : FrameQueue) : Nat := q.frames.length
def front? (q : FrameQueue) : Option Int := q.frames.head?.map (·.timestamp)
def back? (q : FrameQueue) : Option Int := q.frames.getLast?.map (·.timestamp)
def clear (q : FrameQueue) : FrameQueue := { q with frames := [] }

/-- Frames of equal time keep the order in which they arrived. -/
def insert (f : Frame) (frames : List Frame) : List Frame :=
  let (before, after) := frames.span fun g => decide (g.timestamp ≤ f.timestamp)
  before ++ f :: after

/-- The oldest frames give way when the queue is full. -/
def push (q : FrameQueue) (f : Frame) : FrameQueue :=
  let frames := insert f q.frames
  { q with frames := frames.drop (frames.length - q.capacity) }

/-- Position and value of the least entry, the first one of equals. -/
def least : List Int → Option (Nat × Int)
  | [] => none
  | d :: ds =>
    match least ds with
    | none => some (0, d)
    | some (i, e) => if e < d then some (i + 1, e) else some (0, d)

/-- Position of the frame closest to a target, the earlier one of equals. -/
def nearest (q : FrameQueue) (target : Int) : Option Nat :=
  (least (q.frames.map fun f => ((f.timestamp - target).natAbs : Int))).map (·.1)

/-- The closest frame moves to the front: all that is older is dropped. -/
def pick (q : FrameQueue) (target : Int) : Option Frame × FrameQueue :=
  match q.nearest target with
  | none => (none, q)
  | some i =>
    let frames := q.frames.drop i
    (frames.head?, { q with frames })

/-- The closest frame moves to the back: all that is newer is dropped. -/
def pickDescending (q : FrameQueue) (target : Int) : Option Frame × FrameQueue :=
  match q.nearest target with
  | none => (none, q)
  | some i =>
    let frames := q.frames.take (i + 1)
    (frames.getLast?, { q with frames })

/-- No distance to the target is too great for a word. -/
def reaches (q : FrameQueue) (target : Int) : Bool :=
  q.frames.all fun f => decide (Fits ((f.timestamp - target).natAbs : Int))

/-- None where a distance overflows. -/
def pick? (q : FrameQueue) (target : Int) : Option (Option Frame × FrameQueue) :=
  if q.reaches target then some (q.pick target) else none

def pickDescending? (q : FrameQueue) (target : Int) : Option (Option Frame × FrameQueue) :=
  if q.reaches target then some (q.pickDescending target) else none

end FrameQueue
end Montage
