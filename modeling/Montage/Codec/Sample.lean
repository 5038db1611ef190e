import Montage.Number.Bytes
import Montage.Text.Utf8

/- Tables of compressed samples, in decode order, and the groups of pictures in them: a group
   starts at a keyframe and lasts until the next. -/
namespace Montage

structure Sample where
  payload : Bytes
  timestamp : Int
  duration : Int
  keyframe : Bool
  deriving DecidableEq, Repr

namespace Sample

def keyframes (table : List Sample) : List Nat :=
  (table.zipIdx.filter (·.1.keyframe)).map (·.2)

/-- The last keyframe before the first sample that is later than the target; where there is
none, the first keyframe of the table, or its start. -/
def keyframeAtOrBefore (table : List Sample) (target : Int) : Nat :=
  let reached := table.takeWhile fun s => decide (s.timestamp ≤ target)
  ((keyframes reached).getLast? <|> (keyframes table).head?).getD 0

/-- One past the last sample of the group that starts at a keyframe. -/
def groupEnd (table : List Sample) (keyframe : Nat) : Nat :=
  ((keyframes table).find? fun k => decide (keyframe < k)).getD table.length

def gaps (bounds : List Nat) : List Nat := List.zipWith (fun a b => b - a) bounds bounds.tail

/-- Samples in the longest group; whatever comes before the first keyframe counts as one. -/
def longestGroup (table : List Sample) : Nat :=
  (gaps (0 :: (keyframes table).filter (fun k => decide (0 < k)) ++ [table.length])).foldl max 0

def steps (table : List Sample) : List Int :=
  List.zipWith (fun a b => b.timestamp - a.timestamp) table table.tail

/-- The first positive duration, else the first positive step between timestamps. -/
def nominalDuration (table : List Sample) : Int :=
  ((table.map (·.duration)).find? (fun d => decide (0 < d)) <|>
    (steps table).find? (fun d => decide (0 < d))).getD 0

/-- Steps that are taken to find the nominal duration: none where a duration is positive, else those
up to the first positive one. -/
def measured (table : List Sample) : List Int :=
  if table.any fun s => decide (0 < s.duration) then []
  else
    (steps table).takeWhile (fun d => decide (d ≤ 0)) ++
      ((steps table).find? fun d => decide (0 < d)).toList

/-- The time from which on frames are of use for a target. Going back, that is where the group of the
target begins. -/
def earliest (table : List Sample) (reverse : Bool) (target : Int) : Int :=
  if reverse then
    match table[keyframeAtOrBefore table target]? with
    | some x => min x.timestamp target
    | none => target
  else target

end Sample
end Montage
