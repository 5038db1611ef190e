import Montage.Timeline.Timing

/- Gain over the time of a segment, as an expression that a filter evaluates. -/
namespace Montage
variable {K : Type} [Scalar K]

inductive Gain (K : Type) where
  /-- From silence at the clip's start; the segment begins an offset into the clip. -/
  | rising (offset ramp : K)
  /-- To silence at the clip's end. -/
  | falling (length offset ramp : K)
  | least (a b : Gain K)
  deriving Repr

namespace Gain

def eval (t : K) : Gain K → K
  | .rising o r => Scalar.min 1 (Scalar.max 0 ((t + o) / r))
  | .falling c o r => Scalar.min 1 (Scalar.max 0 ((c - t - o) / r))
  | .least a b => Scalar.min (a.eval t) (b.eval t)

/-- The ramps of one transition within a clip. -/
def ofTransition (length offset : K) (t : Transition K) : List (Gain K) :=
  let ramp := t.ramp length
  if ramp ≤ 0 then []
  else
    (if t.fadesIn then [.rising offset ramp] else []) ++
    (if t.fadesOut then [.falling length offset ramp] else [])

/-- The weakest of all ramps; none when the gain is always full. -/
def ofTransitions (length offset : K) (ts : List (Transition K)) : Option (Gain K) :=
  match ts.flatMap (ofTransition length offset) with
  | [] => none
  | g :: gs => some (gs.foldl .least g)

end Gain
end Montage
