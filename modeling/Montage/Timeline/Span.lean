import Montage.Timeline.Timing

/- Overlapping clips flattened into spans that follow one another. Each interval between
   neighbouring boundaries goes to one candidate: the lowest track, then the latest
   start, then the last in the list. Intervals of nobody are gaps. -/
namespace Montage
variable {K : Type} [Scalar K]

structure Candidate (K : Type) where
  /-- The lower track lies on top. -/
  track : Nat
  start : K
  stop : K
  deriving Repr

structure Span (K : Type) where
  start : K
  stop : K
  /-- Index of the candidate that plays; none in a gap. -/
  winner : Option Nat
  deriving Repr

namespace Span

def duration (s : Span K) : K := s.stop - s.start

end Span

/-- Nearest multiple of a positive step. -/
def snap (t step : K) : K := if step ≤ 0 then t else Scalar.round (t / step) * step

/-- Boundaries closer than this are one, and lengths below it are nothing. -/
def closeness : K := 1e-9

namespace Candidate

/-- The interval on the grid, kept inside the timeline. -/
def bounds (total step : K) (c : Candidate K) : K × K :=
  (Scalar.clamp 0 total (snap c.start step), Scalar.clamp 0 total (snap c.stop step))

/-- Whether a candidate later in the list takes an interval from an earlier one. -/
def takesOver (earlier later : Candidate K) : Bool :=
  decide (later.track < earlier.track) ||
    (later.track == earlier.track && Scalar.totalLe earlier.start later.start)

end Candidate

/-- A candidate with its place in the list and its interval on the grid. -/
structure Contender (K : Type) where
  index : Nat
  candidate : Candidate K
  low : K
  high : K

def contenders (cs : List (Candidate K)) (total step : K) : List (Contender K) :=
  cs.zipIdx.map fun (c, i) =>
    let (low, high) := c.bounds total step
    ⟨i, c, low, high⟩

def Contender.holds (c : Contender K) (t : K) : Bool := decide (c.low ≤ t) && decide (t < c.high)

def winnerAt (cs : List (Contender K)) (t : K) : Option (Contender K) :=
  (cs.filter (·.holds t)).foldl (fun best c =>
    match best with
    | none => some c
    | some b => if b.candidate.takesOver c.candidate then some c else some b) none

/-- Drops each boundary that is close to the last one kept. -/
def thinned : List K → List K
  | [] => []
  | e :: es => e :: go e es
where
  go (kept : K) : List K → List K
    | [] => []
    | e :: es => if Scalar.abs (e - kept) < closeness then go kept es else e :: go e es

def edges (cs : List (Contender K)) (total : K) : List K :=
  thinned ((0 :: total :: cs.flatMap fun c => [c.low, c.high]).mergeSort Scalar.totalLe)

/-- Neighbouring boundaries that are apart. -/
def intervals : List K → List (K × K)
  | a :: b :: es => if b - a ≤ closeness then intervals (b :: es) else (a, b) :: intervals (b :: es)
  | _ => []

/-- Adds a span at the end, joined to the last one when the same candidate plays. -/
def extend (spans : List (Span K)) (s : Span K) : List (Span K) :=
  match spans.getLast? with
  | some last =>
    if last.winner == s.winner then spans.dropLast ++ [{ last with stop := s.stop }] else spans ++ [s]
  | none => [s]

def midpoint (a b : K) : K := (a + b) / 2

def sweep (cs : List (Contender K)) (total : K) : List (Span K) :=
  (intervals (edges cs total)).foldl (fun spans (a, b) =>
    extend spans ⟨a, b, (winnerAt cs (midpoint a b)).map (·.index)⟩) []

/-- Greatest of the values, none being less than all of them. -/
def greatest : List K → Option K
  | [] => none
  | x :: xs => some (xs.foldl Scalar.max x)

def least : List K → Option K
  | [] => none
  | x :: xs => some (xs.foldl Scalar.min x)

/-- Whether the unsnapped clips on both sides of a time are less than a step apart. -/
def isShortGap (cs : List (Candidate K)) (step mid : K) : Bool :=
  let before := greatest ((cs.map (·.stop)).filter fun e => decide (e ≤ mid))
  let after := least ((cs.map (·.start)).filter fun s => decide (mid ≤ s))
  match before, after with
  | some b, some a => decide (a - b < step - closeness)
  | _, _ => false

/-- Gives short gaps between two spans to the span before. -/
def absorbShortGaps (cs : List (Candidate K)) (step : K) (spans : List (Span K)) : List (Span K) :=
  (spans.zipIdx).foldl (fun out (s, i) =>
    let interior := decide (0 < i) && decide (i + 1 < spans.length)
    if s.winner.isNone && interior && isShortGap cs step (midpoint s.start s.stop) then
      match out.getLast? with
      | some last => out.dropLast ++ [{ last with stop := s.stop }]
      | none => extend out s
    else extend out s) []

/-- Joins a last span shorter than a step to the one before. -/
def foldTail (step : K) (spans : List (Span K)) : List (Span K) :=
  match spans.getLast?, spans.dropLast.getLast? with
  | some tail, some before =>
    if tail.duration < step - closeness then
      spans.dropLast.dropLast ++ [{ before with stop := tail.stop }]
    else spans
  | _, _ => spans

/-- Spans over the whole timeline. Boundaries lie on the grid, except the last one. -/
def flatten (cs : List (Candidate K)) (total step : K) : List (Span K) :=
  if total ≤ 0 then []
  else foldTail step (absorbShortGaps cs step (sweep (contenders cs total step) total))

end Montage
