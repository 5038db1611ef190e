import Montage.Number.Power

/- Progress reports. Within a stage the percentage never goes back; a new stage or a
   restart begins anew. -/
namespace Montage

inductive Stage where
  | preparing
  | rendering
  | encoding
  | finalizing
  | complete
  | failed
  deriving DecidableEq, Repr

def Stage.all : List (String × Stage) :=
  [("preparing", .preparing), ("rendering", .rendering), ("encoding", .encoding),
    ("finalizing", .finalizing), ("complete", .complete), ("failed", .failed)]

def Stage.name : Stage → String
  | .preparing => "preparing"
  | .rendering => "rendering"
  | .encoding => "encoding"
  | .finalizing => "finalizing"
  | .complete => "complete"
  | .failed => "failed"

structure Report where
  stage : Stage
  percent : Nat
  message : String
  deriving DecidableEq, Repr

structure Progress where
  /-- Whether anybody listens. -/
  connected : Bool
  last : Option (Stage × Nat)
  delivered : Array Report

namespace Progress

def channel : Progress := ⟨true, none, #[]⟩
def disabled : Progress := ⟨false, none, #[]⟩

/-- Whether a percentage goes back within the last stage. -/
def goesBack (p : Progress) (stage : Stage) (percent : Nat) : Bool :=
  match p.last with
  | some (s, n) => s == stage && decide (percent < n)
  | none => false

def report (p : Progress) (stage : Stage) (percent : Nat) (message : String) : Progress :=
  let percent := min percent 100
  if p.goesBack stage percent then p
  else
    { p with
      last := some (stage, percent)
      delivered := if p.connected then p.delivered.push ⟨stage, percent, message⟩ else p.delivered }

/-- Percentage of two counters; none where the product has no room in a 64-bit word. -/
def percentage? (done total : Nat) : Option Nat :=
  if total = 0 then some 100
  else if min done total * 100 < twoTo 64 then some (min done total * 100 / total)
  else none

/-- A report of two counters, if they have a percentage. -/
def fraction (p : Progress) (stage : Stage) (done total : Nat) (message : String) : Option Progress :=
  (percentage? done total).map fun percent => p.report stage percent message

def complete (p : Progress) (message : String) : Progress := p.report .complete 100 message
def fail (p : Progress) (message : String) : Progress := p.report .failed 100 message

/-- Forgets the last report, so that another attempt may begin at zero. -/
def restart (p : Progress) : Progress := { p with last := none }

def disconnect (p : Progress) : Progress := { p with connected := false }

def currentStage (p : Progress) : Option Stage := p.last.map (·.1)

end Progress
end Montage
