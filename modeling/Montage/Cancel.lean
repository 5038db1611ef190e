import Montage.Fault

/- A cancellation flag that, once tripped, stays tripped. Who trips it is not part of a
   render: an interference says at which moments that happens. -/
namespace Montage

/-- Points of a render at which somebody may trip the flag. -/
inductive Moment where
  /-- Just before the n-th look at the flag. -/
  | look (n : Nat)
  | audioDecode (n : Nat)
  | videoFrame (n : Nat)
  | audioBlock (n : Nat)
  | report (n : Nat)
  /-- A request reached a service that does not answer. -/
  | hangingRequest
  deriving DecidableEq, Repr

structure Cancel where
  tripped : Bool
  interference : Moment → Bool
  looks : Nat

namespace Cancel

def clear : Cancel := ⟨false, fun _ => false, 0⟩
def already : Cancel := ⟨true, fun _ => false, 0⟩

/-- A flag that others may trip at the given moments. -/
def under (interference : Moment → Bool) : Cancel := ⟨false, interference, 0⟩

def trip (c : Cancel) : Cancel := { c with tripped := true }

def pass (c : Cancel) (m : Moment) : Cancel := { c with tripped := c.tripped || c.interference m }

def look (c : Cancel) : Bool × Cancel :=
  let c := c.pass (.look c.looks)
  (c.tripped, { c with looks := c.looks + 1 })

def check (c : Cancel) : Except RenderFault Unit × Cancel :=
  let (tripped, c) := c.look
  (if tripped then .error .cancelled else .ok (), c)

end Cancel
end Montage
