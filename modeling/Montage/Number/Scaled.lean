import Montage.Number.Numeral

/- Numbers of documents: the leading digits that fit a 64-bit word, scaled by a power of ten
   in one multiplication or division. Fifteen digits and small powers come out exactly; with
   more of either the last place may differ from the nearest number. -/
namespace Montage

structure Scaled where
  significand : Nat
  exponent : Int
  deriving DecidableEq, Repr

namespace Scaled

/-- Appends digits as long as the number fits, and gives back those that are left. -/
def append (m : Nat) : List Char → Nat × List Char
  | [] => (m, [])
  | c :: cs =>
    let n := m * 10 + (c.toNat - 48)
    if (n : Int) ≤ unsignedMax 64 then append n cs else (m, c :: cs)

/-- Digits before the point raise the exponent when they do not fit; digits after it lower
the exponent when they do. -/
def ofDigits (whole places : List Char) (exponent : Int) : Scaled :=
  let (m, above) := append 0 whole
  let (m, below) := append m places
  ⟨m, exponent + above.length - (places.length - below.length : Nat)⟩

def largestPower : Nat := 308

def power (n : Nat) : Float := Float.ofScientific 1 false n

/-- Division by a power of ten; one beyond the largest takes two divisions. -/
def shrink (x : Float) (n : Nat) : Float :=
  if n ≤ largestPower then x / power n
  else if n ≤ 2 * largestPower then x / power largestPower / power (n - largestPower)
  else 0.0

/-- The number itself, or none when it is beyond every finite number. -/
def value? (s : Scaled) : Option Float :=
  let x := Float.ofNat s.significand
  if s.exponent < 0 then some (shrink x s.exponent.natAbs)
  else if s.significand = 0 then some 0.0
  else if largestPower < s.exponent.toNat then none
  else
    let y := x * power s.exponent.toNat
    if y.isFinite then some y else none

end Scaled

/-- The nearest coarse number, halves to even, infinite when there is none so large. -/
def nearestSingle (x : Float) : Float32 :=
  .ofModel <| .pack <|
    match x.toModel.unpack with
    | .finite sign mantissa exponent _ => .round .binary32 sign mantissa exponent
    | special => special

end Montage
