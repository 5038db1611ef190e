import Montage.Number.Binary
import Montage.Number.Power

/- The shortest decimal that reads back as a given binary number. Digit counts are
   tried in turn; on each decimal grid only the two neighbours of the value can win. -/
namespace Montage

/-- coefficient * 10 ^ exponent -/
structure Decimal where
  coefficient : Nat
  exponent : Int
  deriving DecidableEq, Repr

/-- Which neighbour an exact tie goes to. -/
inductive Tie where
  | even
  | up
  deriving DecidableEq, Repr

namespace Decimal

/-- Powers of ten as a fraction, so that negative exponents stay exact. -/
def powerOfTen (e : Int) : Nat × Nat :=
  if 0 ≤ e then (tenTo e.toNat, 1) else (1, tenTo (-e).toNat)

def powerOfTwo (e : Int) : Nat × Nat :=
  if 0 ≤ e then (twoTo e.toNat, 1) else (1, twoTo (-e).toNat)

/-- Greatest k among the given candidates, from above, with 10 ^ k ≤ num / den. -/
def settleExponent (num den : Nat) : Nat → Int → Int
  | 0, k => k
  | fuel + 1, k =>
    let (tn, td) := powerOfTen k
    if tn * den ≤ num * td then k else settleExponent num den fuel (k - 1)

/-- Decimal exponent of the leading digit of a positive fraction. -/
def leadingExponent (num den : Nat) : Int :=
  let bits : Int := (num.log2 : Int) - den.log2
  settleExponent num den 4 ((bits + 1) * 30103 / 100000 + 1)

/-- Four times the mantissa and the two ends of what rounds to it, in quarter places. -/
structure Roundings where
  low : Nat
  value : Nat
  high : Nat
  endsIncluded : Bool

def roundings (f : BinaryFormat) (d : Dyadic) : Roundings :=
  let closerBelow := d.mantissa = twoTo f.fraction ∧ f.least < d.exponent
  { low := 4 * d.mantissa - (if closerBelow then 1 else 2)
    value := 4 * d.mantissa
    high := 4 * d.mantissa + 2
    endsIncluded := d.mantissa % 2 = 0 }

def Roundings.holds (r : Roundings) (num den candidate : Nat) : Bool :=
  let c := candidate * den
  if r.endsIncluded then decide (r.low * num ≤ c) && decide (c ≤ r.high * num)
  else decide (r.low * num < c) && decide (c < r.high * num)

/-- Best coefficient on the grid of spacing 10 ^ unit, when one reads back. -/
def onGrid (tie : Tie) (r : Roundings) (place unit : Int) : Option Nat :=
  let (pn, pd) := powerOfTwo (place - 2)
  let (tn, td) := powerOfTen unit
  let num := pn * td
  let den := pd * tn
  let below := r.value * num / den
  let above := below + 1
  match r.holds num den below, r.holds num den above with
  | false, false => none
  | true, false => some below
  | false, true => some above
  | true, true =>
    let toBelow := r.value * num - below * den
    let toAbove := above * den - r.value * num
    if toBelow < toAbove then some below
    else if toAbove < toBelow then some above
    else match tie with
      | .up => some above
      | .even => if below % 2 = 0 then some below else some above

def stripZeros : Nat → Decimal → Decimal
  | 0, d => d
  | fuel + 1, d =>
    if d.coefficient ≠ 0 ∧ d.coefficient % 10 = 0 then
      stripZeros fuel ⟨d.coefficient / 10, d.exponent + 1⟩
    else d

/-- Most digits any stored value needs. -/
def digitLimit : Nat := 17

/-- The sign is left to the writer. -/
def shortest (f : BinaryFormat) (tie : Tie) (d : Dyadic) : Decimal :=
  if d.mantissa = 0 then ⟨0, 0⟩
  else
    let (num, den) := d.ratio
    let lead := leadingExponent num den
    let r := roundings f d
    let found := (List.range digitLimit).findSome? fun (i : Nat) =>
      let unit := lead - (i : Int)
      (onGrid tie r d.exponent unit).map fun c => (⟨c, unit⟩ : Decimal)
    stripZeros (digitLimit + 1) (found.getD ⟨0, 0⟩)

def digits (d : Decimal) : List Char := Nat.toDigits 10 d.coefficient

/-- Decimal exponent of the first digit. -/
def scientificExponent (d : Decimal) : Int := d.digits.length - 1 + d.exponent

end Decimal
end Montage
