import Montage.Number.Binary
import Montage.Number.Power

/- Numbers as they are written: what a row of digits stands for, and which texts are whole
   or stored numbers. Documents have a stricter grammar of their own. -/
namespace Montage

/-- A number as written: sign, digits with the point taken out, power of ten. -/
structure Numeral where
  negative : Bool
  digits : List Char
  exponent : Int

def digitsValue (ds : List Char) : Nat := ds.foldl (fun n c => n * 10 + (c.toNat - 48)) 0

def splitDigits (cs : List Char) : List Char × List Char :=
  (cs.takeWhile Char.isDigit, cs.dropWhile Char.isDigit)

def isExponentMark (c : Char) : Bool := c = 'e' || c = 'E'

namespace Numeral

/-- Decimal exponents beyond which every stored number is infinite, or zero. -/
def exponentCeiling : Int := 400

/-- The nearest stored magnitude, infinite when there is none so large. -/
def magnitude (n : Numeral) : Float :=
  let m := digitsValue n.digits
  let top := n.exponent + (Nat.toDigits 10 m).length
  if m = 0 ∨ top < -exponentCeiling then 0.0
  else if exponentCeiling < top then 1.0 / 0.0
  else if n.exponent < 0 then Float.ofScientific m true n.exponent.natAbs
  else Float.ofScientific m false n.exponent.toNat

def nearest (n : Numeral) : Float := if n.negative then -n.magnitude else n.magnitude

end Numeral

/-- An optional sign, and what follows it. -/
def splitSign : List Char → Bool × List Char
  | '-' :: r => (true, r)
  | '+' :: r => (false, r)
  | r => (false, r)

/-- A whole number in a signed 64-bit word: an optional sign and digits. -/
def wholeNumber? (cs : List Char) : Option Int :=
  let (negative, digits) := splitSign cs
  if digits.isEmpty || !digits.all (·.isDigit) then none
  else
    let n : Int := digitsValue digits
    let value := if negative then -n else n
    if signedMin 64 ≤ value ∧ value ≤ signedMax 64 then some value else none

/-- The power of ten at the end of a number, when nothing else is there. -/
def exponentAtEnd? : List Char → Option Int
  | [] => some 0
  | c :: r =>
    let (negative, digits) := splitSign r
    if !isExponentMark c || digits.isEmpty || !digits.all (·.isDigit) then none
    else
      let n : Int := digitsValue digits
      some (if negative then -n else n)

/-- Digits on either side of a point that may be left out. -/
def numeral? (negative : Bool) (cs : List Char) : Option Numeral :=
  let (whole, r) := splitDigits cs
  let (places, r) := match r with
    | '.' :: s => splitDigits s
    | r => ([], r)
  if whole.isEmpty && places.isEmpty then none
  else (exponentAtEnd? r).map fun e => ⟨negative, whole ++ places, e - places.length⟩

def infinityNames : List String := ["inf", "infinity"]

/-- A stored number: decimal, infinite or undefined, the names in any letter case. -/
def storedNumber? (cs : List Char) : Option Float :=
  let (negative, r) := splitSign cs
  let name := String.ofList (r.map Char.toLower)
  if name = "nan" then some (0.0 / 0.0)
  else if infinityNames.contains name then some (if negative then -1.0 / 0.0 else 1.0 / 0.0)
  else (numeral? negative r).map Numeral.nearest

end Montage
