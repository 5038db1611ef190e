import Montage.Number.Decimal
import Montage.Number.Power

/- How numbers are spelled: shortest digits laid out plainly or with an exponent, and
   fixed counts of places rounded from the exact binary value, halves to even. -/
namespace Montage

structure NumberStyle where
  /-- Leading exponents written without a power of ten: from the first up to the second. -/
  plainFrom : Option Int
  plainBelow : Option Int
  /-- A whole number keeps a zero after the point. -/
  keepsPoint : Bool
  /-- A positive power of ten carries a plus sign. -/
  plusSign : Bool
  tie : Tie

namespace NumberStyle

/-- Numbers in saved documents. -/
def document : NumberStyle := ⟨some (-5), some 16, true, true, .even⟩
/-- Coarse samples in saved documents. -/
def documentSingle : NumberStyle := ⟨some (-6), some 13, true, true, .even⟩
/-- Numbers in messages and commands: no exponent, no needless point. -/
def plain : NumberStyle := ⟨none, none, false, false, .up⟩
/-- Numbers in diagnostic lists. -/
def diagnostic : NumberStyle := ⟨some (-5), some 16, true, false, .up⟩

def isPlain (n : NumberStyle) (lead : Int) : Bool :=
  (n.plainFrom.all fun e => decide (e ≤ lead)) && (n.plainBelow.all fun e => decide (lead < e))

def zeros (n : Nat) : List Char := List.replicate n '0'

def plainLayout (keepsPoint : Bool) (ds : List Char) (e : Int) : List Char :=
  if 0 ≤ e then ds ++ zeros e.toNat ++ (if keepsPoint then ['.', '0'] else [])
  else
    let places := (-e).toNat
    if places < ds.length then
      ds.take (ds.length - places) ++ '.' :: ds.drop (ds.length - places)
    else '0' :: '.' :: zeros (places - ds.length) ++ ds

def exponentLayout (plusSign : Bool) (ds : List Char) (lead : Int) : List Char :=
  let head := ds.take 1 ++ (if ds.length ≤ 1 then [] else '.' :: ds.drop 1)
  let sign := if lead < 0 then ['-'] else if plusSign then ['+'] else []
  head ++ 'e' :: sign ++ Nat.toDigits 10 lead.natAbs

def layout (n : NumberStyle) (d : Decimal) : List Char :=
  if d.coefficient = 0 then '0' :: (if n.keepsPoint then ['.', '0'] else [])
  else if n.isPlain d.scientificExponent then plainLayout n.keepsPoint d.digits d.exponent
  else exponentLayout n.plusSign d.digits d.scientificExponent

def signed (negative : Bool) (cs : List Char) : List Char := if negative then '-' :: cs else cs

/-- Spelling of stored bits; infinities and undefined values have names. -/
def ofBits (n : NumberStyle) (f : BinaryFormat) (bits : Nat) : List Char :=
  if f.isFinite bits then
    let d := f.decode bits
    signed d.negative (n.layout (Decimal.shortest f n.tie d))
  else if f.isUndefined bits then ['N', 'a', 'N']
  else signed (f.isNegative bits) ['i', 'n', 'f']

def double (n : NumberStyle) (x : Float) : String :=
  String.ofList (n.ofBits BinaryFormat.double x.toBits.toNat)

def single (n : NumberStyle) (x : Float32) : String :=
  String.ofList (n.ofBits BinaryFormat.single x.toBits.toNat)

end NumberStyle

/-- Quotient to the nearest whole number, halves to even. -/
def divideToEven (num den : Nat) : Nat :=
  let q := num / den
  let r := num % den
  if 2 * r < den then q
  else if den < 2 * r then q + 1
  else if q % 2 = 0 then q else q + 1

/-- A magnitude given in units of the last place, with the point put in. -/
def placePoint (places units : Nat) : List Char :=
  let ds := Nat.toDigits 10 units
  let padded := NumberStyle.zeros (places + 1 - ds.length) ++ ds
  if places = 0 then padded
  else padded.take (padded.length - places) ++ '.' :: padded.drop (padded.length - places)

def fixedPlaces (places : Nat) (x : Float) : String :=
  let f := BinaryFormat.double
  let bits := x.toBits.toNat
  String.ofList <|
    if f.isFinite bits then
      let d := f.decode bits
      let (num, den) := d.ratio
      NumberStyle.signed d.negative (placePoint places (divideToEven (num * tenTo places) den))
    else NumberStyle.plain.ofBits f bits

end Montage
