import Montage.Number.Binary
import Montage.Number.Power

/- The numbers of the timeline, of pictures and of sound. Definitions elsewhere are
   written once for any Scalar: floating point when they run, rationals when they are
   reasoned about exactly. -/
namespace Montage

class Scalar (K : Type) extends Add K, Sub K, Mul K, Div K, Neg K, LT K, LE K where
  decLt (a b : K) : Decidable (a < b)
  decLe (a b : K) : Decidable (a ≤ b)
  ofInt : Int → K
  /-- Decimal literal: coefficient, whether the power of ten divides, and that power. -/
  literal : Nat → Bool → Nat → K
  floor : K → K
  ceil : K → K
  /-- Nearest whole number, halves away from zero. -/
  round : K → K
  abs : K → K
  isFinite : K → Bool
  /-- Total order that also places undefined values and the two zeros. -/
  totalLe : K → K → Bool
  /-- Whole part toward zero, kept inside the bounds; zero when undefined. -/
  toIntWithin : Int → Int → K → Int
  /-- How often a value may be halved, at most, until it is no more than one. -/
  halvings : K → Nat

namespace Scalar
variable {K : Type} [Scalar K]

instance (a b : K) : Decidable (a < b) := decLt a b
instance (a b : K) : Decidable (a ≤ b) := decLe a b
instance (priority := low) (n : Nat) : OfNat K n := ⟨ofInt n⟩
instance (priority := low) : OfScientific K := ⟨literal⟩

/-- Equality of values: the two zeros are equal, an undefined value equals nothing. -/
def same (a b : K) : Bool := decide (a ≤ b) && decide (b ≤ a)

def isUndefined (a : K) : Bool := !decide (a ≤ a)

/-- Undefined values are passed over; of the two zeros the positive one is larger. -/
def max (a b : K) : K :=
  if a < b then b
  else if b < a then a
  else if a ≤ b then (if totalLe a b then b else a)
  else if a ≤ a then a else b

/-- Undefined values are passed over; of the two zeros the negative one is smaller. -/
def min (a b : K) : K :=
  if a < b then a
  else if b < a then b
  else if a ≤ b then (if totalLe a b then a else b)
  else if a ≤ a then a else b

def clamp (lo hi x : K) : K :=
  if x < lo then lo else if hi < x then hi else x

def totalCompare (a b : K) : Ordering :=
  if totalLe a b then (if totalLe b a then .eq else .lt) else .gt

def ofNat (n : Nat) : K := ofInt n

/-- Whole part as a count: negative and undefined values give zero. -/
def toCount (x : K) : Nat := (toIntWithin 0 (unsignedMax 64) x).toNat

/-- Whole part as a signed 64-bit value. -/
def toSigned (x : K) : Int := toIntWithin (signedMin 64) (signedMax 64) x

def sum (xs : List K) : K := xs.foldl (· + ·) 0

end Scalar

def boundInt (lo hi n : Int) : Int := if n < lo then lo else if hi < n then hi else n

def truncateBits (f : BinaryFormat) (lo hi : Int) (bits : Nat) : Int :=
  if f.isFinite bits then boundInt lo hi (f.decode bits).truncate
  else if f.isUndefined bits then 0
  else if f.isNegative bits then lo else hi

def wholeDouble (x : Float) : Float :=
  .ofBits (BinaryFormat.double.withoutFraction x.toBits.toNat).toUInt64

def wholeSingle (x : Float32) : Float32 :=
  .ofBits (BinaryFormat.single.withoutFraction x.toBits.toNat).toUInt32

/- Rounding from the whole part toward zero. The step of one is exact, since only numbers that are
   small enough have a fraction. -/
section Rounding
variable {K : Type} [Add K] [Sub K] [LT K] [LE K] [DecidableLT K] [DecidableLE K] [OfNat K 1]
  [OfScientific K]

def lowered (whole x : K) : K := if x < whole then whole - 1 else whole

def raised (whole x : K) : K := if whole < x then whole + 1 else whole

def nearest (whole x : K) : K :=
  if 0.5 ≤ x - whole then whole + 1 else if 0.5 ≤ whole - x then whole - 1 else whole

end Rounding

instance : Scalar Float where
  decLt a b := inferInstanceAs (Decidable (a < b))
  decLe a b := inferInstanceAs (Decidable (a ≤ b))
  ofInt := Float.ofInt
  literal := Float.ofScientific
  floor x := lowered (wholeDouble x) x
  ceil x := raised (wholeDouble x) x
  round x := nearest (wholeDouble x) x
  abs := Float.abs
  isFinite := Float.isFinite
  totalLe a b :=
    decide (BinaryFormat.double.orderKey a.toBits.toNat ≤ BinaryFormat.double.orderKey b.toBits.toNat)
  toIntWithin lo hi x := truncateBits BinaryFormat.double lo hi x.toBits.toNat
  halvings _ := twoTo BinaryFormat.double.exponent

instance : Scalar Float32 where
  decLt a b := inferInstanceAs (Decidable (a < b))
  decLe a b := inferInstanceAs (Decidable (a ≤ b))
  ofInt := Float32.ofInt
  literal := Float32.ofScientific
  floor x := lowered (wholeSingle x) x
  ceil x := raised (wholeSingle x) x
  round x := nearest (wholeSingle x) x
  abs := Float32.abs
  isFinite := Float32.isFinite
  totalLe a b :=
    decide (BinaryFormat.single.orderKey a.toBits.toNat ≤ BinaryFormat.single.orderKey b.toBits.toNat)
  toIntWithin lo hi x := truncateBits BinaryFormat.single lo hi x.toBits.toNat
  halvings _ := twoTo BinaryFormat.single.exponent

/-- Whole part toward zero. -/
def towardZero (x : Rat) : Int := if x < 0 then -(-x).floor else x.floor

instance : Scalar Rat where
  decLt a b := inferInstanceAs (Decidable (a < b))
  decLe a b := inferInstanceAs (Decidable (a ≤ b))
  ofInt n := (n : Rat)
  literal m negative e := if negative then (m : Rat) / (tenTo e : Nat) else (m : Rat) * (tenTo e : Nat)
  floor x := (x.floor : Rat)
  ceil x := (x.ceil : Rat)
  round x := if x < 0 then -((-x + 1 / 2).floor : Rat) else ((x + 1 / 2).floor : Rat)
  abs x := if x < 0 then -x else x
  isFinite _ := true
  totalLe a b := decide (a ≤ b)
  toIntWithin lo hi x := boundInt lo hi (towardZero x)
  halvings x := x.ceil.toNat.log2 + 1

/-- A fine scale K and a coarse scale S: what is computed finely may be stored coarsely. -/
class Narrowing (K S : Type) where
  narrow : K → S
  widen : S → K

instance : Narrowing Float Float32 := ⟨Float.toFloat32, Float32.toFloat⟩
instance : Narrowing Rat Rat := ⟨id, id⟩

/-- Sine and cosine of an angle in degrees. -/
class Angles (K : Type) where
  sinCos : K → K × K

def radiansPerDegree : Float := 3.141592653589793 / 180.0

instance : Angles Float where
  sinCos degrees :=
    let r := degrees * radiansPerDegree
    (r.sin, r.cos)

end Montage
