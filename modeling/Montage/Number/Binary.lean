import Montage.Number.Power

/- Finite binary fractions m * 2 ^ q, read exactly from the stored bits of a
   floating-point number. Everything here is Nat and Int arithmetic. -/
namespace Montage

/-- A finite value with its sign kept apart, so that negative zero differs from zero. -/
structure Dyadic where
  negative : Bool
  mantissa : Nat
  exponent : Int
  deriving DecidableEq, Repr

/-- Stored width of a binary format: bits of the fraction and bits of the exponent. -/
structure BinaryFormat where
  fraction : Nat
  exponent : Nat
  deriving DecidableEq, Repr

namespace BinaryFormat

def double : BinaryFormat := ⟨52, 11⟩
def single : BinaryFormat := ⟨23, 8⟩

def signBit (f : BinaryFormat) : Nat := twoTo (f.fraction + f.exponent)
def exponentField (f : BinaryFormat) (bits : Nat) : Nat := bits / twoTo f.fraction % twoTo f.exponent
def fractionField (f : BinaryFormat) (bits : Nat) : Nat := bits % twoTo f.fraction
def isNegative (f : BinaryFormat) (bits : Nat) : Bool := f.signBit ≤ bits

/-- Exponent of the last place of the subnormal numbers. -/
def least (f : BinaryFormat) : Int := 2 - (twoTo (f.exponent - 1) : Nat) - f.fraction

/-- The all-ones exponent field holds the infinities and the undefined values. -/
def isFinite (f : BinaryFormat) (bits : Nat) : Bool := f.exponentField bits + 1 < twoTo f.exponent

def isUndefined (f : BinaryFormat) (bits : Nat) : Bool :=
  !f.isFinite bits && f.fractionField bits != 0

/-- Meaningful for finite bits only. -/
def decode (f : BinaryFormat) (bits : Nat) : Dyadic :=
  let e := f.exponentField bits
  let m := f.fractionField bits
  if e = 0 then ⟨f.isNegative bits, m, f.least⟩
  else ⟨f.isNegative bits, m + twoTo f.fraction, f.least + e - 1⟩

/-- Orders all bit patterns, negative zero below zero and undefined values at the ends. -/
def orderKey (f : BinaryFormat) (bits : Nat) : Int :=
  if f.isNegative bits then -((bits - f.signBit : Nat) : Int) - 1 else bits

/-- Bits of the value without its fraction: nothing but the sign below one, everything where no
bit stands for a fraction. -/
def withoutFraction (f : BinaryFormat) (bits : Nat) : Nat :=
  let one := twoTo (f.exponent - 1) - 1
  let e := f.exponentField bits
  if e < one then bits / f.signBit * f.signBit
  else bits - bits % twoTo (one + f.fraction - e)

end BinaryFormat

namespace Dyadic

def wholePart (d : Dyadic) : Nat :=
  if 0 ≤ d.exponent then d.mantissa * twoTo d.exponent.toNat
  else d.mantissa / twoTo (-d.exponent).toNat

/-- Drops the fraction, toward zero. -/
def truncate (d : Dyadic) : Int :=
  if d.negative then -(d.wholePart : Int) else d.wholePart

/-- Numerator and positive denominator of the magnitude. -/
def ratio (d : Dyadic) : Nat × Nat :=
  if 0 ≤ d.exponent then (d.mantissa * twoTo d.exponent.toNat, 1)
  else (d.mantissa, twoTo (-d.exponent).toNat)

end Dyadic
end Montage
