import Montage.Number.Power

/- Whole numbers and 64-bit words. A sum is formed only where it fits its word; a change of the kind
   of word keeps the bits. -/
namespace Montage

/-- Whole numbers that a signed 64-bit word holds. -/
structure Fits (n : Int) : Prop where
  low : -9223372036854775808 ≤ n
  high : n ≤ 9223372036854775807

instance (n : Int) : Decidable (Fits n) :=
  decidable_of_iff (-9223372036854775808 ≤ n ∧ n ≤ 9223372036854775807)
    ⟨fun h => ⟨h.1, h.2⟩, fun h => ⟨h.low, h.high⟩⟩

/-- The bits of a word, read as a signed number. -/
def asSigned (n : Int) : Int := Int.bmod n (twoTo 64)

/-- The bits of a word, read as an unsigned number. -/
def asUnsigned (n : Int) : Nat := (n % (twoTo 64 : Int)).toNat

end Montage
