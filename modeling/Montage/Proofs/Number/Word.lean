import Montage.Number.Word

/- Words: which differences fit, and bits that are read the other way. These keep a number that fits,
   and give one that does not back whole turns away. -/
namespace Montage

theorem asSigned_spec (n : Int) :
    Fits (asSigned n) ∧ ∃ turns : Int, asSigned n = n - turns * 18446744073709551616 := by
  have size : twoTo 64 = 18446744073709551616 := by decide
  have low := Int.le_bmod (x := n) (show 0 < twoTo 64 by decide)
  have high := Int.bmod_lt (x := n) (show 0 < twoTo 64 by decide)
  have turned := Int.bmod_eq_self_sub_bdiv_mul n (twoTo 64)
  rw [size] at low high turned
  rw [asSigned, size]
  exact ⟨⟨by omega, by omega⟩, _, turned⟩

theorem asSigned_fits {n : Int} (fits : Fits n) : asSigned n = n := by
  obtain ⟨word, turns, eq⟩ := asSigned_spec n
  have low := fits.low
  have high := fits.high
  have low' := word.low
  have high' := word.high
  omega

theorem asUnsigned_fits {n : Int} (low : 0 ≤ n) (high : n < 18446744073709551616) :
    (asUnsigned n : Int) = n := by
  have size : (twoTo 64 : Int) = 18446744073709551616 := by decide
  rw [asUnsigned, size, Int.emod_eq_of_lt low high]
  exact Int.toNat_of_nonneg low

/-- Whether the difference of two times, taken either way, is a word. -/
structure Comparable (a b : Int) : Prop where
  forth : Fits (a - b)
  back : Fits (b - a)

theorem Comparable.distance {a b : Int} (near : Comparable a b) : Fits ((a - b).natAbs : Int) := by
  have high := near.forth.high
  have low := near.back.high
  exact ⟨by omega, by omega⟩

end Montage
