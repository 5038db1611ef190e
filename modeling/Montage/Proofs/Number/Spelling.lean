import Montage.Number.Style

/- What finite numbers are spelled with in documents: digits without a needless zero in front,
   places after a point, and a power of ten with its sign. -/
namespace Montage

/-- A magnitude, its parts apart. -/
structure Spelling where
  whole : List Char
  /-- Digits after the point; without any there is no point. -/
  places : List Char
  power : Option Int

namespace Spelling

def pointed : List Char → List Char
  | [] => []
  | d :: ds => '.' :: d :: ds

def raised : Option Int → List Char
  | none => []
  | some e => 'e' :: (if e < 0 then '-' else '+') :: Nat.toDigits 10 e.natAbs

def text (s : Spelling) : List Char := s.whole ++ (pointed s.places ++ raised s.power)

structure Valid (s : Spelling) : Prop where
  whole_digits : ∀ c ∈ s.whole, c.isDigit = true
  places_digits : ∀ c ∈ s.places, c.isDigit = true
  leading : s.whole = ['0'] ∨ ∃ d ds, s.whole = d :: ds ∧ d ≠ '0'

theorem pointed_of_ne_nil {ds : List Char} (some : ds ≠ []) : pointed ds = '.' :: ds := by
  cases ds with
  | nil => exact absurd rfl some
  | cons d ds => rfl

end Spelling

theorem digitChar_ne_zero : ∀ n < 10, n ≠ 0 → Nat.digitChar n ≠ '0' := by decide

/-- Digits of a number start with a zero only when it is zero. -/
theorem toDigits_leading (n : Nat) (positive : n ≠ 0) :
    ∃ d ds, Nat.toDigits 10 n = d :: ds ∧ d ≠ '0' := by
  induction n using Nat.strongRecOn with
  | ind n ih =>
    rw [Nat.toDigits_eq_if (by omega)]
    split
    · exact ⟨_, [], rfl, digitChar_ne_zero n ‹_› positive⟩
    · obtain ⟨d, ds, split, head⟩ := ih (n / 10) (by omega) (by omega)
      exact ⟨d, ds ++ [(n % 10).digitChar], by rw [split, List.cons_append], head⟩

theorem toDigits_digits (n : Nat) : ∀ c ∈ Nat.toDigits 10 n, c.isDigit = true :=
  fun _ member => Nat.isDigit_of_mem_toDigits (by omega) (by omega) member

/-- A whole number is its digits. -/
def Spelling.ofNat (n : Nat) : Spelling := ⟨Nat.toDigits 10 n, [], none⟩

theorem Spelling.ofNat_valid (n : Nat) : (Spelling.ofNat n).Valid := by
  refine ⟨toDigits_digits n, by simp [ofNat], ?_⟩
  by_cases zero : n = 0
  · exact Or.inl (by rw [zero]; rfl)
  · exact Or.inr (toDigits_leading n zero)

namespace NumberStyle

theorem zeros_digits (n : Nat) : ∀ c ∈ zeros n, c.isDigit = true := by
  intro c member
  rw [List.eq_of_mem_replicate member]
  rfl

section Layout
variable {d : Char} {ds : List Char} (digits : ∀ c ∈ d :: ds, c.isDigit = true) (leading : d ≠ '0')
include digits leading

theorem plainLayout_spelled (keepsPoint : Bool) (e : Int) :
    ∃ s : Spelling, s.Valid ∧ plainLayout keepsPoint (d :: ds) e = s.text := by
  have padded : ∀ c ∈ d :: ds ++ zeros e.toNat, c.isDigit = true := fun c member =>
    (List.mem_append.mp member).elim (digits c) (zeros_digits _ c)
  have head : ∃ a as, d :: ds ++ zeros e.toNat = a :: as ∧ a ≠ '0' := ⟨d, _, rfl, leading⟩
  unfold plainLayout
  split
  · cases keepsPoint with
    | true =>
      exact ⟨⟨d :: ds ++ zeros e.toNat, ['0'], none⟩, ⟨padded, by simp, Or.inr head⟩,
        by simp [Spelling.text, Spelling.pointed, Spelling.raised]⟩
    | false =>
      exact ⟨⟨d :: ds ++ zeros e.toNat, [], none⟩, ⟨padded, by simp, Or.inr head⟩,
        by simp [Spelling.text, Spelling.pointed, Spelling.raised]⟩
  · have one : 0 < (-e).toNat := by omega
    dsimp only
    split
    · -- the point falls between the digits
      rename_i inside
      obtain ⟨k, cut⟩ : ∃ k, (d :: ds).length - (-e).toNat = k + 1 :=
        Nat.exists_eq_succ_of_ne_zero (by omega)
      have some : (d :: ds).drop (k + 1) ≠ [] := by
        rw [Ne, List.drop_eq_nil_iff]
        omega
      rw [cut]
      refine ⟨⟨(d :: ds).take (k + 1), (d :: ds).drop (k + 1), none⟩, ⟨?_, ?_, ?_⟩, ?_⟩
      · exact fun c member => digits c (List.mem_of_mem_take member)
      · exact fun c member => digits c (List.mem_of_mem_drop member)
      · exact Or.inr ⟨d, ds.take k, rfl, leading⟩
      · rw [Spelling.text, Spelling.pointed_of_ne_nil some, Spelling.raised, List.append_nil]
    · have some : zeros ((-e).toNat - (d :: ds).length) ++ d :: ds ≠ [] := by simp
      refine ⟨⟨['0'], zeros ((-e).toNat - (d :: ds).length) ++ d :: ds, none⟩,
        ⟨by simp, ?_, Or.inl rfl⟩, ?_⟩
      · exact fun c member => (List.mem_append.mp member).elim (zeros_digits _ c) (digits c)
      · rw [Spelling.text, Spelling.pointed_of_ne_nil some, Spelling.raised, List.append_nil]
        rfl

theorem exponentLayout_spelled (lead : Int) :
    ∃ s : Spelling, s.Valid ∧ exponentLayout true (d :: ds) lead = s.text := by
  refine ⟨⟨[d], ds, some lead⟩, ⟨?_, ?_, ?_⟩, ?_⟩
  · exact fun c member => digits c (List.mem_cons.mpr (Or.inl (List.mem_singleton.mp member)))
  · exact fun c member => digits c (List.mem_cons_of_mem d member)
  · exact Or.inr ⟨d, [], rfl, leading⟩
  · by_cases negative : lead < 0
    · cases ds <;> simp [exponentLayout, Spelling.text, Spelling.raised, Spelling.pointed, negative]
    · cases ds <;> simp [exponentLayout, Spelling.text, Spelling.raised, Spelling.pointed, negative]

end Layout

theorem layout_spelled {n : NumberStyle} (signs : n.plusSign = true) (d : Decimal) :
    ∃ s : Spelling, s.Valid ∧ n.layout d = s.text := by
  unfold layout
  split
  · cases n.keepsPoint with
    | true => exact ⟨⟨['0'], ['0'], none⟩, ⟨by simp, by simp, Or.inl rfl⟩, rfl⟩
    | false => exact ⟨⟨['0'], [], none⟩, ⟨by simp, by simp, Or.inl rfl⟩, rfl⟩
  · rename_i nonzero
    have digits := toDigits_digits d.coefficient
    obtain ⟨a, as, split, leading⟩ := toDigits_leading d.coefficient nonzero
    rw [split] at digits
    rw [Decimal.digits, split, signs]
    split
    · exact plainLayout_spelled digits leading _ _
    · exact exponentLayout_spelled digits leading _

/-- The text of finite bits: a sign and a magnitude. -/
theorem ofBits_spelled {n : NumberStyle} (signs : n.plusSign = true) {f : BinaryFormat} {bits : Nat}
    (finite : f.isFinite bits = true) :
    ∃ (negative : Bool) (s : Spelling), s.Valid ∧ n.ofBits f bits = signed negative s.text := by
  obtain ⟨s, valid, spelled⟩ := layout_spelled signs (Decimal.shortest f n.tie (f.decode bits))
  refine ⟨(f.decode bits).negative, s, valid, ?_⟩
  rw [← spelled, ofBits, if_pos finite]

end NumberStyle

/-! The exponent field tells finite numbers from the others. -/

section Formats
open Float.Model

theorem unpackExponent_toNat {f : Format} (bits : BitVec f.numBits) :
    (UnpackedFloat.unpackExponent bits).toNat =
      bits.toNat / twoTo f.mantissaBitsWithoutImplicit % twoTo f.exponentBits := by
  have positive := f.he
  simp only [UnpackedFloat.unpackExponent, BitVec.toNat_cast, BitVec.extractLsb_toNat,
    Nat.shiftRight_eq_div_pow, twoTo]
  congr 2
  omega

theorem unpack_isFinite (f : Format) (bits : BitVec f.numBits) :
    (UnpackedFloat.unpack f bits).isFinite =
      (⟨f.mantissaBitsWithoutImplicit, f.exponentBits⟩ : BinaryFormat).isFinite bits.toNat := by
  have field : _ = BinaryFormat.exponentField ⟨_, _⟩ bits.toNat := unpackExponent_toNat bits
  have width := Nat.two_pow_pos f.exponentBits
  have ones : UnpackedFloat.unpackExponent bits = -1#f.exponentBits ↔
      ¬ BinaryFormat.exponentField ⟨f.mantissaBitsWithoutImplicit, f.exponentBits⟩ bits.toNat + 1 <
        twoTo f.exponentBits := by
    have bound := (UnpackedFloat.unpackExponent bits).isLt
    rw [BitVec.neg_one_eq_allOnes, ← BitVec.toNat_inj, BitVec.toNat_allOnes, ← field]
    simp only [twoTo, Nat.pow_eq]
    omega
  rw [BinaryFormat.isFinite]
  delta UnpackedFloat.unpack
  dsimp only
  by_cases all : UnpackedFloat.unpackExponent bits = -1#f.exponentBits
  · rw [if_pos all, decide_eq_false (ones.mp all)]
    by_cases zero : UnpackedFloat.unpackMantissa bits = 0#f.mantissaBitsWithoutImplicit
    · rw [if_pos zero]
      rfl
    · rw [if_neg zero]
      rfl
  · rw [if_neg all, decide_eq_true (Decidable.of_not_not fun no => all (ones.mpr no))]
    by_cases small : UnpackedFloat.unpackExponent bits = 0#f.exponentBits
    · rw [if_pos small]
      by_cases zero : UnpackedFloat.unpackMantissa bits = 0#f.mantissaBitsWithoutImplicit
      · rw [dif_pos zero]
        rfl
      · rw [dif_neg zero]
        rfl
    · rw [if_neg small]
      rfl

theorem double_isFinite (x : Float) : x.isFinite = BinaryFormat.double.isFinite x.toBits.toNat :=
  unpack_isFinite .binary64 x.toBits.toBitVec

theorem single_isFinite (x : Float32) : x.isFinite = BinaryFormat.single.isFinite x.toBits.toNat :=
  unpack_isFinite .binary32 x.toBits.toBitVec

end Formats
end Montage
