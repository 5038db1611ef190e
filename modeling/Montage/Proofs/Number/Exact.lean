import Mathlib.Algebra.Order.Field.Rat
import Mathlib.Data.Rat.Floor
import Mathlib.Tactic.Linarith
import Mathlib.Tactic.NormNum
import Montage.Number.Scalar

/- Scalars as rational numbers: each operation is the usual one. -/
namespace Montage.Scalar

@[simp] theorem max_rat (a b : Rat) : Scalar.max a b = Max.max a b := by
  change (if a < b then b else if b < a then a else if a ≤ b then
    (if decide (a ≤ b) = true then b else a) else if a ≤ a then a else b) = Max.max a b
  rcases lt_trichotomy a b with less | same | more
  · simp [less, less.le]
  · simp [same]
  · simp [more, more.le, not_lt.mpr more.le]

@[simp] theorem min_rat (a b : Rat) : Scalar.min a b = Min.min a b := by
  change (if a < b then a else if b < a then b else if a ≤ b then
    (if decide (a ≤ b) = true then a else b) else if a ≤ a then a else b) = Min.min a b
  rcases lt_trichotomy a b with less | same | more
  · simp [less, less.le]
  · simp [same]
  · simp [more, more.le, not_lt.mpr more.le]

@[simp] theorem abs_rat (a : Rat) : Scalar.abs a = |a| := by
  change (if a < 0 then -a else a) = |a|
  split
  · rename_i negative
    exact (abs_of_neg negative).symm
  · rename_i positive
    exact (abs_of_nonneg (not_lt.mp positive)).symm

@[simp] theorem totalLe_rat (a b : Rat) : Scalar.totalLe a b = decide (a ≤ b) := rfl

theorem clamp_rat (lo hi x : Rat) :
    Scalar.clamp lo hi x = if x < lo then lo else if hi < x then hi else x := rfl

theorem clamp_between {lo hi : Rat} (ordered : lo ≤ hi) (x : Rat) :
    Scalar.clamp lo hi x = Max.max lo (Min.min x hi) := by
  rw [clamp_rat]
  split
  · rename_i low
    exact (max_eq_left ((min_le_left _ _).trans low.le)).symm
  · rename_i low
    split
    · rename_i high
      rw [min_eq_right high.le, max_eq_right ordered]
    · rename_i high
      rw [min_eq_left (not_lt.mp high), max_eq_right (not_lt.mp low)]

theorem low_le_clamp {lo hi : Rat} (ordered : lo ≤ hi) (x : Rat) : lo ≤ Scalar.clamp lo hi x := by
  rw [clamp_between ordered]
  exact le_max_left _ _

/-- Rounding gives a whole number at most a half away. -/
theorem round_rat (x : Rat) :
    ∃ n : Int, Scalar.round x = (n : Rat) ∧ (n : Rat) - x ≤ 1 / 2 ∧ x - n ≤ 1 / 2 := by
  by_cases negative : x < 0
  · refine ⟨-⌊-x + 1 / 2⌋, ?_, ?_, ?_⟩
    · change (if x < 0 then -((-x + 1 / 2).floor : Rat) else ((x + 1 / 2).floor : Rat)) = _
      rw [if_pos negative]
      push_cast
      rfl
    · have above := Int.lt_floor_add_one (-x + 1 / 2)
      push_cast
      linarith
    · have below := Int.floor_le (-x + 1 / 2)
      push_cast
      linarith
  · refine ⟨⌊x + 1 / 2⌋, ?_, ?_, ?_⟩
    · change (if x < 0 then -((-x + 1 / 2).floor : Rat) else ((x + 1 / 2).floor : Rat)) = _
      rw [if_neg negative]
      rfl
    · have below := Int.floor_le (x + 1 / 2)
      linarith
    · have above := Int.lt_floor_add_one (x + 1 / 2)
      linarith

/-- A whole number more rounds to a whole number more. -/
theorem round_add_nat {x : Rat} (low : 0 ≤ x) (n : Nat) :
    Scalar.round (x + n) = Scalar.round x + n := by
  have above : 0 ≤ x + n := add_nonneg low (Nat.cast_nonneg n)
  change (if x + n < 0 then _ else ((x + n + 1 / 2).floor : Rat)) =
    (if x < 0 then _ else ((x + 1 / 2).floor : Rat)) + n
  rw [if_neg above.not_gt, if_neg low.not_gt, add_right_comm]
  change ((⌊x + 1 / 2 + (n : Rat)⌋ : Int) : Rat) = ((⌊x + 1 / 2⌋ : Int) : Rat) + n
  rw [Int.floor_add_natCast]
  push_cast
  rfl

theorem round_nat (n : Nat) : Scalar.round (n : Rat) = n := by
  have moved := round_add_nat (le_refl 0) n
  have nothing : Scalar.round (0 : Rat) = 0 := by decide +kernel
  rwa [zero_add, nothing, zero_add] at moved

theorem round_nonneg {x : Rat} (low : 0 ≤ x) : 0 ≤ Scalar.round x := by
  change 0 ≤ (if x < 0 then _ else ((x + 1 / 2).floor : Rat))
  rw [if_neg low.not_gt]
  have floor : 0 ≤ ⌊x + 1 / 2⌋ := Int.floor_nonneg.mpr (by linarith)
  exact_mod_cast floor

theorem ceil_rat (x : Rat) : Scalar.ceil x = ((⌈x⌉ : Int) : Rat) := by
  change ((x.ceil : Int) : Rat) = _
  rw [Rat.ceil_eq_neg_floor_neg]
  rfl

theorem floor_rat (x : Rat) : Scalar.floor x = ((⌊x⌋ : Int) : Rat) := rfl

theorem towardZero_whole (n : Int) : towardZero (n : Rat) = n := by
  unfold towardZero
  split
  · rw [← Int.cast_neg, Rat.floor_intCast, neg_neg]
  · exact Rat.floor_intCast n

/-- A whole number as a count: none below zero, and no more than a 64-bit word holds. -/
theorem toCount_whole (n : Int) : Scalar.toCount ((n : Int) : Rat) = Min.min n.toNat (twoTo 64 - 1) := by
  change (boundInt 0 (unsignedMax 64) (towardZero (n : Rat))).toNat = _
  rw [towardZero_whole, boundInt, unsignedMax]
  split
  · omega
  · split
    · omega
    · omega

theorem ofNat_rat (n : Nat) : Scalar.ofNat n = (n : Rat) := Int.cast_natCast n

theorem half_rat : (Scalar.literal 5 true 1 : Rat) = 1 / 2 := by
  decide +kernel

theorem centre_rat (n : Nat) :
    Scalar.ofNat n + (Scalar.literal 5 true 1 : Rat) = n + 1 / 2 := by
  rw [ofNat_rat, half_rat]

/-- A choice between numbers, repeated along a list, comes before all of them in any order in which
it comes before its two. -/
theorem foldl_before {before : Rat → Rat → Prop} {choose : Rat → Rat → Rat}
    (refl : ∀ a, before a a) (trans : ∀ {a b c}, before a b → before b c → before a c)
    (one : ∀ a b, before (choose a b) a) (two : ∀ a b, before (choose a b) b) {c : Rat}
    {cs : List Rat} : ∀ a ∈ c :: cs, before (cs.foldl choose c) a := by
  induction cs generalizing c with
  | nil =>
    intro a member
    rw [List.mem_singleton.mp member]
    exact refl c
  | cons d cs ih =>
    intro a member
    have chosen : before ((d :: cs).foldl choose c) (choose c d) := ih _ List.mem_cons_self
    rcases List.mem_cons.mp member with rfl | member
    · exact trans chosen (one a d)
    · rcases List.mem_cons.mp member with rfl | member
      · exact trans chosen (two c a)
      · exact ih a (List.mem_cons_of_mem _ member)

theorem foldl_min_le {c : Rat} {cs : List Rat} : ∀ a ∈ c :: cs, cs.foldl Scalar.min c ≤ a :=
  foldl_before le_refl le_trans (fun a b => (min_rat a b).trans_le (min_le_left a b))
    fun a b => (min_rat a b).trans_le (min_le_right a b)

theorem le_foldl_max {c : Rat} {cs : List Rat} : ∀ a ∈ c :: cs, a ≤ cs.foldl Scalar.max c :=
  @foldl_before (fun a b => b ≤ a) Scalar.max le_refl (fun h k => k.trans h)
    (fun a b => (le_max_left a b).trans_eq (max_rat a b).symm)
    (fun a b => (le_max_right a b).trans_eq (max_rat a b).symm) c cs

end Montage.Scalar
