import Mathlib.Algebra.BigOperators.Group.List.Basic
import Montage.Graph.Compile
import Montage.Proofs.Timeline.Grid

/- Stages of a tempo change. A speed that is too far from one is brought nearer by one factor after
   the other; only one of the two loops ever has something to do, and what its factors leave is
   the last stage, or so near to one that nobody hears it. -/
namespace Montage.Graph

/-- A whole run of a loop that takes off a factor as long as a speed is too far from one. -/
inductive TakesOff (factor : Rat) (far : Rat → Prop) : Rat → List Rat → Rat → Prop where
  | ends {rest : Rat} (near : ¬ far rest) : TakesOff factor far rest [] rest
  | again {speed rest : Rat} {stages : List Rat} (off : far speed)
      (tail : TakesOff factor far (speed / factor) stages rest) :
      TakesOff factor far speed (factor :: stages) rest

namespace TakesOff
variable {factor speed rest : Rat} {far : Rat → Prop} {stages : List Rat}

theorem near (h : TakesOff factor far speed stages rest) : ¬ far rest := by
  induction h with
  | ends near => exact near
  | again _ _ ih => exact ih

theorem factors (h : TakesOff factor far speed stages rest) : ∀ stage ∈ stages, stage = factor := by
  induction h with
  | ends => simp
  | again _ _ ih => simpa using ih

theorem product (h : TakesOff factor far speed stages rest) (positive : 0 < factor) :
    stages.prod * rest = speed := by
  induction h with
  | ends => simp
  | again _ _ ih => rw [List.prod_cons, mul_assoc, ih, mul_div_cancel₀ _ positive.ne']

theorem idle (h : TakesOff factor far speed stages rest) (near : ¬ far speed) :
    stages = [] ∧ rest = speed := by
  cases h with
  | ends => simp
  | again off => exact absurd off near

/-- One factor less, and what is left was still too far. -/
theorem last_far (h : TakesOff factor far speed stages rest) (positive : 0 < factor) :
    (stages = [] ∧ rest = speed) ∨ far (rest * factor) := by
  induction h with
  | ends => simp
  | again off _ ih =>
    right
    rcases ih with ⟨-, rfl⟩ | later
    · rwa [div_mul_cancel₀ _ positive.ne']
    · exact later

end TakesOff

theorem halve_succ (fuel : Nat) (speed : Rat) :
    tempoStages.halve (fuel + 1) speed =
      if 2 < speed then
        (2 :: (tempoStages.halve fuel (speed / 2)).1, (tempoStages.halve fuel (speed / 2)).2)
      else ([], speed) := rfl

theorem double_succ (fuel : Nat) (speed : Rat) :
    tempoStages.double (fuel + 1) speed =
      if speed < 1 / 2 then
        (1 / 2 :: (tempoStages.double fuel (speed / (1 / 2))).1,
          (tempoStages.double fuel (speed / (1 / 2))).2)
      else ([], speed) := by
  rw [← Scalar.half_rat]
  rfl

/-- A power of two above the speed bounds how often it is halved. -/
theorem halve_takesOff (fuel : Nat) (speed : Rat) (bound : speed ≤ 2 ^ (fuel + 1)) :
    TakesOff 2 (2 < ·) speed (tempoStages.halve fuel speed).1 (tempoStages.halve fuel speed).2 := by
  induction fuel generalizing speed with
  | zero => exact .ends (by simpa using bound)
  | succ fuel ih =>
    rw [halve_succ]
    split
    · rename_i off
      refine .again off (ih _ ?_)
      rw [pow_succ] at bound
      linarith
    · rename_i near
      exact .ends near

theorem double_takesOff (fuel : Nat) (speed : Rat) (bound : 1 ≤ speed * 2 ^ (fuel + 1)) :
    TakesOff (1 / 2) (· < 1 / 2) speed (tempoStages.double fuel speed).1
      (tempoStages.double fuel speed).2 := by
  induction fuel generalizing speed with
  | zero => exact .ends (by simp at bound; linarith)
  | succ fuel ih =>
    rw [double_succ]
    split
    · rename_i off
      refine .again off (ih _ ?_)
      rw [pow_succ] at bound
      linarith
    · rename_i near
      exact .ends near

theorem le_halvings (x : Rat) : x ≤ 2 ^ (Scalar.halvings x + 1) := by
  have above : x ≤ (⌈x⌉.toNat : Rat) := by
    have whole : ⌈x⌉ ≤ (⌈x⌉.toNat : Int) := Int.self_le_toNat _
    exact (Int.le_ceil x).trans (by exact_mod_cast whole)
  have power : ⌈x⌉.toNat < 2 ^ (⌈x⌉.toNat.log2 + 1) := Nat.lt_log2_self
  have counted : Scalar.halvings x = ⌈x⌉.toNat.log2 + 1 := by
    change x.ceil.toNat.log2 + 1 = _
    rw [Rat.ceil_eq_neg_floor_neg]
    rfl
  rw [counted, pow_succ]
  have wide : (⌈x⌉.toNat : Rat) < 2 ^ (⌈x⌉.toNat.log2 + 1) := by exact_mod_cast power
  linarith

section Stages
variable {speed middle rest : Rat} {fast slow : List Rat}

/-- What has been halved is more than one, so that one loop at most has something to do. -/
theorem one_loop (high : TakesOff 2 (2 < ·) speed fast middle)
    (low : TakesOff (1 / 2) (· < 1 / 2) middle slow rest) :
    (fast = [] ∨ slow = []) ∧ 1 / 2 ≤ rest ∧ rest ≤ 2 := by
  have below := high.near
  have above := low.near
  rcases high.last_far (by norm_num) with ⟨none, -⟩ | halved
  · rcases low.last_far (by norm_num) with ⟨-, rfl⟩ | doubled
    · exact ⟨.inl none, by linarith, by linarith⟩
    · exact ⟨.inl none, by linarith, by linarith⟩
  · obtain ⟨none, rfl⟩ := low.idle (by linarith)
    exact ⟨.inr none, by linarith, by linarith⟩

theorem stages_product (high : TakesOff 2 (2 < ·) speed fast middle)
    (low : TakesOff (1 / 2) (· < 1 / 2) middle slow rest) : (fast ++ slow).prod * rest = speed := by
  rw [List.prod_append, mul_assoc, low.product (by norm_num), high.product (by norm_num)]

/-- Both loops run to their end, and what they leave is the last stage unless it is close to
one. -/
theorem tempoStages_runs (positive : 0 < speed) :
    ∃ fast slow middle rest, TakesOff 2 (2 < ·) speed fast middle ∧
      TakesOff (1 / 2) (· < 1 / 2) middle slow rest ∧
      tempoStages speed = fast ++ slow ++ if |rest - 1| ≤ 1 / 1000000000 then [] else [rest] := by
  have high := halve_takesOff _ speed (le_halvings speed)
  generalize halved : tempoStages.halve (Scalar.halvings speed) speed = halves at high
  obtain ⟨fast, middle⟩ := halves
  have left : 0 < middle := by
    rcases high.last_far (by norm_num) with ⟨-, rfl⟩ | far
    · exact positive
    · linarith
  have low := double_takesOff (Scalar.halvings (1 / middle)) middle (by
    have bound := le_halvings (1 / middle)
    rwa [div_le_iff₀ left, mul_comm] at bound)
  generalize doubled : tempoStages.double (Scalar.halvings (1 / middle)) middle = doubles at low
  obtain ⟨slow, rest⟩ := doubles
  refine ⟨fast, slow, middle, rest, high, low, ?_⟩
  have last : (if closeness < Scalar.abs (rest - 1) then [rest] else []) =
      if |rest - 1| ≤ 1 / 1000000000 then [] else [rest] := by
    rw [closeness_rat, Scalar.abs_rat]
    simp only [← not_lt, ite_not]
  rw [← last, tempoStages, if_pos ⟨rfl, positive⟩, halved]
  change (match tempoStages.double (Scalar.halvings (1 / middle)) middle with
    | (slow, rest) => fast ++ slow ++ if closeness < Scalar.abs (rest - 1) then [rest] else []) = _
  rw [doubled]

/-- The loops end for every positive speed. Each stage is between a half and two, all but the last
are the same one of these two, and the product is the speed: exactly when what the loops leave is a
stage, and else, as that is within a billionth of one, up to a billionth of the product. -/
theorem stages_reproduce_speed (positive : 0 < speed) :
    ∃ fast slow middle rest, TakesOff 2 (2 < ·) speed fast middle ∧
      TakesOff (1 / 2) (· < 1 / 2) middle slow rest ∧
      (tempoStages speed = fast ++ slow ++ if |rest - 1| ≤ 1 / 1000000000 then [] else [rest]) ∧
      (∀ stage ∈ tempoStages speed, 1 / 2 ≤ stage ∧ stage ≤ 2) ∧
      ((∀ stage ∈ (tempoStages speed).dropLast, stage = 2) ∨
        ∀ stage ∈ (tempoStages speed).dropLast, stage = 1 / 2) ∧
      if |rest - 1| ≤ 1 / 1000000000 then
        |speed - (tempoStages speed).prod| ≤ 1 / 1000000000 * (tempoStages speed).prod
      else (tempoStages speed).prod = speed := by
  obtain ⟨fast, slow, middle, rest, high, low, stages⟩ := tempoStages_runs positive
  obtain ⟨one, above, below⟩ := one_loop high low
  have whole := stages_product high low
  refine ⟨fast, slow, middle, rest, high, low, stages, ?_, ?_, ?_⟩
  · intro stage member
    rw [stages, List.mem_append, List.mem_append] at member
    rcases member with (early | late) | last
    · rw [high.factors stage early]
      norm_num
    · rw [low.factors stage late]
      norm_num
    · split at last
      · simp at last
      · rw [List.mem_singleton.mp last]
        exact ⟨above, below⟩
  · have inner : ∀ stage ∈ (tempoStages speed).dropLast, stage ∈ fast ++ slow := by
      intro stage member
      rw [stages] at member
      split at member
      · rw [List.append_nil] at member
        exact List.dropLast_subset _ member
      · rwa [List.dropLast_concat] at member
    rcases one with rfl | rfl
    · right
      intro stage member
      exact low.factors stage (by simpa using inner stage member)
    · left
      intro stage member
      exact high.factors stage (by simpa using inner stage member)
  · split
    · rename_i close
      rw [stages, if_pos close, List.append_nil]
      have times : 0 < (fast ++ slow).prod * rest := whole.symm ▸ positive
      have some : 0 < (fast ++ slow).prod := (mul_pos_iff_of_pos_right (by linarith)).mp times
      calc |speed - (fast ++ slow).prod|
          = |(fast ++ slow).prod * (rest - 1)| := by rw [mul_sub_one, whole]
        _ = |rest - 1| * (fast ++ slow).prod := by rw [abs_mul, abs_of_pos some, mul_comm]
        _ ≤ 1 / 1000000000 * (fast ++ slow).prod := mul_le_mul_of_nonneg_right close some.le
    · rename_i far
      rw [stages, if_neg far, List.prod_append, List.prod_singleton]
      exact whole

/-- A last stage that is left out: what is left of a little more than four is nearly one. -/
theorem stages_reproduce_speed_leftOut :
    (0 : Rat) < 4000000001 / 1000000000 ∧
      tempoStages (4000000001 / 1000000000 : Rat) = [2, 2] ∧
      (∀ stage ∈ ([2, 2] : List Rat), 1 / 2 ≤ stage ∧ stage ≤ 2) ∧
      |(4000000001 / 1000000000 : Rat) - [2, 2].prod| ≤ 1 / 1000000000 * ([2, 2] : List Rat).prod := by
  have positive : (0 : Rat) < 4000000001 / 1000000000 := by norm_num
  have stages : tempoStages (4000000001 / 1000000000 : Rat) = [2, 2] := by decide +kernel
  obtain ⟨_, _, _, _, -, -, -, between, -, product⟩ := stages_reproduce_speed positive
  rw [stages] at between product
  refine ⟨positive, stages, between, ?_⟩
  split at product
  · exact product
  · norm_num at product

end Stages

end Montage.Graph
