import Montage.Proofs.Number.Word
import Montage.Stream.Slot

/- How many frames the queue of a slot holds. A slot is opened only if its window and its capacity are
   words; then the capacity is the number that is meant. -/
namespace Montage.Slot

/-- Frames that the queue of a slot is to hold, as a number without a bound. -/
def room (table : List Sample) (reverse : Bool) (tuning : SlotTuning) : Int :=
  (if reverse then (Sample.longestGroup table : Int)
    else (tuning.lookahead + max tuning.tolerance (Sample.nominalDuration table)) /
      Sample.nominalDuration table) + tuning.depth + 2

section
variable {table : List Sample} {reverse : Bool} {tuning : SlotTuning} {target : Int}

theorem capacity_eq_room (ahead : 0 ≤ tuning.lookahead) (positive : 0 < Sample.nominalDuration table)
    (fits : reverse = true ∨ Fits (window table tuning)) :
    (capacity table reverse tuning : Int) = room table reverse tuning := by
  cases reverse with
  | true => simp [capacity, room]
  | false =>
    have wide : Fits (window table tuning) := by simpa using fits
    have high := wide.high
    unfold window at high
    simp only [capacity, room, window, Bool.false_eq_true, if_false,
      show Sample.nominalDuration table ≠ 0 by omega]
    generalize Sample.nominalDuration table = frame at *
    have natural : 0 ≤ tuning.lookahead + max tuning.tolerance frame := by omega
    have fewer := Int.ediv_le_self frame natural
    have frames : (asUnsigned (Int.tdiv (tuning.lookahead + max tuning.tolerance frame) frame) : Int) =
        (tuning.lookahead + max tuning.tolerance frame) / frame := by
      rw [Int.tdiv_eq_ediv_of_nonneg natural]
      exact asUnsigned_fits (Int.ediv_nonneg natural (by omega)) (by omega)
    rw [← frames]
    rfl

/-- A slot can be opened exactly when the four numbers that are reckoned for it are words. -/
theorem opens_iff (ahead : 0 ≤ tuning.lookahead) (positive : 0 < Sample.nominalDuration table) :
    Opens table reverse tuning target ↔
      (∀ step ∈ Sample.measured table, Fits step) ∧
      (reverse = true ∨ Fits (window table tuning)) ∧
      room table reverse tuning < 18446744073709551616 ∧
      Fits (Sample.earliest table reverse target -
        max tuning.tolerance (Sample.nominalDuration table)) := by
  have size : twoTo 64 = 18446744073709551616 := by decide
  constructor
  · intro opens
    have wide : reverse = true ∨ Fits (window table tuning) := by
      cases reverse with
      | true => exact .inl rfl
      | false => exact .inr (opens.window rfl (by omega))
    have small := opens.capacity
    have same := capacity_eq_room ahead positive wide
    exact ⟨opens.steps, wide, by omega, opens.floor⟩
  · rintro ⟨steps, wide, small, floor⟩
    have same := capacity_eq_room ahead positive wide
    refine ⟨steps, ?_, by omega, floor⟩
    intro forward _
    rcases wide with reversed | fits
    · rw [forward] at reversed
      cases reversed
    · exact fits

end

end Montage.Slot
