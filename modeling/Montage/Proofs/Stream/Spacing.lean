import Mathlib.Tactic.Linarith
import Montage.Proofs.Stream.Calls
import Montage.Proofs.Stream.Capacity

/- Tables whose samples are evenly spaced and begin with a keyframe: what a slot derives from
   them, and where a target leads. -/
namespace Montage

theorem spaced_add (step : Int) (i j : Nat) :
    ((i + j : Nat) : Int) * step = i * step + j * step := by
  rw [Int.natCast_add, Int.add_mul]

theorem spaced_succ (step : Int) (i : Nat) : ((i + 1 : Nat) : Int) * step = i * step + step := by
  rw [spaced_add, Int.natCast_one, Int.one_mul]

theorem spaced_le {step : Int} (positive : 0 < step) {i j : Nat} (ordered : i ≤ j) :
    (i : Int) * step ≤ j * step :=
  Int.mul_le_mul_of_nonneg_right (by omega) positive.le

theorem spaced_lt {step : Int} (positive : 0 < step) {i j : Nat} (ordered : i < j) :
    (i : Int) * step + step ≤ j * step := by
  rw [← spaced_succ]
  exact spaced_le positive ordered

structure Spaced (table : List Sample) (first step : Int) : Prop where
  positive : 0 < step
  opens : ∃ x, table[0]? = some x ∧ x.keyframe = true
  regular : ∀ (i : Nat) (x : Sample), table[i]? = some x →
    x.timestamp = first + i * step ∧ x.duration = step ∧ x.payload.length = 8

namespace Spaced
variable {table : List Sample} {first step : Int}

theorem keyframes_nonempty (h : Spaced table first step) : Sample.keyframes table ≠ [] := by
  have member := Sample.mem_keyframes.mpr h.opens
  exact List.ne_nil_of_mem member

theorem nonempty (h : Spaced table first step) : 0 < table.length := by
  obtain ⟨x, stands, -⟩ := h.opens
  exact (List.getElem?_eq_some_iff.mp stands).1

theorem nominal (h : Spaced table first step) : Sample.nominalDuration table = step := by
  have positive := h.positive
  obtain ⟨x, stands, -⟩ := h.opens
  have long := (h.regular 0 x stands).2.1
  cases table with
  | nil => simp at stands
  | cons y rest =>
    simp only [List.getElem?_cons_zero, Option.some.injEq] at stands
    rw [stands]
    simp [Sample.nominalDuration, long, positive]

theorem time (h : Spaced table first step) {i : Nat} {x : Sample} (stands : table[i]? = some x) :
    x.timestamp = first + i * step :=
  (h.regular i x stands).1

/-- A target that is not before the first sample leads to a keyframe that is not after it. -/
theorem keyframe_before (h : Spaced table first step) {target : Int} (late : first ≤ target) :
    Sample.keyframeAtOrBefore table target < table.length ∧
      first + Sample.keyframeAtOrBefore table target * step ≤ target := by
  obtain ⟨x, stands, keyframe⟩ := h.opens
  obtain ⟨y, reached, -, before⟩ :=
    Sample.keyframeAtOrBefore_reached (List.head?_eq_getElem?.trans stands) keyframe
      (show x.timestamp ≤ target by rw [h.time stands]; simpa using late)
  rw [h.time reached] at before
  exact ⟨(List.getElem?_eq_some_iff.mp reached).1, before⟩

/-- A sample with a positive duration spares the steps between the samples. -/
theorem measured_eq (h : Spaced table first step) : Sample.measured table = [] := by
  obtain ⟨x, stands, -⟩ := h.opens
  have long : 0 < x.duration := (h.regular 0 x stands).2.1 ▸ h.positive
  have found : (table.any fun s => decide (0 < s.duration)) = true :=
    List.any_eq_true.mpr ⟨x, List.mem_of_getElem? stands, decide_eq_true long⟩
  simp [Sample.measured, found]

theorem floor_eq (h : Spaced table first step) (tuning : SlotTuning) (target : Int) :
    Slot.floorAt table false tuning target = target - max tuning.tolerance step := by
  simp [Slot.floorAt, Sample.earliest, h.nominal]

theorem window_eq (h : Spaced table first step) (tuning : SlotTuning) :
    Slot.window table tuning = tuning.lookahead + max tuning.tolerance step := by
  rw [Slot.window, h.nominal]

/-- The queue holds what a lookahead reaches, and two frames more. -/
theorem capacity_covers (h : Spaced table first step) {tuning : SlotTuning}
    (ahead : 0 ≤ tuning.lookahead) (window : Fits (tuning.lookahead + max tuning.tolerance step)) :
    tuning.lookahead + 2 * step < (Slot.capacity table false tuning : Int) * step := by
  have positive := h.positive
  have margin : step ≤ max tuning.tolerance step := le_max_right _ _
  have split := Int.lt_ediv_add_one_mul_self (tuning.lookahead + max tuning.tolerance step) positive
  have whole : (Slot.capacity table false tuning : Int) =
      (tuning.lookahead + max tuning.tolerance step) / step + tuning.depth + 2 := by
    rw [Slot.capacity_eq_room ahead (by rw [h.nominal]; exact positive)
      (.inr (by rw [h.window_eq]; exact window))]
    simp [Slot.room, h.nominal]
  rw [whole]
  have depth : 0 ≤ (tuning.depth : Int) * step := by positivity
  nlinarith

end Spaced
end Montage
