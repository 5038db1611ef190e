import Montage.Proofs.Stream.Keyframes
import Mathlib.Order.Lattice

/- Groups of pictures: which samples they have, and that none has more than the longest. -/
namespace Montage.Sample

def group (table : List Sample) (k : Nat) : List Sample := (table.take (groupEnd table k)).drop k

theorem group_length (table : List Sample) (k : Nat) :
    (group table k).length = groupEnd table k - k := by
  rw [group, List.length_drop, List.length_take, Nat.min_eq_left (groupEnd_le table k)]

theorem nominalDuration_nonneg (table : List Sample) : 0 ≤ nominalDuration table := by
  have positive : ∀ (ds : List Int) (d : Int), ds.find? (fun d => decide (0 < d)) = some d →
      0 < d := by
    intro ds d found
    simpa using List.find?_some found
  unfold nominalDuration
  generalize steps table = steps
  cases first : (table.map (·.duration)).find? fun d => decide (0 < d) with
  | some d => exact (positive _ d first).le
  | none =>
    cases second : steps.find? fun d => decide (0 < d) with
    | some d => exact (positive _ d second).le
    | none => exact le_refl _

/-- The distance from a keyframe to the next, or to the end, is one of the gaps. -/
theorem gap_after {first stop k : Nat} {ks : List Nat} (sorted : (first :: ks).Pairwise (· < ·))
    (member : k ∈ first :: ks) :
    (ks.find? fun j => decide (k < j)).getD stop - k ∈ gaps (first :: ks ++ [stop]) := by
  induction ks generalizing first with
  | nil =>
    rw [List.mem_singleton.mp member]
    simp [gaps]
  | cons next ks ih =>
    obtain ⟨above, rest⟩ := List.pairwise_cons.mp sorted
    have order := above next List.mem_cons_self
    have form : gaps (first :: next :: ks ++ [stop]) =
        (next - first) :: gaps (next :: ks ++ [stop]) := rfl
    rw [form]
    rcases List.mem_cons.mp member with rfl | later
    · rw [List.find?_cons_of_pos (by simpa using order)]
      exact List.mem_cons_self
    · have before : ¬ k < next := by
        rcases List.mem_cons.mp later with rfl | beyond
        · exact lt_irrefl _
        · have := (List.pairwise_cons.mp rest).1 k beyond
          omega
      rw [List.find?_cons_of_neg (by simpa using before)]
      exact List.mem_cons_of_mem _ (ih rest later)

/-- No group is longer than the longest, wherever the first one starts. -/
theorem group_longest {table : List Sample} {k : Nat} (member : k ∈ keyframes table) :
    (group table k).length ≤ longestGroup table := by
  have sorted := keyframes_sorted table
  rw [group_length, groupEnd, longestGroup]
  generalize keyframes table = ks at *
  -- a keyframe at the start is a bound all the same, and no search for a later one finds it
  have later : (ks.find? fun j => decide (k < j)) =
      (ks.filter fun j => decide (0 < j)).find? fun j => decide (k < j) := by
    rw [List.find?_filter]
    congr 1
    funext j
    by_cases beyond : k < j
    · simp [beyond, Nat.zero_lt_of_lt beyond]
    · simp [beyond]
  have bounds : (0 :: ks.filter fun j => decide (0 < j)).Pairwise (· < ·) :=
    List.pairwise_cons.mpr
      ⟨fun j listed => of_decide_eq_true (List.mem_filter.mp listed).2, sorted.filter _⟩
  have listed : k ∈ 0 :: ks.filter fun j => decide (0 < j) := by
    rcases Nat.eq_zero_or_pos k with rfl | positive
    · exact List.mem_cons_self
    · exact List.mem_cons_of_mem _ (List.mem_filter.mpr ⟨member, decide_eq_true positive⟩)
  rw [later, List.foldl_max]
  exact (List.le_max?_getD_of_mem (gap_after bounds listed)).trans (le_max_right _ _)

end Montage.Sample
