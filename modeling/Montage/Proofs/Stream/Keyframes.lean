import Montage.Codec.Sample
import Mathlib.Data.List.TakeWhile
import Mathlib.Order.Bounds.Basic

/- Where a table's keyframes are, which of them a target leads to, and where their groups end. A
   target reaches the places up to which no sample is later than it, in decode order. -/
namespace Montage.Sample

theorem mem_keyframes {table : List Sample} {k : Nat} :
    k ∈ keyframes table ↔ ∃ x, table[k]? = some x ∧ x.keyframe = true := by
  simp only [keyframes, List.mem_map, List.mem_filter, Prod.exists, List.mem_zipIdx_iff_getElem?]
  constructor
  · rintro ⟨x, i, ⟨stands, keyframe⟩, rfl⟩
    exact ⟨x, stands, keyframe⟩
  · rintro ⟨x, stands, keyframe⟩
    exact ⟨x, k, ⟨stands, keyframe⟩, rfl⟩

theorem keyframe_lt {table : List Sample} {k : Nat} (member : k ∈ keyframes table) :
    k < table.length := by
  obtain ⟨x, stands, _⟩ := mem_keyframes.mp member
  exact (List.getElem?_eq_some_iff.mp stands).1

theorem keyframes_sorted (table : List Sample) : (keyframes table).Pairwise (· < ·) := by
  have all : (table.zipIdx.map (·.2)).Pairwise (· < ·) := by
    simp only [List.zipIdx_map_snd]
    exact List.pairwise_lt_range'
  exact all.sublist (List.filter_sublist.map _)

theorem keyframes_head {table : List Sample} {first : Nat} :
    (keyframes table).head? = some first ↔ IsLeast {k | k ∈ keyframes table} first := by
  have sorted := keyframes_sorted table
  generalize keyframes table = ks at *
  cases ks with
  | nil => simp [IsLeast]
  | cons k ks =>
    have above := (List.pairwise_cons.mp sorted).1
    have least : IsLeast {j | j ∈ k :: ks} k := by
      refine ⟨List.mem_cons_self, fun j member => ?_⟩
      rcases List.mem_cons.mp member with rfl | later
      · exact le_refl _
      · exact (above j later).le
    rw [List.head?_cons, Option.some.injEq]
    exact ⟨fun same => same ▸ least, least.unique⟩

theorem exists_first_keyframe {table : List Sample} (some_keyframe : keyframes table ≠ []) :
    ∃ first, IsLeast {k | k ∈ keyframes table} first := by
  obtain ⟨first, rest, whole⟩ := List.exists_cons_of_ne_nil some_keyframe
  exact ⟨first, keyframes_head.mp (by rw [whole, List.head?_cons])⟩

/-- No sample up to this place is later than the target. -/
def Reached (table : List Sample) (target : Int) (k : Nat) : Prop :=
  ∀ i ≤ k, ∀ y, table[i]? = some y → y.timestamp ≤ target

theorem Reached.onward {table : List Sample} {early late : Int} {k : Nat} (order : early ≤ late)
    (reached : Reached table early k) : Reached table late k :=
  fun i before y stands => (reached i before y stands).trans order

/-- The samples before the first later one hold the keyframes that a target reaches. -/
theorem mem_keyframes_takeWhile {table : List Sample} {target : Int} {k : Nat} :
    k ∈ keyframes (table.takeWhile fun s => decide (s.timestamp ≤ target)) ↔
      k ∈ keyframes table ∧ Reached table target k := by
  rw [mem_keyframes, mem_keyframes]
  constructor
  · rintro ⟨x, stands, keyframe⟩
    have inside := (List.getElem?_eq_some_iff.mp stands).1
    obtain ⟨rest, whole⟩ := List.takeWhile_prefix (fun s : Sample => decide (s.timestamp ≤ target))
      (l := table)
    have front : ∀ i ≤ k, table[i]? =
        (table.takeWhile fun s => decide (s.timestamp ≤ target))[i]? := by
      intro i before
      conv_lhs => rw [← whole]
      exact List.getElem?_append_left (before.trans_lt inside)
    refine ⟨⟨x, (front k (le_refl k)).trans stands, keyframe⟩, fun i before y there => ?_⟩
    rw [front i before] at there
    have early := List.mem_takeWhile_imp (List.mem_of_getElem? there)
    exact of_decide_eq_true early
  · rintro ⟨⟨x, stands, keyframe⟩, reached⟩
    have early : ∀ y ∈ table.take (k + 1), decide (y.timestamp ≤ target) = true := by
      intro y member
      obtain ⟨i, there⟩ := List.mem_iff_getElem?.mp member
      rw [List.getElem?_take] at there
      split at there
      · exact decide_eq_true (reached i (by omega) y there)
      · cases there
    have front : (table.take (k + 1))[k]? = some x := by
      rw [List.getElem?_take_of_lt (Nat.lt_succ_self k)]
      exact stands
    refine ⟨x, ?_, keyframe⟩
    rw [← List.take_append_drop (k + 1) table, List.takeWhile_append_of_pos early,
      List.getElem?_append_left (List.getElem?_eq_some_iff.mp front).1]
    exact front

/-- A target leads to the last keyframe that it reaches. -/
theorem keyframeAtOrBefore_isGreatest {table : List Sample} {target : Int} {j : Nat}
    (member : j ∈ keyframes table) (reached : Reached table target j) :
    IsGreatest {k | k ∈ keyframes table ∧ Reached table target k}
      (keyframeAtOrBefore table target) := by
  have sorted := keyframes_sorted (table.takeWhile fun s => decide (s.timestamp ≤ target))
  have reach : ∀ k, k ∈ keyframes (table.takeWhile fun s => decide (s.timestamp ≤ target)) ↔
      k ∈ keyframes table ∧ Reached table target k := fun _ => mem_keyframes_takeWhile
  rw [keyframeAtOrBefore]
  generalize keyframes (table.takeWhile fun s => decide (s.timestamp ≤ target)) = ks at *
  cases last : ks.getLast? with
  | none =>
    have some_reached := (reach j).mpr ⟨member, reached⟩
    simp [List.getLast?_eq_none_iff.mp last] at some_reached
  | some k =>
    obtain ⟨before, rfl⟩ := List.getLast?_eq_some_iff.mp last
    refine ⟨(reach k).mp (List.mem_of_getLast? last), fun i also => ?_⟩
    rcases List.mem_append.mp ((reach i).mpr also) with early | same
    · exact ((List.pairwise_append.mp sorted).2.2 i early k List.mem_cons_self).le
    · exact (List.mem_singleton.mp same).le

theorem keyframes_takeWhile_nil {table : List Sample} {target : Int}
    (unreached : ∀ k ∈ keyframes table, ¬ Reached table target k) :
    keyframes (table.takeWhile fun s => decide (s.timestamp ≤ target)) = [] := by
  refine List.eq_nil_iff_forall_not_mem.mpr fun k member => ?_
  obtain ⟨listed, reached⟩ := mem_keyframes_takeWhile.mp member
  exact unreached k listed reached

/-- Where a target reaches no keyframe, it leads to the first. -/
theorem keyframeAtOrBefore_unreached {table : List Sample} {target : Int} {first : Nat}
    (least : IsLeast {k | k ∈ keyframes table} first)
    (unreached : ∀ k ∈ keyframes table, ¬ Reached table target k) :
    keyframeAtOrBefore table target = first := by
  simp [keyframeAtOrBefore, keyframes_takeWhile_nil unreached, keyframes_head.mpr least]

theorem keyframeAtOrBefore_keyless {table : List Sample} (none : keyframes table = [])
    (target : Int) : keyframeAtOrBefore table target = 0 := by
  have unreached : ∀ k ∈ keyframes table, ¬ Reached table target k := by simp [none]
  simp [keyframeAtOrBefore, keyframes_takeWhile_nil unreached, none]

/-- A target leads to a keyframe as soon as the table has one. -/
theorem keyframeAtOrBefore_mem {table : List Sample} (target : Int)
    (some_keyframe : keyframes table ≠ []) :
    keyframeAtOrBefore table target ∈ keyframes table := by
  by_cases some_reached : ∃ k ∈ keyframes table, Reached table target k
  · obtain ⟨k, member, reached⟩ := some_reached
    exact (keyframeAtOrBefore_isGreatest member reached).1.1
  · obtain ⟨first, least⟩ := exists_first_keyframe some_keyframe
    rw [keyframeAtOrBefore_unreached least (by simpa using some_reached)]
    exact least.1

/-- A target leads past no keyframe that it reaches. -/
theorem le_keyframeAtOrBefore {table : List Sample} {target : Int} {k : Nat}
    (member : k ∈ keyframes table) (reached : Reached table target k) :
    k ≤ keyframeAtOrBefore table target :=
  (keyframeAtOrBefore_isGreatest member reached).2 ⟨member, reached⟩

/-- A later target does not lead further back. -/
theorem keyframeAtOrBefore_mono (table : List Sample) {early late : Int} (order : early ≤ late) :
    keyframeAtOrBefore table early ≤ keyframeAtOrBefore table late := by
  by_cases some_keyframe : keyframes table = []
  · rw [keyframeAtOrBefore_keyless some_keyframe]
    exact Nat.zero_le _
  · by_cases some_reached : ∃ k ∈ keyframes table, Reached table early k
    · obtain ⟨k, member, reached⟩ := some_reached
      obtain ⟨listed, there⟩ := (keyframeAtOrBefore_isGreatest member reached).1
      exact le_keyframeAtOrBefore listed (there.onward order)
    · obtain ⟨first, least⟩ := exists_first_keyframe some_keyframe
      rw [keyframeAtOrBefore_unreached least (by simpa using some_reached)]
      exact least.2 (keyframeAtOrBefore_mem late some_keyframe)

/-- Where a keyframe starts the table, a target from its time on leads to a keyframe that is not
later than the target. -/
theorem keyframeAtOrBefore_reached {table : List Sample} {x : Sample} {target : Int}
    (opens : table.head? = some x) (keyframe : x.keyframe = true) (late : x.timestamp ≤ target) :
    ∃ y, table[keyframeAtOrBefore table target]? = some y ∧ y.keyframe = true ∧
      y.timestamp ≤ target := by
  rw [List.head?_eq_getElem?] at opens
  have reached : Reached table target 0 := by
    intro i start y stands
    rw [Nat.le_zero.mp start, opens] at stands
    cases stands
    exact late
  have member := mem_keyframes.mpr ⟨x, opens, keyframe⟩
  obtain ⟨listed, there⟩ := (keyframeAtOrBefore_isGreatest member reached).1
  obtain ⟨y, stands, key⟩ := mem_keyframes.mp listed
  exact ⟨y, stands, key, there _ (le_refl _) y stands⟩

theorem keyframeAtOrBefore_le (table : List Sample) (target : Int) :
    keyframeAtOrBefore table target ≤ table.length := by
  by_cases none : keyframes table = []
  · rw [keyframeAtOrBefore_keyless none]
    exact Nat.zero_le _
  · exact (keyframe_lt (keyframeAtOrBefore_mem target none)).le

theorem groupEnd_le (table : List Sample) (k : Nat) : groupEnd table k ≤ table.length := by
  unfold groupEnd
  cases found : (keyframes table).find? fun j => decide (k < j) with
  | none => exact le_refl _
  | some j => exact (keyframe_lt (List.mem_of_find?_eq_some found)).le

theorem le_groupEnd {table : List Sample} {k : Nat} (inside : k ≤ table.length) :
    k ≤ groupEnd table k := by
  unfold groupEnd
  cases found : (keyframes table).find? fun j => decide (k < j) with
  | none => exact inside
  | some j =>
    have later := List.find?_some found
    exact (of_decide_eq_true later).le

/-- A group ends after the keyframe that opens it. -/
theorem lt_groupEnd {table : List Sample} {k : Nat} (inside : k < table.length) :
    k < groupEnd table k := by
  unfold groupEnd
  cases found : (keyframes table).find? fun j => decide (k < j) with
  | none => exact inside
  | some j =>
    have later := List.find?_some found
    exact of_decide_eq_true later

/-- A group that ends inside the table ends where a keyframe is. -/
theorem groupEnd_mem {table : List Sample} {k : Nat} (inside : groupEnd table k < table.length) :
    groupEnd table k ∈ keyframes table := by
  unfold groupEnd at inside ⊢
  cases found : (keyframes table).find? fun j => decide (k < j) with
  | none =>
    rw [found] at inside
    exact absurd inside (lt_irrefl _)
  | some j => exact List.mem_of_find?_eq_some found

/-- No later keyframe is inside a group. -/
theorem groupEnd_le_keyframe {table : List Sample} {k j : Nat} (later : k < j)
    (member : j ∈ keyframes table) : groupEnd table k ≤ j := by
  have sorted := keyframes_sorted table
  unfold groupEnd
  cases found : (keyframes table).find? fun j => decide (k < j) with
  | none =>
    have earlier := List.find?_eq_none.mp found j member
    simp [later] at earlier
  | some next =>
    obtain ⟨-, before, after, whole, skipped⟩ := List.find?_eq_some_iff_append.mp found
    rw [whole] at member sorted
    rcases List.mem_append.mp member with early | listed
    · have missed := skipped j early
      simp [later] at missed
    · rcases List.mem_cons.mp listed with rfl | beyond
      · exact le_refl _
      · have order := (List.pairwise_append.mp sorted).2.1
        exact ((List.pairwise_cons.mp order).1 j beyond).le

end Montage.Sample
