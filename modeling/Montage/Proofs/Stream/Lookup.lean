import Montage.Proofs.Stream.Groups

/- Where targets lead in a table, and how its groups divide it, whatever the order of its samples. A
   lookup ends at the first sample that is later than its target and misses the keyframes behind it.
   No target misses one where no keyframe but the first comes after a later sample. -/
namespace Montage.Sample

def Keyed (table : List Sample) (k : Nat) : Prop := ∃ x, table[k]? = some x ∧ x.keyframe = true

/-- No sample before this place is later than the one there. -/
def Latest (table : List Sample) (k : Nat) : Prop :=
  ∀ x, table[k]? = some x → ∀ i < k, ∀ y, table[i]? = some y → y.timestamp ≤ x.timestamp

/-- The keyframes that are not later than a target. -/
def timely (table : List Sample) (target : Int) : Set Nat :=
  {k | ∃ x, table[k]? = some x ∧ x.keyframe = true ∧ x.timestamp ≤ target}

/-- The last keyframe that is not later than a target or, where all are later, the first. -/
def LastTimely (table : List Sample) (target : Int) (k : Nat) : Prop :=
  IsGreatest (timely table target) k ∨ timely table target = ∅ ∧ IsLeast {j | Keyed table j} k

variable {table : List Sample} {target : Int} {first k i : Nat}

theorem keyed_iff : Keyed table k ↔ k ∈ keyframes table := mem_keyframes.symm

theorem least_iff : IsLeast {j | Keyed table j} first ↔ IsLeast {j | j ∈ keyframes table} first := by
  simp only [keyed_iff]

theorem keyed_of_timely (early : k ∈ timely table target) : Keyed table k := by
  obtain ⟨x, stands, keyframe, -⟩ := early
  exact ⟨x, stands, keyframe⟩

theorem timely_of_reached (keyed : Keyed table k) (reached : Reached table target k) :
    k ∈ timely table target := by
  obtain ⟨x, stands, keyframe⟩ := keyed
  exact ⟨x, stands, keyframe, reached k (le_refl k) x stands⟩

theorem Latest.reached (latest : Latest table k) (early : k ∈ timely table target) :
    Reached table target k := by
  obtain ⟨x, stands, -, time⟩ := early
  intro i before y there
  rcases Nat.lt_or_eq_of_le before with earlier | rfl
  · exact (latest x stands i earlier y there).trans time
  · rw [stands] at there
    cases there
    exact time

/-- Where each keyframe but the first is the latest sample so far, a target reaches all keyframes
that are not later, but perhaps the first, and it leads to that one anyway. -/
theorem lastTimely_of_latest (least : IsLeast {j | Keyed table j} first)
    (latest : ∀ k, Keyed table k → k ≠ first → Latest table k) (target : Int) :
    LastTimely table target (keyframeAtOrBefore table target) := by
  have opens := least_iff.mp least
  have member := keyframeAtOrBefore_mem target (List.ne_nil_of_mem opens.1)
  have top : ∀ k ∈ timely table target, k ≤ keyframeAtOrBefore table target := by
    intro k early
    have keyed := keyed_of_timely early
    by_cases same : k = first
    · rw [same]
      exact opens.2 member
    · exact le_keyframeAtOrBefore (keyed_iff.mp keyed) ((latest k keyed same).reached early)
  by_cases early : keyframeAtOrBefore table target ∈ timely table target
  · exact .inl ⟨early, top⟩
  · -- a keyframe that is reached would be led to, and would not be later
    have unreached : ∀ k ∈ keyframes table, ¬ Reached table target k := by
      intro k listed reached
      obtain ⟨found, there⟩ := (keyframeAtOrBefore_isGreatest listed reached).1
      exact early (timely_of_reached (keyed_iff.mpr found) there)
    rw [keyframeAtOrBefore_unreached opens unreached] at early top ⊢
    refine .inr ⟨Set.eq_empty_iff_forall_notMem.mpr fun k also => early ?_, least⟩
    rw [(least.2 (keyed_of_timely also)).antisymm (top k also)]
    exact also

/-- From the first keyframe on, each place is in the group of some keyframe: where a group ends
the next one starts. -/
theorem exists_group (keyed : Keyed table first) (low : first ≤ i) (high : i < table.length) :
    ∃ k, Keyed table k ∧ k ≤ i ∧ i < groupEnd table k := by
  induction i, low using Nat.le_induction with
  | base => exact ⟨first, keyed, le_refl _, lt_groupEnd high⟩
  | succ i low ih =>
    obtain ⟨k, opens, before, within⟩ := ih (by omega)
    by_cases ended : groupEnd table k = i + 1
    · have next := groupEnd_mem (ended.trans_lt high)
      rw [ended] at next
      exact ⟨i + 1, keyed_iff.mpr next, le_refl _, lt_groupEnd high⟩
    · exact ⟨k, opens, by omega, by omega⟩

theorem group_unique {j : Nat} (opens : Keyed table j) (also : Keyed table k)
    (within : j ≤ i ∧ i < groupEnd table j) (inside : k ≤ i ∧ i < groupEnd table k) : j = k := by
  rcases Nat.lt_trichotomy j k with before | same | after
  · have apart := groupEnd_le_keyframe before (keyed_iff.mp also)
    omega
  · exact same
  · have apart := groupEnd_le_keyframe after (keyed_iff.mp opens)
    omega

/-- A later target leads no further back, to a keyframe where there is one, and past no sample that
is later where each keyframe is the latest so far. The groups hold each place from the first
keyframe on once, and none is longer than the longest. -/
structure Indexed (table : List Sample) : Prop where
  onward : ∀ early late, early ≤ late →
    keyframeAtOrBefore table early ≤ keyframeAtOrBefore table late
  keyed : (∃ k, Keyed table k) → ∀ target, Keyed table (keyframeAtOrBefore table target)
  last : (∃ k, Keyed table k) → (∀ k, Keyed table k → Latest table k) →
    ∀ target, LastTimely table target (keyframeAtOrBefore table target)
  inside : ∀ k, Keyed table k → k < groupEnd table k ∧ groupEnd table k ≤ table.length
  once : ∀ first, IsLeast {k | Keyed table k} first → ∀ i, first ≤ i → i < table.length →
    ∃! k, Keyed table k ∧ k ≤ i ∧ i < groupEnd table k
  longest : ∀ k, Keyed table k → groupEnd table k - k ≤ longestGroup table

/-- Whatever the order of its samples, the keyframes of a table index it. -/
theorem keyframes_index_table (table : List Sample) : Indexed table where
  onward _ _ order := keyframeAtOrBefore_mono table order
  keyed := by
    rintro ⟨k, keyed⟩ target
    exact keyed_iff.mpr (keyframeAtOrBefore_mem target (List.ne_nil_of_mem (keyed_iff.mp keyed)))
  last := by
    rintro ⟨k, keyed⟩ latest
    obtain ⟨first, least⟩ := exists_first_keyframe (List.ne_nil_of_mem (keyed_iff.mp keyed))
    exact lastTimely_of_latest (least_iff.mpr least) fun k keyed _ => latest k keyed
  inside k keyed := ⟨lt_groupEnd (keyframe_lt (keyed_iff.mp keyed)), groupEnd_le table k⟩
  once first least i low high := by
    obtain ⟨k, opens, within⟩ := exists_group least.1 low high
    exact ⟨k, ⟨opens, within⟩, fun j other => group_unique other.1 opens other.2 within⟩
  longest k keyed := by
    rw [← group_length]
    exact group_longest (keyed_iff.mp keyed)

/-- A sample before the first keyframe, and a group whose samples are not in order of time. -/
def leadIn : List Sample :=
  [⟨lowBytes 8 0, 0, 100, false⟩, ⟨lowBytes 8 1, 100, 100, true⟩, ⟨lowBytes 8 2, 300, 100, false⟩,
    ⟨lowBytes 8 3, 200, 100, false⟩, ⟨lowBytes 8 4, 400, 100, true⟩]

theorem leadIn_latest : ∀ k, Keyed leadIn k → Latest leadIn k := by
  have keyframes : ∀ k ∈ keyframes leadIn, k = 1 ∨ k = 4 := by decide
  have second : ∀ i < 1, ∀ y ∈ leadIn[i]?, y.timestamp ≤ 100 := by decide
  have fifth : ∀ i < 4, ∀ y ∈ leadIn[i]?, y.timestamp ≤ 400 := by decide
  intro k keyed x stands
  rcases keyframes k (keyed_iff.mp keyed) with rfl | rfl
  · cases stands
    exact second
  · cases stands
    exact fifth

theorem keyframes_index_table_leadIn :
    (∃ k, Keyed leadIn k) ∧ (∀ k, Keyed leadIn k → Latest leadIn k) ∧
      LastTimely leadIn 350 1 ∧ LastTimely leadIn 50 1 ∧ LastTimely leadIn 400 4 ∧
      IsLeast {k | Keyed leadIn k} 1 ∧
      (∃! k, Keyed leadIn k ∧ k ≤ 3 ∧ 3 < groupEnd leadIn k) ∧
      groupEnd leadIn 1 - 1 ≤ longestGroup leadIn := by
  have opens : Keyed leadIn 1 := ⟨_, rfl, rfl⟩
  have least : IsLeast {k | Keyed leadIn k} 1 := by
    have keyframes : ∀ k ∈ keyframes leadIn, 1 ≤ k := by decide
    exact ⟨opens, fun k keyed => keyframes k (keyed_iff.mp keyed)⟩
  have indexed := keyframes_index_table leadIn
  have last := indexed.last ⟨1, opens⟩ leadIn_latest
  exact ⟨⟨1, opens⟩, leadIn_latest, last 350, last 50, last 400, least,
    indexed.once 1 least 3 (by decide) (by decide), indexed.longest 1 opens⟩

end Montage.Sample
