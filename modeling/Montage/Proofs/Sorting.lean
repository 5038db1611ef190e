import Mathlib.Data.List.Basic
import Mathlib.Data.List.Pairwise

/- Lists sorted by a rule, under which several elements may be level. A stable sort keeps level
   elements in their order, and that makes it the only one: what is sorted, with every class of level
   elements in the order in which it came, is what the sort gives. -/
namespace Montage

section Sorting
variable {α : Type} {r : α → α → Bool} {xs ys : List α}

/-- Lists sorted alike are the same when elements that are level stand in the same order. -/
theorem sorted_unique (refl : ∀ a, r a a = true) (hx : xs.Pairwise fun a b => r a b = true)
    (hy : ys.Pairwise fun a b => r a b = true)
    (level : ∀ a, a ∈ xs ∨ a ∈ ys →
      xs.filter (fun x => r a x && r x a) = ys.filter fun x => r a x && r x a) : xs = ys := by
  induction xs generalizing ys with
  | nil =>
    cases ys with
    | nil => rfl
    | cons m ys =>
      have none := level m (.inr List.mem_cons_self)
      simp [refl] at none
  | cons a xs ih =>
    have listed : ∀ b, b ∈ a :: xs ∨ b ∈ ys → (b ∈ a :: xs ↔ b ∈ ys) := by
      intro b either
      have same := level b either
      have self : (r b b && r b b) = true := by simp [refl]
      constructor
      · intro member
        exact List.mem_of_mem_filter (same ▸ List.mem_filter.mpr ⟨member, self⟩)
      · intro member
        exact List.mem_of_mem_filter (same.symm ▸ List.mem_filter.mpr ⟨member, self⟩)
    obtain ⟨afterA, restX⟩ := List.pairwise_cons.mp hx
    cases ys with
    | nil => simpa using (listed a (.inl List.mem_cons_self)).mp List.mem_cons_self
    | cons m ys =>
      obtain ⟨afterM, restY⟩ := List.pairwise_cons.mp hy
      have first : r a m = true := by
        rcases List.mem_cons.mp ((listed m (.inr List.mem_cons_self)).mpr List.mem_cons_self) with
          rfl | later
        · exact refl m
        · exact afterA m later
      have second : r m a = true := by
        rcases List.mem_cons.mp ((listed a (.inl List.mem_cons_self)).mp List.mem_cons_self) with
          rfl | later
        · exact refl a
        · exact afterM a later
      have heads := level a (.inl List.mem_cons_self)
      rw [List.filter_cons_of_pos (by simp [refl]), List.filter_cons_of_pos (by simp [first, second])]
        at heads
      obtain ⟨rfl, -⟩ := List.cons.inj heads
      refine congrArg (a :: ·) (ih restX restY ?_)
      intro b either
      have whole := level b (either.imp (List.mem_cons_of_mem a) (List.mem_cons_of_mem a))
      rw [List.filter_cons, List.filter_cons] at whole
      split at whole
      · exact (List.cons.inj whole).2
      · exact whole

variable (trans : ∀ a b c, r a b = true → r b c = true → r a c = true)
  (total : ∀ a b, (r a b || r b a) = true)
include trans total

/-- Elements that are level with one another stay in order. -/
theorem mergeSort_filter (xs : List α) {key : α → Bool}
    (level : ∀ a b, key a = true → key b = true → r a b = true) :
    (xs.mergeSort r).filter key = xs.filter key := by
  have sorted : (xs.filter key).Pairwise fun a b => r a b = true :=
    List.pairwise_of_forall_mem_list fun a ha b hb =>
      level a b (List.of_mem_filter ha) (List.of_mem_filter hb)
  have kept := (List.sublist_mergeSort trans total sorted List.filter_sublist).filter key
  rw [List.filter_filter] at kept
  simp only [Bool.and_self] at kept
  refine (kept.eq_of_length ?_).symm
  exact ((List.mergeSort_perm xs r).filter key).length_eq.symm

/-- The stable sort is the only one. -/
theorem mergeSort_unique (sorted : ys.Pairwise fun a b => r a b = true)
    (level : ∀ a, ys.filter (fun x => r a x && r x a) = xs.filter fun x => r a x && r x a) :
    ys = xs.mergeSort r := by
  have refl : ∀ a, r a a = true := fun a => by simpa using total a a
  refine sorted_unique refl sorted (List.pairwise_mergeSort trans total xs) fun a _ => ?_
  rw [level, mergeSort_filter trans total]
  intro x y hx hy
  rw [Bool.and_eq_true] at hx hy
  exact trans x a y hx.2 hy.1

end Sorting

end Montage
