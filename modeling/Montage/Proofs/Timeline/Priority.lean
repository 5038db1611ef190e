import Mathlib.Data.List.Induction
import Montage.Proofs.Number.Exact
import Montage.Timeline.Span

/- Who plays among overlapping candidates: one that every other gives way to, and of those that
   would take over from it the last in the list. -/
namespace Montage

namespace Candidate

theorem takesOver_iff (a b : Candidate Rat) :
    a.takesOver b = true ↔ b.track < a.track ∨ b.track = a.track ∧ a.start ≤ b.start := by
  simp [takesOver]

theorem takesOver_refl (a : Candidate Rat) : a.takesOver a = true :=
  (takesOver_iff a a).mpr (.inr ⟨rfl, le_refl _⟩)

theorem takesOver_trans {a b c : Candidate Rat} (first : a.takesOver b = true)
    (second : b.takesOver c = true) : a.takesOver c = true := by
  rw [takesOver_iff] at first second ⊢
  rcases first with lower | ⟨same, later⟩
  · rcases second with lower' | ⟨same', later'⟩
    · exact .inl (by omega)
    · exact .inl (by omega)
  · rcases second with lower' | ⟨same', later'⟩
    · exact .inl (by omega)
    · exact .inr ⟨by omega, later.trans later'⟩

theorem takesOver_total {a b : Candidate Rat} (refused : ¬ a.takesOver b = true) :
    b.takesOver a = true := by
  rw [takesOver_iff] at refused ⊢
  push Not at refused
  obtain ⟨notLower, notLater⟩ := refused
  by_cases same : a.track = b.track
  · exact .inr ⟨same, (notLater same.symm).le⟩
  · exact .inl (by omega)

end Candidate

/-- The contender left when each takes over from the one before where it may. -/
def best (cs : List (Contender Rat)) : Option (Contender Rat) :=
  cs.foldl (fun best c =>
    match best with
    | none => some c
    | some b => if b.candidate.takesOver c.candidate then some c else some b) none

theorem winnerAt_best (cs : List (Contender Rat)) (t : Rat) :
    winnerAt cs t = best (cs.filter (·.holds t)) := by
  unfold winnerAt best
  congr 1
  funext b c
  cases b <;> rfl

theorem best_snoc (cs : List (Contender Rat)) (c : Contender Rat) :
    best (cs ++ [c]) =
      match best cs with
      | none => some c
      | some b => if b.candidate.takesOver c.candidate then some c else some b := by
  simp [best, List.foldl_append]

theorem best_none_iff (cs : List (Contender Rat)) : best cs = none ↔ cs = [] := by
  rcases List.eq_nil_or_concat' cs with rfl | ⟨cs, c, rfl⟩
  · simp [best]
  · rw [best_snoc]
    cases best cs with
    | none => simp
    | some b =>
      dsimp only
      split <;> simp

theorem best_spec {cs : List (Contender Rat)} {b : Contender Rat} (found : best cs = some b) :
    b ∈ cs ∧ (∀ c ∈ cs, c.candidate.takesOver b.candidate = true) ∧
      (cs.filter fun c => b.candidate.takesOver c.candidate).getLast? = some b := by
  induction cs using List.reverseRecOn generalizing b with
  | nil => simp [best] at found
  | append_singleton cs c ih =>
    rw [best_snoc] at found
    have self := Candidate.takesOver_refl c.candidate
    cases before : best cs with
    | none =>
      rw [before] at found
      have empty := (best_none_iff cs).mp before
      cases found
      simp [empty, self]
    | some b' =>
      rw [before] at found
      obtain ⟨member, above, last⟩ := ih before
      dsimp only at found
      split at found
      · rename_i takes
        cases found
        refine ⟨by simp, ?_, by simp [List.filter_append, self]⟩
        intro x mem
        rcases List.mem_append.mp mem with mem | mem
        · exact Candidate.takesOver_trans (above x mem) takes
        · rw [List.mem_singleton.mp mem]
          exact self
      · rename_i refused
        cases found
        refine ⟨List.mem_append_left _ member, ?_, by simp [List.filter_append, refused, last]⟩
        intro x mem
        rcases List.mem_append.mp mem with mem | mem
        · exact above x mem
        · rw [List.mem_singleton.mp mem]
          exact Candidate.takesOver_total refused

theorem winnerAt_none_iff (cs : List (Contender Rat)) (t : Rat) :
    winnerAt cs t = none ↔ ∀ c ∈ cs, c.holds t = false := by
  rw [winnerAt_best, best_none_iff, List.filter_eq_nil_iff]
  simp

theorem winnerAt_spec {cs : List (Contender Rat)} {t : Rat} {b : Contender Rat}
    (found : winnerAt cs t = some b) :
    b ∈ cs ∧ b.holds t = true ∧
      (∀ c ∈ cs, c.holds t = true → c.candidate.takesOver b.candidate = true) ∧
      (cs.filter fun c => c.holds t && b.candidate.takesOver c.candidate).getLast? = some b := by
  rw [winnerAt_best] at found
  obtain ⟨member, above, last⟩ := best_spec found
  obtain ⟨inside, holds⟩ := List.mem_filter.mp member
  refine ⟨inside, holds, fun c mem held => above c (List.mem_filter.mpr ⟨mem, held⟩), ?_⟩
  rw [List.filter_filter] at last
  simpa only [Bool.and_comm] using last

end Montage
