import Mathlib.Data.List.Chain
import Montage.Progress

/- What comes through a progress sink. A report is dropped only where it would go back within its
   stage, so what comes through between two restarts never goes back, and a report of the full
   percentage always comes through. -/
namespace Montage

/-- Stages of work. The other two tell how a render ended. -/
def Stage.isWork : Stage → Bool
  | .complete => false
  | .failed => false
  | _ => true

/-- A report that does not go back within the stage of the one before it. -/
def Report.Follows (before r : Report) : Prop :=
  before.stage = r.stage → before.percent ≤ r.percent

namespace Progress

/-- Somebody listens, and what was passed on last was a percentage. -/
structure Listened (p : Progress) : Prop where
  connected : p.connected = true
  bounded : ∀ stage n, p.last = some (stage, n) → n ≤ 100

/-- These reports came through, and there was no restart among them. -/
structure Carries (p : Progress) (told : List Report) (q : Progress) : Prop where
  listened : q.Listened
  delivered : q.delivered.toList = p.delivered.toList ++ told
  percents : ∀ r ∈ told, r.percent ≤ 100
  steady : told.IsChain Report.Follows
  first : ∀ r, told.head? = some r → ∀ n, p.last = some (r.stage, n) → n ≤ r.percent
  last : q.last = (told.getLast?.map fun r => (r.stage, r.percent)).or p.last

variable {p q r : Progress} {told more : List Report} {stage : Stage} {percent : Nat}
  {message : String}

theorem channel_listened : channel.Listened := by
  constructor
  · rfl
  · intro stage n last
    cases last

theorem Listened.restart (h : p.Listened) : p.restart.Listened := by
  constructor
  · exact h.connected
  · intro stage n last
    cases last

theorem carries_nothing (h : p.Listened) : p.Carries [] p where
  listened := h
  delivered := by simp
  percents := by simp
  steady := .nil
  first := by simp
  last := by simp

theorem Carries.trans (one : p.Carries told q) (next : q.Carries more r) :
    p.Carries (told ++ more) r where
  listened := next.listened
  delivered := by simp [one.delivered, next.delivered]
  percents := by
    intro x member
    cases List.mem_append.mp member with
    | inl early => exact one.percents x early
    | inr late => exact next.percents x late
  steady := by
    apply one.steady.append next.steady
    intro x last y head same
    have known : q.last = some (y.stage, x.percent) := by
      rw [one.last, Option.mem_def.mp last, ← same]
      rfl
    exact next.first y head x.percent known
  first := by
    intro x head n last
    cases told with
    | nil =>
      have known : q.last = some (x.stage, n) := one.last.trans last
      exact next.first x head n known
    | cons y told => exact one.first x head n last
  last := by
    rw [next.last, one.last, List.getLast?_append]
    cases more.getLast? <;> rfl

/-- A report that does not go back comes through. -/
theorem report_comes (h : p.Listened) (fits : percent ≤ 100)
    (forth : ∀ n, p.last = some (stage, n) → n ≤ percent) :
    p.Carries [⟨stage, percent, message⟩] (p.report stage percent message) := by
  have kept : p.goesBack stage percent = false := by
    unfold goesBack
    split
    · rename_i s n last
      by_cases same : s = stage
      · subst same
        have := forth n last
        simp
        omega
      · simp [same]
    · rfl
  have made : p.report stage percent message =
      { p with
        last := some (stage, percent)
        delivered := p.delivered.push ⟨stage, percent, message⟩ } := by
    simp [report, Nat.min_eq_left fits, kept, h.connected]
  rw [made]
  constructor
  · constructor
    · exact h.connected
    · intro s n last
      cases last
      exact fits
  · simp
  · simpa using fits
  · exact .singleton _
  · intro x head n last
    cases head
    exact forth n last
  · rfl

theorem report_carries (h : p.Listened) : ∃ told, p.Carries told (p.report stage percent message) ∧
    ∀ r ∈ told, r.stage = stage := by
  cases back : p.goesBack stage (min percent 100) with
  | true =>
    have dropped : p.report stage percent message = p := by simp [report, back]
    rw [dropped]
    exact ⟨[], carries_nothing h, by simp⟩
  | false =>
    have same : p.report stage percent message = p.report stage (min percent 100) message := by
      simp [report]
    have forth : ∀ n, p.last = some (stage, n) → n ≤ min percent 100 := by
      intro n last
      simpa [goesBack, last] using back
    rw [same]
    exact ⟨_, report_comes h (Nat.min_le_right _ _) forth, by simp⟩

/-- Nothing is above the full percentage, so the report of an end is never dropped. -/
theorem report_full (h : p.Listened) :
    p.Carries [⟨stage, 100, message⟩] (p.report stage 100 message) :=
  report_comes h (Nat.le_refl _) fun n last => h.bounded stage n last

/-- What came of a sink by any number of reports on work, whatever percentages they ask for. -/
inductive Worked (p : Progress) : Progress → Prop where
  | start : Worked p p
  | report {q : Progress} (before : Worked p q) (stage : Stage) (percent : Nat) (message : String)
      (work : stage.isWork = true) : Worked p (q.report stage percent message)

theorem worked_carries (h : p.Listened) (worked : Worked p q) :
    ∃ told, p.Carries told q ∧ ∀ r ∈ told, r.stage.isWork = true := by
  induction worked with
  | start => exact ⟨[], carries_nothing h, by simp⟩
  | @report q before stage percent message work ih =>
    obtain ⟨told, carried, working⟩ := ih
    obtain ⟨more, reported, staged⟩ :=
      @report_carries q stage percent message carried.listened
    refine ⟨told ++ more, carried.trans reported, ?_⟩
    intro r member
    cases List.mem_append.mp member with
    | inl early => exact working r early
    | inr late =>
      rw [staged r late]
      exact work

end Progress
end Montage
