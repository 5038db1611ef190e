import Mathlib.Algebra.Order.Ring.Nat
import Montage.Progress

/- Percentages of two counters. What is reported is the share that is done, as long as a hundred times
   the count has room in a word; else nothing is, and the program is over. -/
namespace Montage.Progress

/-- Whole percents that are done of what there is to do. -/
def share (done total : Nat) : Nat := 100 * min done total / total

section Share
variable {done more total : Nat}

theorem share_le (done total : Nat) : share done total ≤ 100 := by
  refine Nat.div_le_of_le_mul ?_
  rw [Nat.mul_comm total]
  exact Nat.mul_le_mul_left 100 (Nat.min_le_right done total)

theorem share_mono (total : Nat) (order : done ≤ more) : share done total ≤ share more total := by
  refine Nat.div_le_div_right (Nat.mul_le_mul_left 100 ?_)
  omega

theorem share_full (positive : 0 < total) (whole : total ≤ done) : share done total = 100 := by
  rw [share, Nat.min_eq_right whole, Nat.mul_div_cancel 100 positive]

theorem percentage?_eq (positive : 0 < total) :
    percentage? done total =
      if 100 * min done total < twoTo 64 then some (share done total) else none := by
  rw [percentage?, if_neg (by omega), share, Nat.mul_comm]

end Share

section Reports
variable {p : Progress} {stage : Stage} {done total : Nat} {message : String}

/-- The first report of a stage comes through, whatever its percentage. -/
theorem report_first (connected : p.connected = true) (fresh : p.currentStage ≠ some stage)
    (percent : Nat) :
    (p.report stage percent message).delivered =
      p.delivered.push ⟨stage, min percent 100, message⟩ := by
  have forth : p.goesBack stage (min percent 100) = false := by
    unfold goesBack
    split
    · rename_i s n last
      have other : s ≠ stage := by simpa [currentStage, last] using fresh
      simp [other]
    · rfl
  simp [report, forth, connected]

theorem fraction_eq (p : Progress) (stage : Stage) (done : Nat) (positive : 0 < total)
    (message : String) :
    p.fraction stage done total message =
      if 100 * min done total < twoTo 64 then some (p.report stage (share done total) message)
      else none := by
  rw [fraction, percentage?_eq positive]
  split <;> rfl

/-- The share that is done is a percentage that never falls as more gets done, and is full when all
is done. It is what a listener is told, whatever the stage, exactly when a hundred times the count
has room in its word. Then it is what every sink reports, whatever was reported to it before; else
none reports anything. -/
theorem fraction_reports_share_iff (connected : p.connected = true)
    (fresh : p.currentStage ≠ some stage) (positive : 0 < total) (message : String) :
    ((∃ told, p.fraction stage done total message = some told ∧
        told.delivered = p.delivered.push ⟨stage, share done total, message⟩) ↔
      100 * min done total < twoTo 64) ∧
    (100 * min done total < twoTo 64 → ∀ q : Progress,
      q.fraction stage done total message = some (q.report stage (share done total) message)) ∧
    (twoTo 64 ≤ 100 * min done total → ∀ q : Progress, q.fraction stage done total message = none) ∧
    share done total ≤ 100 ∧ (∀ more, done ≤ more → share done total ≤ share more total) ∧
    (total ≤ done → share done total = 100) := by
  have form (q : Progress) := fraction_eq q stage done positive message
  refine ⟨?_, ?_, ?_, share_le done total, fun _ => share_mono total, share_full positive⟩
  · constructor
    · intro told
      obtain ⟨q, reported, -⟩ := told
      by_contra large
      rw [form, if_neg large] at reported
      cases reported
    · intro small
      refine ⟨_, (form p).trans (if_pos small), ?_⟩
      rw [report_first connected fresh, Nat.min_eq_left (share_le done total)]
  · intro small q
    exact (form q).trans (if_pos small)
  · intro large q
    exact (form q).trans (if_neg (Nat.not_lt.mpr large))

/-- The greatest count of which a hundred times is a word. -/
theorem fraction_reports_share_iff_greatest :
    channel.connected = true ∧ channel.currentStage ≠ some .rendering ∧ 0 < 184467440737095516 ∧
      ∃ told, channel.fraction .rendering 184467440737095516 184467440737095516 "all" = some told ∧
        told.delivered = #[⟨.rendering, 100, "all"⟩] := by
  have fresh : channel.currentStage ≠ some .rendering := by decide
  obtain ⟨told, reported, delivered⟩ : ∃ told,
      channel.fraction .rendering 184467440737095516 184467440737095516 "all" = some told ∧
        told.delivered = channel.delivered.push
          ⟨.rendering, share 184467440737095516 184467440737095516, "all"⟩ :=
    (fraction_reports_share_iff rfl fresh (by decide) "all").1.mpr (by decide)
  exact ⟨rfl, fresh, by decide, told, reported, delivered⟩

/-- One more, and when all that there is to do is done nothing is reported; and so it is with the
greatest counters. -/
theorem full_share_lost :
    channel.fraction .rendering 184467440737095517 184467440737095517 "all" = none ∧
      channel.fraction .rendering 18446744073709551615 18446744073709551615 "all" = none ∧
      share 184467440737095517 184467440737095517 = 100 ∧
      share 18446744073709551615 18446744073709551615 = 100 := by
  decide

end Reports

end Montage.Progress
