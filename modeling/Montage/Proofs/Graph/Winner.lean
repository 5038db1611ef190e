import Montage.Graph.Compile
import Montage.Proofs.Sorting
import Montage.Proofs.Timeline.Sweep

/- The clip that wins at a time at least a step away from where clips begin and end. The grid
   moves no boundary over such a time, and sorting by start keeps the order of clips that begin
   together on one track. -/
namespace Montage

/-- Boundaries are at least a step away. -/
def Timing.Clear (timing : Timing Rat) (step t : Rat) : Prop :=
  step ≤ |t - timing.start| ∧ step ≤ |t - timing.stop|

instance (timing : Timing Rat) (step t : Rat) : Decidable (timing.Clear step t) :=
  inferInstanceAs (Decidable (_ ∧ _))

namespace Scheduled

def candidate (s : Scheduled Rat) : Candidate Rat := ⟨s.trackIndex, s.timing.start, s.timing.stop⟩

/-- The clip in place i, on the grid. -/
def contender (s : Scheduled Rat) (total step : Rat) (i : Nat) : Contender Rat :=
  ⟨i, s.candidate, (s.candidate.bounds total step).1, (s.candidate.bounds total step).2⟩

theorem contender_holds {total step t : Rat} {s : Scheduled Rat} (positive : 0 < step) (low : 0 ≤ t)
    (high : t < total) (clear : s.timing.Clear step t) (i : Nat) :
    (s.contender total step i).holds t = s.timing.contains t := by
  have begins := clamp_side positive low high clear.1
  have ends := clamp_side positive low high clear.2
  change (decide (Scalar.clamp 0 total (snap s.timing.start step) ≤ t) &&
    decide (t < Scalar.clamp 0 total (snap s.timing.stop step))) =
      (decide (s.timing.start ≤ t) && decide (t < s.timing.stop))
  rw [decide_eq_decide.mpr begins, decide_eq_decide.mpr (lt_iff_lt_of_le_iff_le ends)]

end Scheduled

section Winner
variable {clips : List (Scheduled Rat)} {total step t : Rat}

theorem contenders_clips (clips : List (Scheduled Rat)) (total step : Rat) :
    contenders (Graph.videoCandidates clips) total step =
      clips.zipIdx.map fun x => x.1.contender total step x.2 := by
  unfold contenders Graph.videoCandidates
  rw [List.zipIdx_map, List.map_map]
  rfl

/-- Contenders chosen by their candidates are the clips chosen so, each in its place. -/
theorem contenders_filter (positive : 0 < step) (low : 0 ≤ t) (high : t < total)
    (clear : ∀ s ∈ clips, s.timing.Clear step t) (wins : Candidate Rat → Bool) :
    ((contenders (Graph.videoCandidates clips) total step).filter fun c =>
        c.holds t && wins c.candidate).map (fun c => clips[c.index]?) =
      (clips.filter fun s => s.timing.contains t && wins s.candidate).map some := by
  have keys : clips.zipIdx.map (fun x => x.1) = clips := List.zipIdx_map_fst 0 clips
  conv_rhs => rw [← keys]
  rw [contenders_clips, List.filter_map, List.filter_map, List.map_map, List.map_map]
  have same : ∀ x ∈ clips.zipIdx, ((fun c : Contender Rat => c.holds t && wins c.candidate) ∘
      fun x : Scheduled Rat × Nat => x.1.contender total step x.2) x =
        (x.1.timing.contains t && wins x.1.candidate) := by
    intro x member
    have listed := List.mem_of_getElem? (List.mem_zipIdx_iff_getElem?.mp member)
    rw [← Scheduled.contender_holds positive low high (clear x.1 listed) x.2]
    rfl
  rw [List.filter_congr same]
  apply List.map_congr_left
  intro x member
  exact List.mem_zipIdx_iff_getElem?.mp (List.mem_of_mem_filter member)

theorem winner_clip (positive : 0 < step) (low : 0 ≤ t) (high : t < total)
    (clear : ∀ s ∈ clips, s.timing.Clear step t) {b : Contender Rat}
    (found : winnerAt (contenders (Graph.videoCandidates clips) total step) t = some b) :
    ∃ s, clips[b.index]? = some s ∧ s ∈ clips ∧ s.timing.contains t = true ∧
      (∀ x ∈ clips, x.timing.contains t = true → x.candidate.takesOver s.candidate = true) ∧
      (clips.filter fun x =>
        x.timing.contains t && s.candidate.takesOver x.candidate).getLast? = some s := by
  obtain ⟨member, holds, above, last⟩ := winnerAt_spec found
  rw [contenders_clips] at member above
  obtain ⟨⟨s, i⟩, listed, rfl⟩ := List.mem_map.mp member
  have stands := List.mem_zipIdx_iff_getElem?.mp listed
  have inside := List.mem_of_getElem? stands
  rw [Scheduled.contender_holds positive low high (clear s inside)] at holds
  refine ⟨s, stands, inside, holds, ?_, ?_⟩
  · intro x mem contains
    obtain ⟨j, at_j⟩ := List.mem_iff_getElem?.mp mem
    refine above _ (List.mem_map.mpr ⟨(x, j), List.mem_zipIdx_iff_getElem?.mpr at_j, rfl⟩) ?_
    rw [Scheduled.contender_holds positive low high (clear x mem)]
    exact contains
  · have places := congrArg List.getLast?
      (contenders_filter positive low high clear (s.contender total step i).candidate.takesOver)
    rw [List.getLast?_map, List.getLast?_map, last] at places
    obtain ⟨x, ends, same⟩ := Option.map_eq_some_iff.mp places.symm
    exact ends.trans (same.trans stands)

theorem no_winner_iff (positive : 0 < step) (low : 0 ≤ t) (high : t < total)
    (clear : ∀ s ∈ clips, s.timing.Clear step t) :
    winnerAt (contenders (Graph.videoCandidates clips) total step) t = none ↔
      ∀ s ∈ clips, s.timing.contains t = false := by
  rw [winnerAt_none_iff, contenders_clips]
  constructor
  · intro silent s member
    obtain ⟨i, at_i⟩ := List.mem_iff_getElem?.mp member
    rw [← Scheduled.contender_holds positive low high (clear s member) i]
    exact silent _ (List.mem_map.mpr ⟨(s, i), List.mem_zipIdx_iff_getElem?.mpr at_i, rfl⟩)
  · intro silent c member
    obtain ⟨⟨s, i⟩, listed, rfl⟩ := List.mem_map.mp member
    have inside := List.mem_of_getElem? (List.mem_zipIdx_iff_getElem?.mp listed)
    rw [Scheduled.contender_holds positive low high (clear s inside)]
    exact silent s inside

end Winner

namespace Graph

def startsFirst (a b : Scheduled Rat) : Bool :=
  match Scalar.totalCompare a.timing.start b.timing.start with
  | .lt => true
  | .gt => false
  | .eq => decide (a.trackIndex ≤ b.trackIndex)

theorem startsFirst_iff (a b : Scheduled Rat) :
    startsFirst a b = true ↔ a.timing.start < b.timing.start ∨
      a.timing.start = b.timing.start ∧ a.trackIndex ≤ b.trackIndex := by
  unfold startsFirst Scalar.totalCompare
  simp only [Scalar.totalLe_rat, decide_eq_true_eq]
  rcases lt_trichotomy a.timing.start b.timing.start with less | same | more
  · simp [less, less.le, less.not_ge]
  · simp [same]
  · simp [more.not_ge, more.ne', more.not_gt]

theorem byStart_mem {clips : List (Scheduled Rat)} {s : Scheduled Rat} :
    s ∈ byStart clips ↔ s ∈ clips := List.mem_mergeSort

theorem startsFirst_trans (a b c : Scheduled Rat) (first : startsFirst a b = true)
    (second : startsFirst b c = true) : startsFirst a c = true := by
  rw [startsFirst_iff] at first second ⊢
  rcases first with less | ⟨same, lower⟩
  · rcases second with less' | ⟨same', lower'⟩
    · exact .inl (less.trans less')
    · exact .inl (same' ▸ less)
  · rcases second with less' | ⟨same', lower'⟩
    · exact .inl (same ▸ less')
    · exact .inr ⟨same.trans same', lower.trans lower'⟩

theorem startsFirst_total (a b : Scheduled Rat) : (startsFirst a b || startsFirst b a) = true := by
  rw [Bool.or_eq_true, startsFirst_iff, startsFirst_iff]
  rcases lt_trichotomy a.timing.start b.timing.start with less | same | more
  · exact .inl (.inl less)
  · rcases Nat.le_total a.trackIndex b.trackIndex with lower | higher
    · exact .inl (.inr ⟨same, lower⟩)
    · exact .inr (.inr ⟨same.symm, higher⟩)
  · exact .inr (.inl more)

theorem byStart_sorted (clips : List (Scheduled Rat)) :
    (byStart clips).Pairwise fun a b => startsFirst a b = true :=
  List.pairwise_mergeSort startsFirst_trans startsFirst_total clips

/-- Clips that begin together on one track stay in order. -/
theorem byStart_filter (clips : List (Scheduled Rat)) {key : Scheduled Rat → Bool}
    (together : ∀ a b, key a = true → key b = true →
      a.timing.start = b.timing.start ∧ a.trackIndex = b.trackIndex) :
    (byStart clips).filter key = clips.filter key := by
  refine mergeSort_filter startsFirst_trans startsFirst_total clips fun a b ha hb => ?_
  obtain ⟨start, track⟩ := together a b ha hb
  exact (startsFirst_iff a b).mpr (.inr ⟨start, track.le⟩)

end Graph
end Montage
