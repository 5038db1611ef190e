import Mathlib.Algebra.Order.Field.Rat
import Mathlib.Data.List.Nodup
import Montage.Proofs.Number.Exact
import Montage.Stream.Layers

/- The order in which clips are drawn: tracks from the highest to the lowest, and on each the
   clips in the order in which they were put there. -/
namespace Montage

namespace Project

variable {p : Project Rat} {s : Scheduled Rat}

theorem playedVideo_lasts (member : s ∈ p.playedVideo) : 0 < s.timing.timelineDuration := by
  obtain ⟨-, played⟩ := List.mem_filter.mp member
  simpa [Scheduled.isPlayed] using played

theorem playedVideo_track (member : s ∈ p.playedVideo) : s.trackIndex < p.tracks.length := by
  obtain ⟨made, -⟩ := List.mem_filter.mp member
  obtain ⟨c, placed, rfl⟩ := List.mem_map.mp made
  have listed := List.mem_of_mem_filter (List.mem_of_mem_filter placed)
  simp only [placedClips, indexedTracks, List.mem_flatMap, List.mem_map, List.mem_filterMap,
    Option.map_eq_some_iff] at listed
  obtain ⟨-, ⟨⟨track, i⟩, stands, rfl⟩, clip, -, media, -, rfl⟩ := listed
  exact (List.getElem?_eq_some_iff.mp (List.mem_zipIdx_iff_getElem?.mp stands)).1

/-- The clips of one track that are drawn. -/
def drawnOn (p : Project Rat) (i : Nat) : List (Scheduled Rat) :=
  p.playedVideo.filter fun s => s.trackIndex == i && decide (0 < s.timing.timelineDuration)

theorem mem_drawnOn {i : Nat} : s ∈ p.drawnOn i ↔ s ∈ p.playedVideo ∧ s.trackIndex = i := by
  simp only [drawnOn, List.mem_filter, Bool.and_eq_true, beq_iff_eq, decide_eq_true_eq]
  constructor
  · rintro ⟨member, same, -⟩
    exact ⟨member, same⟩
  · rintro ⟨member, same⟩
    exact ⟨member, same, playedVideo_lasts member⟩

theorem mem_layers : s ∈ p.layers ↔ s ∈ p.playedVideo := by
  change s ∈ (List.range p.tracks.length).reverse.flatMap p.drawnOn ↔ s ∈ p.playedVideo
  simp only [List.mem_flatMap, List.mem_reverse, List.mem_range, mem_drawnOn]
  constructor
  · rintro ⟨i, -, member, -⟩
    exact member
  · intro member
    exact ⟨s.trackIndex, playedVideo_track member, member, rfl⟩

/-- A layer lies on no higher track than those drawn before it. -/
theorem layers_sorted (p : Project Rat) : p.layers.Pairwise fun a b => b.trackIndex ≤ a.trackIndex := by
  change ((List.range p.tracks.length).reverse.flatMap p.drawnOn).Pairwise _
  rw [List.pairwise_flatMap]
  constructor
  · intro i _
    refine List.Pairwise.imp_of_mem ?_ (List.pairwise_of_forall (fun _ _ => trivial))
    intro a b ha hb _
    rw [(mem_drawnOn.mp ha).2, (mem_drawnOn.mp hb).2]
  · rw [List.pairwise_reverse]
    refine List.pairwise_lt_range.imp ?_
    intro i j less a ha b hb
    rw [(mem_drawnOn.mp ha).2, (mem_drawnOn.mp hb).2]
    exact less.le

/-- On one track the layers keep the order of the clips. -/
theorem layers_filter {i : Nat} (inside : i < p.tracks.length) {key : Scheduled Rat → Bool}
    (onTrack : ∀ s, key s = true → s.trackIndex = i) :
    p.layers.filter key = p.playedVideo.filter key := by
  have own : (p.drawnOn i).filter key = p.playedVideo.filter key := by
    unfold drawnOn
    rw [List.filter_filter]
    apply List.filter_congr
    intro s member
    rw [Bool.and_eq_left_iff_imp]
    intro chosen
    simp [onTrack s chosen, playedVideo_lasts member]
  have other : ∀ j, j ≠ i → (p.drawnOn j).filter key = [] := by
    intro j different
    rw [List.filter_eq_nil_iff]
    intro s member chosen
    exact different ((mem_drawnOn.mp member).2.symm.trans (onTrack s chosen))
  have listed : i ∈ (List.range p.tracks.length).reverse := by simpa using inside
  have distinct : (List.range p.tracks.length).reverse.Nodup :=
    List.nodup_reverse.mpr List.nodup_range
  change ((List.range p.tracks.length).reverse.flatMap p.drawnOn).filter key = _
  obtain ⟨higher, lower, form⟩ := List.append_of_mem listed
  rw [form] at distinct ⊢
  obtain ⟨-, rest, apart⟩ := List.nodup_append.mp distinct
  have above : (higher.flatMap fun j => (p.drawnOn j).filter key) = [] := by
    rw [List.flatMap_eq_nil_iff]
    intro j member
    exact other j (apart j member i List.mem_cons_self)
  have below : (lower.flatMap fun j => (p.drawnOn j).filter key) = [] := by
    rw [List.flatMap_eq_nil_iff]
    intro j member
    refine other j ?_
    rintro rfl
    exact (List.nodup_cons.mp rest).1 member
  rw [List.filter_flatMap, List.flatMap_append, List.flatMap_cons, above, below, own]
  simp

end Project
end Montage
