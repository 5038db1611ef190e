import Montage.Proofs.Timeline.Flatten
import Montage.Timeline.Schedule

/- Where a project's clips lie: by track, each with the media that its identifier names, and none
   beyond the end of the project. -/
namespace Montage

section Groups
variable {α : Type} {key : α → Nat} {xs : List α} {n : Nat}

theorem sorted_split (sorted : xs.Pairwise fun a b => key a ≤ key b)
    (bounded : ∀ a ∈ xs, key a ≤ n) :
    (xs.filter fun a => decide (key a < n)) ++ (xs.filter fun a => key a == n) = xs := by
  induction xs with
  | nil => rfl
  | cons a xs ih =>
    obtain ⟨first, rest⟩ := List.pairwise_cons.mp sorted
    have all := fun b member => bounded b (List.mem_cons_of_mem a member)
    rcases Nat.lt_or_eq_of_le (bounded a List.mem_cons_self) with less | same
    · rw [List.filter_cons_of_pos (by simpa using less), List.filter_cons_of_neg (by simp; omega),
        List.cons_append, ih rest all]
    · -- nothing behind the first of the last group is in a group before
      have none : xs.filter (fun a => decide (key a < n)) = [] := by
        rw [List.filter_eq_nil_iff]
        intro b member
        have above := first b member
        simp only [decide_eq_true_eq]
        omega
      have tail := ih rest all
      rw [none, List.nil_append] at tail
      rw [List.filter_cons_of_neg (by simp; omega), List.filter_cons_of_pos (by simpa using same),
        none, List.nil_append, tail]

/-- Groups of a sorted list, one after the other, are the list. -/
theorem groups_flatten (sorted : xs.Pairwise fun a b => key a ≤ key b)
    (bounded : ∀ a ∈ xs, key a < n) :
    ((List.range n).flatMap fun i => xs.filter fun a => key a == i) = xs := by
  induction n generalizing xs with
  | zero =>
    cases xs with
    | nil => rfl
    | cons a xs => exact absurd (bounded a List.mem_cons_self) (Nat.not_lt_zero _)
  | succ n ih =>
    have below : ∀ a ∈ xs.filter (fun a => decide (key a < n)), key a < n :=
      fun a member => by simpa using List.of_mem_filter member
    have lower := ih (sorted.filter _) below
    have same : ∀ i ∈ List.range n, (xs.filter fun a => decide (key a < n)).filter
        (fun a => key a == i) = xs.filter fun a => key a == i := by
      intro i member
      rw [List.filter_filter]
      apply List.filter_congr
      intro a _
      rw [Bool.and_eq_left_iff_imp, beq_iff_eq]
      rintro rfl
      simpa using List.mem_range.mp member
    rw [List.flatMap_congr same] at lower
    rw [List.range_succ, List.flatMap_append, lower, List.flatMap_singleton]
    exact sorted_split sorted fun a member => Nat.le_of_lt_succ (bounded a member)

end Groups

namespace Project

section Placed
variable {K : Type} {p : Project K} {c d : Placed K}

theorem mem_placedClips : c ∈ p.placedClips ↔ p.tracks[c.trackIndex]? = some c.track ∧
    c.clip ∈ c.track.clips ∧ p.media? c.clip.mediaId = some c.media := by
  simp only [placedClips, indexedTracks, List.mem_flatMap, List.mem_map, List.mem_filterMap,
    Option.map_eq_some_iff]
  constructor
  · rintro ⟨-, ⟨⟨track, i⟩, stands, rfl⟩, clip, member, media, found, rfl⟩
    exact ⟨List.mem_zipIdx_iff_getElem?.mp stands, member, found⟩
  · rintro ⟨stands, member, found⟩
    exact ⟨_, ⟨(c.track, c.trackIndex), List.mem_zipIdx_iff_getElem?.mpr stands, rfl⟩, c.clip,
      member, c.media, found, rfl⟩

theorem placed_sorted (p : Project K) :
    p.placedClips.Pairwise fun a b => a.trackIndex ≤ b.trackIndex := by
  have indices : p.indexedTracks.Pairwise fun a b => a.1 < b.1 := by
    have all : (p.indexedTracks.map (·.1)).Pairwise (· < ·) := by
      rw [indexedTracks, List.map_map]
      change (p.tracks.zipIdx.map (·.2)).Pairwise (· < ·)
      rw [List.zipIdx_map_snd]
      exact List.pairwise_lt_range'
    exact List.pairwise_map.mp all
  have own : ∀ e : Nat × Track K, ∀ c ∈ e.2.clips.filterMap fun clip =>
      (p.media? clip.mediaId).map fun media => (⟨e.1, e.2, clip, media⟩ : Placed K),
      c.trackIndex = e.1 := by
    intro e c member
    simp only [List.mem_filterMap, Option.map_eq_some_iff] at member
    obtain ⟨clip, -, media, -, rfl⟩ := member
    rfl
  unfold placedClips
  rw [List.pairwise_flatMap]
  constructor
  · intro e _
    refine List.pairwise_of_forall_mem_list ?_
    intro a ha b hb
    rw [own e a ha, own e b hb]
  · refine indices.imp ?_
    intro e f less a ha b hb
    rw [own e a ha, own f b hb]
    exact less.le

/-- Clips that name the same media have the same. -/
theorem placed_media (hc : c ∈ p.placedClips) (hd : d ∈ p.placedClips)
    (same : c.media.id = d.media.id) : c.media = d.media := by
  have named : ∀ x : Placed K, x ∈ p.placedClips → p.media? x.media.id = some x.media := by
    intro x member
    obtain ⟨-, -, found⟩ := mem_placedClips.mp member
    have own : x.media.id = x.clip.mediaId := by simpa using List.find?_some found
    rw [own]
    exact found
  have first := named c hc
  rw [same, named d hd] at first
  exact (Option.some.inj first).symm

end Placed

section Played
variable {K : Type} [Scalar K] {p : Project K} {s : Scheduled K}

/-- Clips on unmuted audio tracks. -/
def audioClips (p : Project K) : List (Scheduled K) :=
  (p.unmuted.filter fun c => c.track.isAudio).map p.schedule

theorem playedAudio_eq (p : Project K) : p.playedAudio = p.audioClips.filter (·.isPlayed) := by
  have kinds : ∀ c : Placed K, (!c.track.isVideo) = c.track.isAudio := by
    intro c
    cases form : c.track.kind <;> simp [Track.isVideo, Track.isAudio, form]
  simp only [playedAudio, audioClips, kinds]

theorem mem_audioClips : s ∈ p.audioClips ↔ ∃ c ∈ p.placedClips, c.track.muted = false ∧
    c.track.isAudio = true ∧ p.schedule c = s := by
  simp only [audioClips, unmuted, List.mem_map, List.mem_filter, Bool.not_eq_true']
  constructor
  · rintro ⟨c, ⟨⟨placed, loud⟩, audio⟩, made⟩
    exact ⟨c, placed, loud, audio, made⟩
  · rintro ⟨c, placed, loud, audio, made⟩
    exact ⟨c, ⟨⟨placed, loud⟩, audio⟩, made⟩

/-- Audio clips whose media go by one identifier have the same media. -/
theorem audioClips_media {r : Scheduled K} (hs : s ∈ p.audioClips) (hr : r ∈ p.audioClips)
    (same : s.media.id = r.media.id) : s.media = r.media := by
  obtain ⟨c, placed, -, -, rfl⟩ := mem_audioClips.mp hs
  obtain ⟨d, placed', -, -, rfl⟩ := mem_audioClips.mp hr
  exact placed_media placed placed' same

theorem mem_playedAudio : s ∈ p.playedAudio ↔ s ∈ p.audioClips ∧ s.isPlayed = true := by
  rw [playedAudio_eq, List.mem_filter]

theorem playedAudio_sorted (p : Project K) :
    p.playedAudio.Pairwise fun a b => a.trackIndex ≤ b.trackIndex := by
  unfold playedAudio unmuted
  refine List.Pairwise.filter _ (List.pairwise_map.mpr ?_)
  exact ((placed_sorted p).filter _).filter _

theorem playedVideo_sorted (p : Project K) :
    p.playedVideo.Pairwise fun a b => a.trackIndex ≤ b.trackIndex := by
  unfold playedVideo unmuted
  refine List.Pairwise.filter _ (List.pairwise_map.mpr ?_)
  exact ((placed_sorted p).filter _).filter _

theorem playedAudio_track (member : s ∈ p.playedAudio) : s.trackIndex < p.tracks.length := by
  obtain ⟨c, placed, -, -, rfl⟩ := mem_audioClips.mp (mem_playedAudio.mp member).1
  exact (List.getElem?_eq_some_iff.mp (mem_placedClips.mp placed).1).1

theorem mem_playedAudioTracks {clips : List (Scheduled K)} (member : clips ∈ p.playedAudioTracks) :
    clips ≠ [] ∧ ∀ s ∈ clips, s ∈ p.playedAudio := by
  obtain ⟨listed, some⟩ := List.mem_filter.mp member
  obtain ⟨i, -, rfl⟩ := List.mem_map.mp listed
  refine ⟨by simpa using some, fun s inside => List.mem_of_mem_filter inside⟩

/-- The audio clips, track by track. -/
theorem playedAudioTracks_flatten (p : Project K) : p.playedAudioTracks.flatten = p.playedAudio := by
  unfold playedAudioTracks
  rw [List.flatten_filter_not_isEmpty, ← List.flatMap_def]
  exact groups_flatten (playedAudio_sorted p) fun s member => playedAudio_track member

end Played

end Project

/-- The clip as it competes on a track of its own. -/
def Scheduled.level (s : Scheduled Rat) : Scheduled Rat := { s with trackIndex := 0 }

namespace Project

theorem latest_le {times : List Rat} {x : Rat} (member : x ∈ times) : x ≤ latest times := by
  obtain ⟨-, bound⟩ := foldl_chosen (r := (· ≤ ·)) (f := Scalar.max) le_refl
    (fun _ _ _ => le_trans) (fun x z => by simpa using max_choice x z) (by simp) (by simp) times 0
  exact bound x (List.mem_cons_of_mem 0 member)

theorem placed_inside {p : Project Rat} {c : Placed Rat} (member : c ∈ p.placedClips) :
    (p.schedule c).timing.stop ≤ p.duration := by
  obtain ⟨stands, inside, found⟩ := mem_placedClips.mp member
  have within : c.clip.endTime c.media ≤ c.track.duration p.mediaFiles := by
    apply latest_le
    rw [List.mem_filterMap]
    exact ⟨c.clip, inside, by rw [show p.mediaFiles.find? _ = some c.media from found]; rfl⟩
  have longest : c.track.duration p.mediaFiles ≤ p.duration :=
    latest_le (List.mem_map_of_mem (List.mem_of_getElem? stands))
  exact within.trans longest

end Project
end Montage
