import Montage.Proofs.Graph.Audible
import Montage.Proofs.Graph.TopClip
import Montage.Proofs.Timeline.Partition

/- Segments last as long as their spans, so that the picture and each track of sound last as long
   as the project. -/
namespace Montage.Graph

theorem videoPiece_lasts {clips : List (Scheduled Rat)} {settings : RenderSettings Rat}
    {x : Piece Rat} (made : VideoPiece clips settings x) : x.segment.duration = x.span.duration := by
  unfold VideoPiece at made
  split at made
  · rw [made]
    rfl
  · obtain ⟨input, base, shows, -⟩ := made
    rw [shows]
    rfl

def lasting (segments : List (Segment Rat)) : Rat := (segments.map (·.duration)).sum

theorem pieces_lasting {pieces : List (Piece Rat)} {cs : List (Candidate Rat)} {total step : Rat}
    (positive : 0 < total) (fine : closeness < step)
    (spans : pieces.map (·.span) = flatten cs total step)
    (lasts : ∀ x ∈ pieces, x.segment.duration = x.span.duration) :
    |lasting (pieces.map (·.segment)) - total| ≤ closeness := by
  have same : (pieces.map (·.segment)).map (·.duration) =
      (flatten cs total step).map (·.duration) := by
    rw [← spans, List.map_map, List.map_map]
    exact List.map_congr_left lasts
  rw [lasting, same]
  exact flatten_total cs positive fine

/-- Every list of candidates gives spans without holes, overlaps or slivers. The segments of a
compiled graph's picture, and those of each of its audio tracks, last as long as the project. -/
theorem timeline_partitioned :
    (∀ (cs : List (Candidate Rat)) (total step : Rat), closeness < total → closeness < step →
      ∃ stop, Partitioned total step (flatten cs total step) stop) ∧
    ∀ (p : Project Rat) (settings : RenderSettings Rat) (options : Options),
      0 < p.duration → closeness < 1 / settings.framerate →
      ∃ g, compile p settings options = some g ∧
        |lasting g.videoSegments - p.duration| ≤ closeness ∧
        g.audioTracks.length = p.playedAudioTracks.length ∧
        ∀ segments ∈ g.audioTracks, |lasting segments - p.duration| ≤ closeness := by
  refine ⟨fun cs total step => flatten_partitioned cs, ?_⟩
  intro p settings options lasts fine
  obtain ⟨g, compiled, shape, tracks⟩ := compile_audio settings options lasts
  obtain ⟨pieces, -, -, spans, -, -, shows, made⟩ := compile_pieces compiled
  refine ⟨g, compiled, ?_, tracks.length_eq.symm, ?_⟩
  · rw [shows]
    exact pieces_lasting lasts fine spans fun x member => videoPiece_lasts (made x member)
  · intro segments member
    obtain ⟨i, inside, rfl⟩ := List.mem_iff_getElem.mp member
    have usual : closeness < (audioStep : Rat) := by linarith [closeness_pos, audioStep_fine]
    obtain ⟨-, each⟩ := List.forall₂_iff_get.mp tracks
    obtain ⟨pieces, spans, own, made⟩ := each i (by rwa [tracks.length_eq]) inside
    rw [List.get_eq_getElem] at own
    rw [← own]
    exact pieces_lasting lasts usual spans fun x mem => (audioPiece_place (made x mem)).2.1

/-- A picture with a gap that is swallowed, and sound that begins late. -/
def pictureAndSound : Project Rat :=
  { oneTrack brokenGap with
    tracks := [⟨"v", .video, brokenGap, false⟩, ⟨"a", .audio, [lateClip], false⟩] }

theorem timeline_partitioned_picture_and_sound :
    (∃ stop, Partitioned 8 (1 / 2) (flatten overlapping 8 (1 / 2)) stop) ∧
    ∃ g, compile pictureAndSound (framed 1) plainOptions = some g ∧
      |lasting g.videoSegments - 30| ≤ closeness ∧ g.audioTracks.length = 1 ∧
      ∀ segments ∈ g.audioTracks, |lasting segments - 30| ≤ closeness := by
  obtain ⟨spans, graphs⟩ := timeline_partitioned
  have lasts : pictureAndSound.duration = 30 := by decide +kernel
  have tracks : pictureAndSound.playedAudioTracks.length = 1 := by decide +kernel
  obtain ⟨g, compiled, picture, count, sound⟩ := graphs pictureAndSound (framed 1) plainOptions
    (by decide +kernel) (by decide +kernel)
  rw [lasts] at picture sound
  exact ⟨spans overlapping 8 (1 / 2) (by decide +kernel) (by decide +kernel), g, compiled, picture,
    count.trans tracks, sound⟩

end Montage.Graph
