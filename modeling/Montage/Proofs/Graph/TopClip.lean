import Montage.Proofs.Graph.Segments
import Montage.Proofs.Graph.Winner
import Montage.Proofs.Stream.Stacking
import Montage.Proofs.Timeline.Flatten

/- The clip that a compiled timeline shows and the clip that is drawn last. Both lie on the lowest
   track that has a clip at the time; there the timeline shows the clip that begins last, while
   the clip that was put there last is drawn on top. -/
namespace Montage

namespace Scheduled

/-- On the same track from the same time on. -/
def alongside (s x : Scheduled Rat) : Bool :=
  x.trackIndex == s.trackIndex && decide (x.timing.start = s.timing.start)

theorem alongside_iff {s x : Scheduled Rat} :
    s.alongside x = true ↔ x.trackIndex = s.trackIndex ∧ x.timing.start = s.timing.start := by
  simp [alongside]

/-- Where every other gives way to a clip, only the ones alongside it take over from it. -/
theorem alongside_takesOver {s x : Scheduled Rat} (above : x.candidate.takesOver s.candidate = true) :
    s.candidate.takesOver x.candidate = s.alongside x := by
  rw [Candidate.takesOver_iff] at above
  rw [Bool.eq_iff_iff, Candidate.takesOver_iff, alongside_iff]
  change s.trackIndex < x.trackIndex ∨
    s.trackIndex = x.trackIndex ∧ x.timing.start ≤ s.timing.start at above
  change x.trackIndex < s.trackIndex ∨
    x.trackIndex = s.trackIndex ∧ s.timing.start ≤ x.timing.start ↔ _
  constructor
  · rintro (lower | ⟨same, later⟩)
    · omega
    · rcases above with lower | ⟨-, earlier⟩
      · omega
      · exact ⟨same, le_antisymm earlier later⟩
  · rintro ⟨same, start⟩
    exact .inr ⟨same, start.ge⟩

end Scheduled

namespace Project

variable {p : Project Rat} {t : Rat} {s top : Scheduled Rat}

theorem mem_layersAt : s ∈ p.layersAt t ↔ s ∈ p.playedVideo ∧ s.timing.contains t = true := by
  rw [layersAt, List.mem_filter, mem_layers]

theorem layersAt_none : (p.layersAt t).getLast? = none ↔
    ∀ s ∈ p.playedVideo, s.timing.contains t = false := by
  rw [List.getLast?_eq_none_iff, List.eq_nil_iff_forall_not_mem]
  constructor
  · intro empty s member
    exact Bool.eq_false_iff.mpr fun contains => empty s (mem_layersAt.mpr ⟨member, contains⟩)
  · intro outside s member
    obtain ⟨played, contains⟩ := mem_layersAt.mp member
    rw [outside s played] at contains
    cases contains

/-- The layer drawn last lies on the lowest track. -/
theorem top_lowest (last : (p.layersAt t).getLast? = some top) :
    ∀ x ∈ p.layersAt t, top.trackIndex ≤ x.trackIndex := by
  have sorted := (layers_sorted p).filter fun s => s.timing.contains t
  change (p.layersAt t).Pairwise _ at sorted
  obtain ⟨below, form⟩ := List.getLast?_eq_some_iff.mp last
  rw [form] at sorted ⊢
  intro x member
  rcases List.mem_append.mp member with member | member
  · exact (List.pairwise_append.mp sorted).2.2 x member top List.mem_cons_self
  · rw [List.mem_singleton.mp member]

/-- Clips alongside one another are drawn in the order of the timeline sorted by start. -/
theorem layersAt_alongside (member : s ∈ p.playedVideo) :
    (p.layersAt t).filter s.alongside =
      (Graph.byStart p.playedVideo).filter fun x => x.timing.contains t && s.alongside x := by
  have onTrack : ∀ x, (x.timing.contains t && s.alongside x) = true → x.trackIndex = s.trackIndex := by
    intro x chosen
    rw [Bool.and_eq_true, Scheduled.alongside_iff] at chosen
    exact chosen.2.1
  rw [Graph.byStart_filter, ← layers_filter (playedVideo_track member) onTrack, layersAt,
    List.filter_filter]
  · simp only [Bool.and_comm]
  · intro a b ha hb
    rw [Bool.and_eq_true, Scheduled.alongside_iff] at ha hb
    exact ⟨ha.2.2.trans hb.2.2.symm, ha.2.1.trans hb.2.1.symm⟩

/-- A clip that all others give way to, the last of its kind, begins last on the track of the one
drawn last, and is that one exactly when none there begins later. -/
theorem last_drawn_iff (inside : s ∈ p.layersAt t)
    (above : ∀ x ∈ p.layersAt t, x.candidate.takesOver s.candidate = true)
    (final : ((Graph.byStart p.playedVideo).filter fun x =>
      x.timing.contains t && s.candidate.takesOver x.candidate).getLast? = some s)
    (last : (p.layersAt t).getLast? = some top) :
    s.trackIndex = top.trackIndex ∧
      (∀ x ∈ p.layersAt t, x.trackIndex = top.trackIndex → x.timing.start ≤ s.timing.start) ∧
      (s = top ↔ ∀ x ∈ p.layersAt t,
        x.trackIndex = top.trackIndex → x.timing.start ≤ top.timing.start) := by
  have lowest := top_lowest last s inside
  have present := List.mem_of_getLast? last
  have gives : ∀ x ∈ p.layersAt t, s.trackIndex < x.trackIndex ∨
      s.trackIndex = x.trackIndex ∧ x.timing.start ≤ s.timing.start :=
    fun x member => (Candidate.takesOver_iff _ _).mp (above x member)
  have same : s.trackIndex = top.trackIndex := by
    rcases gives top present with lower | ⟨same, -⟩
    · omega
    · exact same
  have begins : ∀ x ∈ p.layersAt t, x.trackIndex = top.trackIndex →
      x.timing.start ≤ s.timing.start := by
    intro x member level
    rcases gives x member with lower | ⟨-, earlier⟩
    · omega
    · exact earlier
  refine ⟨same, begins, ?_, ?_⟩
  · rintro rfl
    exact begins
  · intro latest
    have start : top.timing.start = s.timing.start := by
      rcases gives top present with lower | ⟨-, earlier⟩
      · omega
      · exact le_antisymm earlier (latest s inside same)
    have kept : ((Graph.byStart p.playedVideo).filter fun x =>
        x.timing.contains t && s.candidate.takesOver x.candidate) =
          (p.layersAt t).filter s.alongside := by
      rw [layersAt_alongside (mem_layersAt.mp inside).1]
      apply List.filter_congr
      intro x member
      cases contains : x.timing.contains t with
      | false => rfl
      | true =>
        have shows := mem_layersAt.mpr ⟨Graph.byStart_mem.mp member, contains⟩
        rw [Scheduled.alongside_takesOver (above x shows)]
    obtain ⟨below, form⟩ := List.getLast?_eq_some_iff.mp last
    have joins : s.alongside top = true := Scheduled.alongside_iff.mpr ⟨same.symm, start⟩
    rw [kept, form, List.filter_append, List.filter_singleton, joins] at final
    simpa using final.symm

end Project

namespace Graph

variable {p : Project Rat} {settings : RenderSettings Rat} {t : Rat}

theorem closeness_frame (positive : 0 < settings.framerate) (usual : settings.framerate < 1000000000) :
    closeness < 1 / settings.framerate := by
  rw [closeness_rat]
  exact one_div_lt_one_div_of_lt positive usual

/-- One segment covers the time, and it shows who plays in the finished spans. -/
theorem one_segment_covers (options : Options) (fine : closeness < 1 / settings.framerate)
    (low : 0 ≤ t) (early : t + 1 / settings.framerate ≤ p.duration) :
    ∃ g seg, compile p settings options = some g ∧ g.videoSegments.filter (·.covers t) = [seg] ∧
      ∀ w, Plays (flatten (videoCandidates (byStart p.playedVideo)) p.duration
          (1 / settings.framerate)) t w →
        seg.source.map (·.1) = (w.bind fun i => (byStart p.playedVideo)[i]?).map (·.clip.id) := by
  have positive := closeness_pos
  have lasts : 0 < p.duration := by linarith
  obtain ⟨g, compiled, segments⟩ := compile_video settings options lasts
  obtain ⟨stop, swept, tiles, -⟩ :=
    flatten_tiles (videoCandidates (byStart p.playedVideo)) lasts fine
  have high : t < stop := by linarith [swept.reach]
  obtain ⟨span, member, d, holds, only⟩ :=
    segments_cover (addVideoSpan_placing (byStart p.playedVideo) settings) tiles low high Draft.empty
  refine ⟨g, _, compiled, segments ▸ only, ?_⟩
  intro w plays
  rw [addVideoSpan_source, plays_unique tiles ⟨span, member, holds, rfl⟩ plays]

/-- Where clips play, the finished spans show one that all others give way to. -/
theorem flatten_shows {top : Scheduled Rat} (fine : closeness < 1 / settings.framerate) (low : 0 ≤ t)
    (early : t + 1 / settings.framerate ≤ p.duration)
    (clear : ∀ s ∈ p.playedVideo, s.timing.Clear (1 / settings.framerate) t)
    (last : (p.layersAt t).getLast? = some top) :
    ∃ i s, Plays (flatten (videoCandidates (byStart p.playedVideo)) p.duration
        (1 / settings.framerate)) t (some i) ∧ (byStart p.playedVideo)[i]? = some s ∧
      s ∈ p.layersAt t ∧ s.trackIndex = top.trackIndex ∧
      (∀ x ∈ p.layersAt t, x.trackIndex = top.trackIndex → x.timing.start ≤ s.timing.start) ∧
      (s = top ↔ ∀ x ∈ p.layersAt t,
        x.trackIndex = top.trackIndex → x.timing.start ≤ top.timing.start) := by
  have step := closeness_pos.trans fine
  have inside : t < p.duration := by linarith
  have clear' : ∀ s ∈ byStart p.playedVideo, s.timing.Clear (1 / settings.framerate) t :=
    fun s member => clear s (byStart_mem.mp member)
  have present := Project.mem_layersAt.mp (List.mem_of_getLast? last)
  obtain ⟨b, found⟩ : ∃ b, winnerAt (contenders (videoCandidates (byStart p.playedVideo))
      p.duration (1 / settings.framerate)) t = some b := by
    rw [← Option.ne_none_iff_exists', Ne, no_winner_iff step low inside clear']
    intro silent
    rw [silent top (byStart_mem.mpr present.1)] at present
    exact Bool.false_ne_true present.2
  obtain ⟨s, stands, listed, contains, above, final⟩ := winner_clip step low inside clear' found
  have drawn := Project.mem_layersAt.mpr ⟨byStart_mem.mp listed, contains⟩
  have gives : ∀ x ∈ p.layersAt t, x.candidate.takesOver s.candidate = true := by
    intro x member
    obtain ⟨played, contains⟩ := Project.mem_layersAt.mp member
    exact above x (byStart_mem.mpr played) contains
  exact ⟨b.index, s, flatten_covered (low.trans_lt inside) fine low (by linarith) found, stands, drawn,
    Project.last_drawn_iff drawn gives final last⟩

/-- Where no clip plays, the finished spans show a clip only over a swallowed gap. -/
theorem flatten_fills (fine : closeness < 1 / settings.framerate) (low : 0 ≤ t)
    (early : t + 1 / settings.framerate ≤ p.duration)
    (clear : ∀ s ∈ p.playedVideo, s.timing.Clear (1 / settings.framerate) t)
    (none : (p.layersAt t).getLast? = none) :
    ∃ w, Plays (flatten (videoCandidates (byStart p.playedVideo)) p.duration
        (1 / settings.framerate)) t w ∧
      ((w.bind fun i => (byStart p.playedVideo)[i]?) = .none ↔
        ¬ Swallowed (videoCandidates (byStart p.playedVideo)) p.duration
          (1 / settings.framerate) t) := by
  have step := closeness_pos.trans fine
  have inside : t < p.duration := by linarith
  have lasts := low.trans_lt inside
  have silent : winnerAt (contenders (videoCandidates (byStart p.playedVideo))
      p.duration (1 / settings.framerate)) t = .none := by
    rw [no_winner_iff step low inside fun s member => clear s (byStart_mem.mp member)]
    exact fun s member => Project.layersAt_none.mp none s (byStart_mem.mp member)
  obtain ⟨w, plays, nobody⟩ := flatten_silent lasts fine low (by linarith) silent
  refine ⟨w, plays, ?_⟩
  rw [← nobody]
  cases w with
  | none => exact iff_of_true rfl rfl
  | some i =>
    obtain ⟨c, listed, rfl⟩ := flatten_listed lasts fine (by linarith) plays
    rw [contenders_clips] at listed
    obtain ⟨⟨s, i⟩, stands, rfl⟩ := List.mem_map.mp listed
    have found : (byStart p.playedVideo)[(s.contender p.duration (1 / settings.framerate) i).index]? =
        .some s := List.mem_zipIdx_iff_getElem?.mp stands
    rw [Option.bind_some, found]
    exact iff_of_false nofun nofun

/-- At a time at least a frame away from where clips begin and end, exactly one segment covers it.
Where clips play it shows the one that begins last on the lowest track, which is the one drawn last
exactly when none there begins later than that; where none plays it is filler, unless the gap was
swallowed. -/
theorem segment_shows_top_iff (options : Options) (positive : 0 < settings.framerate)
    (usual : settings.framerate < 1000000000) (low : 0 ≤ t)
    (early : t + 1 / settings.framerate ≤ p.duration)
    (clear : ∀ s ∈ p.playedVideo, s.timing.Clear (1 / settings.framerate) t) :
    ∃ g seg, compile p settings options = some g ∧ g.videoSegments.filter (·.covers t) = [seg] ∧
      (∀ top, (p.layersAt t).getLast? = some top → ∃ s ∈ p.layersAt t,
        seg.source.map (·.1) = some s.clip.id ∧ s.trackIndex = top.trackIndex ∧
          (∀ x ∈ p.layersAt t, x.trackIndex = top.trackIndex → x.timing.start ≤ s.timing.start) ∧
          (s = top ↔ ∀ x ∈ p.layersAt t,
            x.trackIndex = top.trackIndex → x.timing.start ≤ top.timing.start)) ∧
      ((p.layersAt t).getLast? = none → (seg.source = none ↔
        ¬ Swallowed (videoCandidates (byStart p.playedVideo)) p.duration
          (1 / settings.framerate) t)) := by
  have fine := closeness_frame positive usual
  obtain ⟨g, seg, compiled, only, shows⟩ := one_segment_covers options fine low early
  refine ⟨g, seg, compiled, only, ?_, ?_⟩
  · intro top last
    obtain ⟨i, s, plays, stands, drawn, same, begins, iff⟩ := flatten_shows fine low early clear last
    refine ⟨s, drawn, ?_, same, begins, iff⟩
    rw [shows _ plays, Option.bind_some, stands]
    rfl
  · intro none
    obtain ⟨w, plays, fills⟩ := flatten_fills fine low early clear none
    rw [← fills, ← Option.map_eq_none_iff (f := fun x : String × Nat => x.1), shows w plays,
      Option.map_eq_none_iff]

/-- One video track with these clips of a file that lasts ten seconds. -/
def oneTrack (clips : List (Clip Rat)) : Project Rat :=
  { id := "p"
    name := "p"
    mediaFiles := [MediaFile.ofVideo "m" "/v/a.mp4" 10 64 64 10]
    tracks := [⟨"v", .video, clips, false⟩]
    transitions := []
    framerate := 10 }

def earlyClip : Clip Rat := Clip.new "early" "m" 0

def lateClip : Clip Rat := Clip.new "late" "m" 2

def framed (rate : Rat) : RenderSettings Rat :=
  { (RenderSettings.standard : RenderSettings Rat) with framerate := rate }

def plainOptions : Options := ⟨"/tmp", none, 20, 48000, 2, 128⟩

/-- In either order the late clip is the one on the track that begins last. -/
theorem late_begins_last {clips : List (Clip Rat)}
    (order : clips = [earlyClip, lateClip] ∨ clips = [lateClip, earlyClip]) :
    ∀ s ∈ (oneTrack clips).layersAt 5, ∀ top ∈ (oneTrack clips).layersAt 5,
      (∀ x ∈ (oneTrack clips).layersAt 5,
        x.trackIndex = top.trackIndex → x.timing.start ≤ s.timing.start) → s.clip.id = "late" := by
  rcases order with rfl | rfl
  · decide +kernel
  · decide +kernel

theorem segment_shows_top_iff_in_order :
    ∃ g seg, compile (oneTrack [earlyClip, lateClip]) (framed 10) plainOptions = some g ∧
      g.videoSegments.filter (·.covers 5) = [seg] ∧ seg.source.map (·.1) = some "late" ∧
      ((oneTrack [earlyClip, lateClip]).layersAt 5).getLast?.map (·.clip.id) = some "late" := by
  have last : ((oneTrack [earlyClip, lateClip]).layersAt 5).getLast?.map (·.clip.id) =
      some "late" := by
    decide +kernel
  have positive : 0 < (framed 10).framerate := by decide +kernel
  obtain ⟨g, seg, compiled, only, shows, -⟩ :=
    segment_shows_top_iff (p := oneTrack [earlyClip, lateClip]) (t := 5) plainOptions positive
      (by decide +kernel) (by decide +kernel) (by decide +kernel) (by decide +kernel)
  obtain ⟨top, drawn, -⟩ := Option.map_eq_some_iff.mp last
  obtain ⟨s, inside, source, -, begins, -⟩ := shows top drawn
  rw [late_begins_last (.inl rfl) s inside top (List.mem_of_getLast? drawn) begins] at source
  exact ⟨g, seg, compiled, only, source, last⟩

/-- Put there in the other order, the clip that begins first is drawn over the one shown. -/
theorem late_segment_under_early_layer :
    ∃ g seg, compile (oneTrack [lateClip, earlyClip]) (framed 10) plainOptions = some g ∧
      g.videoSegments.filter (·.covers 5) = [seg] ∧ seg.source.map (·.1) = some "late" ∧
      ((oneTrack [lateClip, earlyClip]).layersAt 5).getLast?.map (·.clip.id) = some "early" := by
  have last : ((oneTrack [lateClip, earlyClip]).layersAt 5).getLast?.map (·.clip.id) =
      some "early" := by
    decide +kernel
  have fine : closeness < 1 / (framed 10).framerate := by decide +kernel
  have early : 5 + 1 / (framed 10).framerate ≤ (oneTrack [lateClip, earlyClip]).duration := by
    decide +kernel
  obtain ⟨g, seg, compiled, only, shows⟩ :=
    one_segment_covers plainOptions fine (by decide +kernel) early
  obtain ⟨top, drawn, -⟩ := Option.map_eq_some_iff.mp last
  obtain ⟨i, s, plays, stands, inside, -, begins, -⟩ :=
    flatten_shows fine (by decide +kernel) early (by decide +kernel) drawn
  refine ⟨g, seg, compiled, only, ?_, last⟩
  rw [shows _ plays, Option.bind_some, stands, Option.map_some,
    late_begins_last (.inr rfl) s inside top (List.mem_of_getLast? drawn) begins]

/-- Ten seconds, two clips of a quarter and an eighth, and ten seconds again. -/
def brokenGap : List (Clip Rat) :=
  [Clip.new "before" "m" 0,
    { (Clip.new "left" "m" (117 / 8) : Clip Rat) with trimEnd := 39 / 4 },
    { (Clip.new "right" "m" (121 / 8) : Clip Rat) with trimEnd := 79 / 8 },
    Clip.new "after" "m" 20]

end Graph

end Montage
