import Montage.Proofs.Graph.Pieces
import Montage.Proofs.Graph.Segments
import Montage.Proofs.Graph.Winner
import Montage.Proofs.Sound.Voices
import Montage.Proofs.Timeline.Tail

/- The audio clips that a mix and a compiled graph let one hear at a time. The mix adds all clips
   that play then; a track of the graph has one clip at a time, and fills gaps and a tail that are
   too short with the clip before them. -/
namespace Montage

/-- Time that nobody plays and that is given to the clip before it. -/
def Filled (cs : List (Candidate Rat)) (total step t : Rat) : Prop :=
  Swallowed cs total step t ∨ Trailing cs total step t

section Flattened
variable {clips : List (Scheduled Rat)} {total step t : Rat}

/-- Where clips play, one plays that all others give way to. -/
theorem flatten_clip (fine : closeness < step) (low : 0 ≤ t)
    (clear : ∀ s ∈ clips, s.timing.Clear step t) (inside : ∀ s ∈ clips, s.timing.stop ≤ total)
    {r : Scheduled Rat} (listed : r ∈ clips) (plays : r.timing.contains t = true) :
    ∃ i s, Plays (flatten (Graph.videoCandidates clips) total step) t (some i) ∧
      clips[i]? = some s ∧ s.timing.contains t = true ∧
      ∀ x ∈ clips, x.timing.contains t = true → x.candidate.takesOver s.candidate = true := by
  have step' := closeness_pos.trans fine
  have early : t ≤ total - step := by
    simp only [Timing.contains, Bool.and_eq_true, decide_eq_true_eq] at plays
    have far := (clear r listed).2
    rw [abs_of_neg (by linarith)] at far
    linarith [inside r listed]
  have high : t < total := by linarith
  obtain ⟨b, found⟩ : ∃ b, winnerAt (contenders (Graph.videoCandidates clips) total step) t =
      some b := by
    rw [← Option.ne_none_iff_exists', Ne, no_winner_iff step' low high clear]
    intro silent
    rw [silent r listed] at plays
    cases plays
  obtain ⟨s, stands, -, contains, above, -⟩ := winner_clip step' low high clear found
  exact ⟨b.index, s, flatten_covered (low.trans_lt high) fine low early found, stands, contains,
    above⟩

theorem contenders_over (fine : 2 * closeness < step) (lasts : closeness < total) (low : 0 ≤ t)
    (high : t < total) (late : total - step < t) (clear : ∀ s ∈ clips, s.timing.Clear step t)
    (inside : ∀ s ∈ clips, s.timing.start < s.timing.stop ∧ s.timing.stop ≤ total) :
    Over (contenders (Graph.videoCandidates clips) total step) total t := by
  have small := closeness_pos
  have step' : 0 < step := by linarith
  -- the end of the timeline is too near for a clip still to come, or to end
  have past : ∀ x, step ≤ |t - x| → x ≤ total → x ≤ t ∧
      Scalar.clamp 0 total (snap x step) + closeness < total := by
    intro x far within
    have before : step ≤ t - x := by
      rcases le_abs.mp far with after | before
      · exact after
      · linarith
    obtain ⟨-, above, -⟩ := snap_rat x step'
    refine ⟨by linarith, ?_⟩
    rw [Scalar.clamp_rat]
    split
    · linarith
    · split
      · linarith
      · linarith
  have all : ∀ c ∈ contenders (Graph.videoCandidates clips) total step,
      c.low ≤ t ∧ c.high ≤ t ∧ c.low + closeness < total ∧ c.high + closeness < total := by
    intro c member
    rw [contenders_clips] at member
    obtain ⟨⟨s, i⟩, listed, rfl⟩ := List.mem_map.mp member
    have mem := List.mem_of_getElem? (List.mem_zipIdx_iff_getElem?.mp listed)
    obtain ⟨begun, ended⟩ := clear s mem
    obtain ⟨less, within⟩ := inside s mem
    obtain ⟨start, apart⟩ := past s.timing.start begun (less.le.trans within)
    obtain ⟨stop, apart'⟩ := past s.timing.stop ended within
    exact ⟨(clamp_side step' low high begun).mpr start, (clamp_side step' low high ended).mpr stop,
      apart, apart'⟩
  exact ⟨fun c member => (all c member).1, fun c member => (all c member).2.1,
    fun c member => (all c member).2.2⟩

theorem clip_of_contender {i : Nat}
    (listed : ∃ c ∈ contenders (Graph.videoCandidates clips) total step, c.index = i) :
    ∃ s, clips[i]? = some s := by
  obtain ⟨c, member, rfl⟩ := listed
  rw [contenders_clips] at member
  obtain ⟨⟨s, i⟩, stands, rfl⟩ := List.mem_map.mp member
  exact ⟨s, List.mem_zipIdx_iff_getElem?.mp stands⟩

/-- Without contenders that have a length no time is filled. -/
theorem filled_visible {cs : List (Candidate Rat)} (filled : Filled cs total step t) :
    ∃ c ∈ contenders cs total step, c.Visible := by
  rcases filled with ⟨a, b, gap, -⟩ | ⟨c, member, visible, -⟩
  · obtain ⟨c, member, visible, -⟩ := gap.before
    exact ⟨c, member, visible⟩
  · exact ⟨c, member, visible⟩

/-- Where no clip plays, nobody does, unless the time is filled. -/
theorem flatten_nobody (fine : 2 * closeness < step) (positive : 0 < total) (low : 0 ≤ t)
    (high : t < total) (clear : ∀ s ∈ clips, s.timing.Clear step t)
    (inside : ∀ s ∈ clips, s.timing.start < s.timing.stop ∧ s.timing.stop ≤ total)
    (silent : ∀ s ∈ clips, s.timing.contains t = false) :
    (flatten (Graph.videoCandidates clips) total step = [] ∧
      ¬ Filled (Graph.videoCandidates clips) total step t) ∨
    ∃ w, Plays (flatten (Graph.videoCandidates clips) total step) t w ∧
      ((w.bind fun i => clips[i]?) = none ↔
        ¬ Filled (Graph.videoCandidates clips) total step t) := by
  have small := closeness_pos
  have usual : closeness < step := by linarith
  -- a place that plays has a clip
  have clip : ∀ w : Option Nat, (∀ i, w = some i →
      ∃ c ∈ contenders (Graph.videoCandidates clips) total step, c.index = i) →
      ((w.bind fun i => clips[i]?) = none ↔ w = none) := by
    intro w listed
    cases w with
    | none => exact iff_of_true rfl rfl
    | some i =>
      obtain ⟨s, stands⟩ := clip_of_contender (listed i rfl)
      rw [Option.bind_some, stands]
      exact iff_of_false nofun nofun
  rcases le_or_gt t (total - step) with early | late
  · have winner := (no_winner_iff (small.trans usual) low high clear).mpr silent
    obtain ⟨w, plays, nobody⟩ := flatten_silent positive usual low early winner
    have trail : ¬ Trailing (Graph.videoCandidates clips) total step t := by
      rintro ⟨c, -, -, -, before, short⟩
      linarith
    refine .inr ⟨w, plays, ?_⟩
    rw [clip w fun i same => flatten_listed positive usual early (same ▸ plays), nobody, Filled,
      or_iff_left trail]
  · rcases le_or_gt total closeness with brief | lasts
    · refine .inl ⟨flatten_brief (small.trans usual) brief, ?_⟩
      intro filled
      obtain ⟨c, member, visible⟩ := filled_visible filled
      have grid := contenders_aligned (Graph.videoCandidates clips) positive.le
        (small.trans usual) c member
      rw [Contender.Visible] at visible
      linarith [grid.1.low, grid.2.high]
    · have past := contenders_over fine lasts low high late clear inside
      obtain ⟨w, plays, nobody, listed⟩ := flatten_tail lasts usual low high past
      have gap : ¬ Swallowed (Graph.videoCandidates clips) total step t := by
        rintro ⟨a, b, gap, -, before, -⟩
        obtain ⟨d, member, -, begins⟩ := gap.after
        linarith [past.begun d member]
      refine .inr ⟨w, plays, ?_⟩
      rw [clip w listed, nobody, Filled, or_iff_right gap]

end Flattened

theorem audioStep_rat : (Graph.audioStep : Rat) = 1 / 1000 := by
  change ((1 : Nat) : Rat) / ((tenTo 3 : Nat) : Rat) = 1 / 1000
  norm_num [tenTo]

namespace Graph

/-- Clips that play at a time. -/
def soundingAt (clips : List (Scheduled Rat)) (t : Rat) : List (Scheduled Rat) :=
  clips.filter (·.timing.contains t)

/-- Clips whose segments cover a time. -/
def heardAt (segments : List (Segment Rat)) (t : Rat) : List String :=
  ((segments.filter (·.covers t)).filterMap (·.source)).map (·.1)

/-- The candidates of one audio track. -/
def audioCandidates (clips : List (Scheduled Rat)) : List (Candidate Rat) :=
  clips.map fun s => ⟨0, s.timing.start, s.timing.stop⟩

theorem audioCandidates_level (clips : List (Scheduled Rat)) :
    audioCandidates clips = videoCandidates (clips.map (·.level)) := by
  rw [videoCandidates, List.map_map]
  rfl

section Pieces
variable {clips : List (Scheduled Rat)} {shape : AudioShape} {pieces : List (Piece Rat)}
  {spans : List (Span Rat)} {a b t : Rat} {x : Piece Rat}

theorem audioPiece_place (made : AudioPiece clips shape x) :
    x.segment.start = x.span.start ∧ x.segment.duration = x.span.duration ∧
      x.segment.source.map (·.1) =
        (x.span.winner.bind fun i => clips[i]?).map (·.clip.id) := by
  unfold AudioPiece at made
  split at made
  · rename_i nobody
    rw [made, nobody]
    exact ⟨rfl, rfl, rfl⟩
  · rename_i s owner
    obtain ⟨input, shows, -⟩ := made
    rw [shows, owner]
    exact ⟨rfl, rfl, rfl⟩

/-- At a time one hears in the segments who plays then in their spans. -/
theorem pieces_heard (tiles : Tiles a spans b) (own : pieces.map (·.span) = spans)
    (made : ∀ x ∈ pieces, AudioPiece clips shape x) {w : Option Nat} (plays : Plays spans t w) :
    heardAt (pieces.map (·.segment)) t =
      ((w.bind fun i => clips[i]?).map (·.clip.id)).toList := by
  obtain ⟨s, member, holds, rfl⟩ := plays
  have bounds := tiles_member tiles member
  obtain ⟨r, only⟩ := tiles_filter tiles (bounds.1.trans holds.1) (holds.2.trans_le bounds.2.2)
  have same : r = s := by
    have inside : s ∈ spans.filter fun s => decide (s.Holds t) :=
      List.mem_filter.mpr ⟨member, decide_eq_true holds⟩
    rw [only] at inside
    exact (List.mem_singleton.mp inside).symm
  rw [← own, List.filter_map, same] at only
  obtain ⟨x, alone, place⟩ := List.map_eq_singleton_iff.mp only
  have mem : x ∈ pieces := by
    have inside : x ∈ [x] := List.mem_singleton_self x
    rw [← alone] at inside
    exact List.mem_of_mem_filter inside
  have covering : pieces.filter (fun x => x.segment.covers t) = [x] := by
    rw [← alone]
    apply List.filter_congr
    intro y inside
    obtain ⟨start, duration, -⟩ := audioPiece_place (made y inside)
    rw [Bool.eq_iff_iff, covers_iff start duration]
    exact decide_eq_true_iff.symm
  have shows : (pieces.map (·.segment)).filter (·.covers t) = [x.segment] := by
    rw [List.filter_map]
    exact congrArg (List.map (·.segment)) covering
  rw [heardAt, shows, ← place, ← (audioPiece_place (made x mem)).2.2]
  cases form : x.segment.source <;> simp [form]

theorem addAudioTracks_pieces (shape : AudioShape) (duration : Rat)
    (tracks : List (List (Scheduled Rat))) (d : Draft Rat) :
    List.Forall₂ (fun clips segments => ∃ pieces : List (Piece Rat),
        pieces.map (·.span) = flatten (audioCandidates clips) duration audioStep ∧
        pieces.map (·.segment) = segments ∧ ∀ x ∈ pieces, AudioPiece clips shape x)
      tracks (addAudioTracks shape duration d tracks).2.2 := by
  induction tracks generalizing d with
  | nil => exact .nil
  | cons clips tracks ih =>
    obtain ⟨pieces, spans, -, -, segments, made⟩ := addSpans_pieces
      (addAudioSpan_adding clips shape) d (flatten (audioCandidates clips) duration audioStep)
    exact .cons ⟨pieces, spans, segments.symm, made⟩ (ih _)

/-- Each audio track of a compiled graph is made of the pieces of its spans. -/
theorem compile_audio {p : Project Rat} (settings : RenderSettings Rat) (options : Options)
    (lasts : 0 < p.duration) :
    ∃ g, compile p settings options = some g ∧ ∃ shape,
      List.Forall₂ (fun clips segments => ∃ pieces : List (Piece Rat),
          pieces.map (·.span) = flatten (audioCandidates clips) p.duration audioStep ∧
          pieces.map (·.segment) = segments ∧ ∀ x ∈ pieces, AudioPiece clips shape x)
        p.playedAudioTracks g.audioTracks := by
  unfold compile
  simp only [not_le.mpr lasts, if_false]
  exact ⟨_, rfl, _, addAudioTracks_pieces _ p.duration p.playedAudioTracks _⟩

end Pieces

/-- No two clips of a track play, and where none does nothing is filled. -/
def Unmixed (clips : List (Scheduled Rat)) (total t : Rat) : Prop :=
  (soundingAt clips t).length ≤ 1 ∧
    (soundingAt clips t = [] → ¬ Filled (audioCandidates clips) total audioStep t)

/-- What one hears of a track at a time: exactly the clips that play, where none of them is to
be mixed, and of several one that begins last. -/
structure Heard (total t : Rat) (clips : List (Scheduled Rat)) (segments : List (Segment Rat)) :
    Prop where
  agrees : heardAt segments t = (soundingAt clips t).map (·.clip.id) ↔ Unmixed clips total t
  latest : soundingAt clips t ≠ [] → ∃ s ∈ soundingAt clips t,
    heardAt segments t = [s.clip.id] ∧ ∀ x ∈ soundingAt clips t, x.timing.start ≤ s.timing.start

section Track
variable {clips : List (Scheduled Rat)} {segments : List (Segment Rat)} {total t : Rat}

theorem heard_of_cases
    (latest : soundingAt clips t ≠ [] → ∃ s ∈ soundingAt clips t, heardAt segments t = [s.clip.id] ∧
      ∀ x ∈ soundingAt clips t, x.timing.start ≤ s.timing.start)
    (silent : soundingAt clips t = [] →
      (heardAt segments t = [] ↔ ¬ Filled (audioCandidates clips) total audioStep t)) :
    Heard total t clips segments := by
  refine ⟨?_, latest⟩
  unfold Unmixed
  cases form : soundingAt clips t with
  | nil =>
    rw [List.map_nil, silent form]
    simp
  | cons x rest =>
    obtain ⟨s, member, only, -⟩ := latest (by simp [form])
    rw [only]
    cases rest with
    | nil =>
      rw [form] at member
      rw [List.mem_singleton.mp member]
      simp
    | cons y rest => simp

theorem audioStep_fine : 2 * closeness < (audioStep : Rat) := by
  rw [closeness_rat, audioStep_rat]
  norm_num

theorem level_takesOver {s r : Scheduled Rat}
    (above : r.level.candidate.takesOver s.level.candidate = true) :
    r.timing.start ≤ s.timing.start := by
  rcases (Candidate.takesOver_iff _ _).mp above with lower | ⟨-, later⟩
  · exact absurd lower (lt_irrefl 0)
  · exact later

/-- A track's pieces let one hear its clips so. -/
theorem track_heard {shape : AudioShape} {pieces : List (Piece Rat)} (low : 0 ≤ t) (high : t < total)
    (clear : ∀ s ∈ clips, s.timing.Clear audioStep t)
    (inside : ∀ s ∈ clips, s.timing.start < s.timing.stop ∧ s.timing.stop ≤ total)
    (spans : pieces.map (·.span) = flatten (audioCandidates clips) total audioStep)
    (made : ∀ x ∈ pieces, AudioPiece clips shape x) :
    Heard total t clips (pieces.map (·.segment)) := by
  have small := closeness_pos
  have fine := audioStep_fine
  have positive : 0 < total := low.trans_lt high
  have usual : closeness < (audioStep : Rat) := by linarith
  obtain ⟨stop, -, tiles, -⟩ := flatten_tiles (audioCandidates clips) positive usual
  have level := audioCandidates_level clips
  have clear' : ∀ s ∈ clips.map (·.level), s.timing.Clear audioStep t := by
    simpa [Scheduled.level] using clear
  have inside' : ∀ s ∈ clips.map (·.level), s.timing.start < s.timing.stop ∧
      s.timing.stop ≤ total := by
    simpa [Scheduled.level] using inside
  apply heard_of_cases
  · intro some
    obtain ⟨r, member⟩ := List.exists_mem_of_ne_nil _ some
    obtain ⟨listed, plays⟩ := List.mem_filter.mp member
    obtain ⟨i, s', shows, stands, contains, above⟩ := flatten_clip usual low clear'
      (fun s mem => (inside' s mem).2) (List.mem_map_of_mem listed) plays
    rw [List.getElem?_map] at stands
    obtain ⟨s, found, rfl⟩ := Option.map_eq_some_iff.mp stands
    rw [← level] at shows
    refine ⟨s, List.mem_filter.mpr ⟨List.mem_of_getElem? found, contains⟩, ?_, ?_⟩
    · rw [pieces_heard tiles spans made shows, Option.bind_some, found]
      rfl
    · intro x mem
      obtain ⟨listed', plays'⟩ := List.mem_filter.mp mem
      exact level_takesOver (above x.level (List.mem_map_of_mem listed') plays')
  · intro none
    have silent : ∀ s ∈ clips.map (·.level), s.timing.contains t = false := by
      simpa [soundingAt, Scheduled.level, List.filter_eq_nil_iff] using none
    rcases flatten_nobody fine positive low high clear' inside' silent with
      ⟨nothing, free⟩ | ⟨w, shows, nobody⟩
    · rw [← level] at nothing free
      rw [nothing, List.map_eq_nil_iff] at spans
      rw [spans]
      exact iff_of_true rfl free
    · rw [← level] at shows nobody
      rw [pieces_heard tiles spans made shows, ← nobody]
      cases w with
      | none => exact iff_of_true rfl rfl
      | some i =>
        rw [Option.bind_some, Option.bind_some, List.getElem?_map]
        cases clips[i]? <;> simp

end Track

/-- Where no track has clips to mix, one hears what plays. -/
theorem heard_all {tracks : List (List (Scheduled Rat))} {segments : List (List (Segment Rat))}
    {total t : Rat} (heard : List.Forall₂ (Heard total t) tracks segments)
    (unmixed : ∀ clips ∈ tracks, Unmixed clips total t) :
    segments.flatMap (heardAt · t) = (soundingAt tracks.flatten t).map (·.clip.id) := by
  induction heard with
  | nil => rfl
  | @cons clips row tracks rows first _ ih =>
    obtain ⟨here, rest⟩ := List.forall_mem_cons.mp unmixed
    rw [List.flatMap_cons, ih rest, first.agrees.mpr here, List.flatten_cons]
    simp only [soundingAt, List.filter_append, List.map_append]

variable {p : Project Rat} {t : Rat}

/-- Each track of a compiled graph lets one hear its clips so. -/
theorem compile_heard (settings : RenderSettings Rat) (options : Options) (low : 0 ≤ t)
    (high : t < p.duration) (clear : ∀ s ∈ p.playedAudio, s.timing.Clear audioStep t) :
    ∃ g, compile p settings options = some g ∧
      List.Forall₂ (Heard p.duration t) p.playedAudioTracks g.audioTracks := by
  obtain ⟨g, compiled, shape, parts⟩ := compile_audio settings options (low.trans_lt high)
  refine ⟨g, compiled, ?_⟩
  refine List.forall₂_iff_zip.mpr ⟨parts.length_eq, ?_⟩
  intro clips segments member
  obtain ⟨pieces, spans, rfl, made⟩ := List.forall₂_iff_zip.mp parts |>.2 member
  have listed := (Project.mem_playedAudioTracks (List.of_mem_zip member).1).2
  refine track_heard low high (fun s mem => clear s (listed s mem)) ?_ spans made
  intro s mem
  obtain ⟨audio, played⟩ := Project.mem_playedAudio.mp (listed s mem)
  obtain ⟨c, placed, -, -, rfl⟩ := Project.mem_audioClips.mp audio
  refine ⟨?_, Project.placed_inside placed⟩
  have lasts : 0 < (p.schedule c).timing.stop - (p.schedule c).timing.start := by
    simpa [Scheduled.isPlayed, Timing.timelineDuration] using played
  linarith

/-- Whatever its sounds, a mix adds at a frame of that time the clips that play, and no others. -/
def MixedAt (p : Project Rat) (t : Rat) : Prop :=
  ∀ (S : Type) [Scalar S] [Narrowing Rat S] (library : SoundLibrary Rat S)
    (decoded : MediaFile Rat → Sound S) (shape : StreamShape) (cancel : Cancel) (n : Nat),
    cancel.Quiet → (∀ s ∈ p.audioClips, library s.media = .ok (decoded s.media) ∧
      (decoded s.media).shape.sampleRate ≠ 0) →
    1000 ≤ shape.sampleRate → n < p.soundFrames (Scalar.ofNat shape.sampleRate) →
    t = n / shape.sampleRate →
    (p.mix library shape cancel).1 = .ok (Mix.ofVoices (Scalar.ofNat shape.sampleRate)
      (p.soundFrames (Scalar.ofNat shape.sampleRate)) shape (p.playedAudio.map
        (Voice.heard decoded shape (p.soundFrames (Scalar.ofNat shape.sampleRate))))) ∧
    ∀ channel, (p.playedAudio.filter fun s =>
      ((Voice.heard decoded shape (p.soundFrames (Scalar.ofNat shape.sampleRate)) s).sample?
        (Scalar.ofNat shape.sampleRate) n channel).isSome) = soundingAt p.playedAudio t

theorem mixedAt (clear : ∀ s ∈ p.playedAudio, s.timing.Clear audioStep t) : MixedAt p t := by
  intro S _ _ library decoded shape cancel n quiet decodes fast inside time
  refine ⟨mix_voices decodes quiet, ?_⟩
  intro channel
  apply List.filter_congr
  intro s member
  obtain ⟨begins, ends⟩ := clear s member
  rw [audioStep_rat, time] at begins ends
  have word : p.soundFrames (Scalar.ofNat shape.sampleRate) ≤ twoTo 64 - 1 := by
    rw [soundFrames_rat]
    exact min_le_right _ _
  rw [time]
  have fast' : (1000 : Rat) ≤ Scalar.ofNat shape.sampleRate := by
    change (1000 : Rat) ≤ ((shape.sampleRate : Int) : Rat)
    exact_mod_cast fast
  exact ofClip_sounds s _ fast' word inside begins ends

/-- At a time at least a millisecond from where audio clips begin and end, each track of a compiled
graph lets one hear exactly the clips that play when no two of them play, and when a silence is not
filled; of several it lets one hear one that begins last, while a mix adds all of them. -/
theorem audible_iff (settings : RenderSettings Rat) (options : Options) (low : 0 ≤ t)
    (high : t < p.duration) (clear : ∀ s ∈ p.playedAudio, s.timing.Clear audioStep t) :
    p.playedAudioTracks.flatten = p.playedAudio ∧ MixedAt p t ∧
    ∃ g, compile p settings options = some g ∧
      List.Forall₂ (Heard p.duration t) p.playedAudioTracks g.audioTracks ∧
      ((∀ clips ∈ p.playedAudioTracks, Unmixed clips p.duration t) →
        g.audioTracks.flatMap (heardAt · t) = (soundingAt p.playedAudio t).map (·.clip.id)) := by
  have flat := Project.playedAudioTracks_flatten p
  obtain ⟨g, compiled, heard⟩ := compile_heard settings options low high clear
  refine ⟨flat, mixedAt clear, g, compiled, heard, ?_⟩
  intro unmixed
  rw [← flat]
  exact heard_all heard unmixed

/-- Audio tracks with these clips of a file that lasts ten seconds. -/
def soundOnly (tracks : List (List (Clip Rat))) : Project Rat :=
  { id := "p"
    name := "p"
    mediaFiles := [MediaFile.ofAudio "m" "/a/a.wav" 10]
    tracks := tracks.map fun clips => ⟨"a", .audio, clips, false⟩
    transitions := []
    framerate := 10 }

/-- Two clips that overlap, on one track or on two. -/
def overlappingSounds (oneTrack : Bool) : Project Rat :=
  soundOnly <| if oneTrack then [[Clip.new "early" "m" 0, Clip.new "late" "m" 2]]
    else [[Clip.new "early" "m" 0], [Clip.new "late" "m" 2]]

def usualOptions : Options := ⟨"/tmp", none, 20, 48000, 2, 128⟩

theorem audible_iff_across_tracks :
    ∃ g, compile (overlappingSounds false) RenderSettings.standard usualOptions =
        some g ∧ g.audioTracks.flatMap (heardAt · 5) = ["early", "late"] := by
  obtain ⟨-, -, g, compiled, -, all⟩ :=
    audible_iff (p := overlappingSounds false) (t := 5) RenderSettings.standard
      usualOptions (by decide +kernel) (by decide +kernel) (by decide +kernel)
  have alone : ∀ clips ∈ (overlappingSounds false).playedAudioTracks,
      (soundingAt clips 5).length = 1 := by decide +kernel
  refine ⟨g, compiled, (all ?_).trans (by decide +kernel)⟩
  intro clips member
  have one := alone clips member
  refine ⟨one.le, fun none => ?_⟩
  rw [none] at one
  cases one

/-- Two clips of one track that overlap: a mix adds both, and a graph lets one hear the later one
alone. -/
theorem overlap_on_one_track_heard :
    ∃ g, compile (overlappingSounds true) RenderSettings.standard usualOptions =
        some g ∧ g.audioTracks.flatMap (heardAt · 5) = ["late"] ∧
      (soundingAt (overlappingSounds true).playedAudio 5).map (·.clip.id) = ["early", "late"] ∧
      MixedAt (overlappingSounds true) 5 := by
  have clear : ∀ s ∈ (overlappingSounds true).playedAudio, s.timing.Clear audioStep 5 := by
    decide +kernel
  obtain ⟨g, compiled, heard⟩ := compile_heard (p := overlappingSounds true) RenderSettings.standard
    usualOptions (by decide +kernel) (by decide +kernel) clear
  refine ⟨g, compiled, ?_, by decide +kernel, mixedAt clear⟩
  have one : (overlappingSounds true).playedAudioTracks.length = 1 := by decide +kernel
  obtain ⟨clips, form⟩ := List.length_eq_one_iff.mp one
  have last : ∀ clips ∈ (overlappingSounds true).playedAudioTracks, soundingAt clips 5 ≠ [] ∧
      ∀ s ∈ soundingAt clips 5, (∀ x ∈ soundingAt clips 5, x.timing.start ≤ s.timing.start) →
        s.clip.id = "late" := by decide +kernel
  rw [form] at heard last
  obtain ⟨some, late⟩ := last clips (List.mem_singleton_self clips)
  generalize g.audioTracks = tracks at heard ⊢
  cases heard with
  | cons first rest =>
    cases rest
    obtain ⟨s, member, only, latest⟩ := first.latest some
    rw [List.flatMap_singleton, only, late s member latest]

end Graph

end Montage
