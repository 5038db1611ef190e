import Mathlib.Algebra.Order.Group.MinMax
import Montage.Proofs.Graph.Audible
import Montage.Proofs.Graph.Captions
import Montage.Proofs.Graph.Fades
import Montage.Proofs.Sound.Priming
import Montage.Proofs.Timeline.SourceWindow
import Montage.Proofs.Timeline.Succession

/- What a compiled graph cuts out of its sources. The source second shown never turns back, so that
   the windows of a clip's spans follow one another in the direction in which the clip plays, and
   none is longer than its span at the clip's speed. -/
namespace Montage

namespace Timing

variable {t : Timing Rat} {a b : Rat}

theorem sourceTime_form (windowed : t.Windowed) (time : Rat) :
    t.sourceTime time = max t.sourceStart (min (t.steady time) t.sourceEnd) :=
  Scalar.clamp_between windowed.ordered (t.steady time)

/-- Later times show what comes later in the source, or earlier where the clip plays backwards. -/
theorem sourceTime_mono (windowed : t.Windowed) (positive : 0 < t.speed) (order : a ≤ b) :
    if t.reverse then t.sourceTime b ≤ t.sourceTime a else t.sourceTime a ≤ t.sourceTime b := by
  have further : (a - t.start) * t.speed ≤ (b - t.start) * t.speed :=
    mul_le_mul_of_nonneg_right (by linarith) positive.le
  simp only [sourceTime_form windowed, steady]
  split
  · gcongr
  · gcongr

/-- No more of the source goes by than at the clip's speed. -/
theorem sourceTime_near (windowed : t.Windowed) (positive : 0 < t.speed) (order : a ≤ b) :
    |t.sourceTime a - t.sourceTime b| ≤ t.speed * (b - a) := by
  have gone : |t.steady a - t.steady b| = t.speed * (b - a) := by
    have amount : 0 ≤ t.speed * (b - a) := mul_nonneg positive.le (by linarith)
    unfold steady
    split
    · rw [abs_of_nonneg (by linarith)]
      ring
    · rw [abs_of_nonpos (by linarith)]
      ring
  rw [← gone, sourceTime_form windowed, sourceTime_form windowed]
  refine (abs_max_sub_max_le_max _ _ _ _).trans ?_
  rw [sub_self, abs_zero, max_eq_right (abs_nonneg _)]
  refine (abs_min_sub_min_le_max _ _ _ _).trans ?_
  rw [sub_self, abs_zero, max_eq_left (abs_nonneg _)]

end Timing

namespace Graph

section Cuts
variable {K : Type}

/-- First second that a filter cuts out of a source, and how many seconds. -/
def Filter.cut? : Filter K → Option (K × K)
  | .trim start length => some (start, length)
  | .audioTrim start length => some (start, length)
  | _ => none

def cuts (chains : List (Chain K)) : List (K × K) :=
  (chains.flatMap (·.filters)).filterMap Filter.cut?

def Piece.cuts (x : Piece K) : List (K × K) := Graph.cuts x.chains

/-- The clip that plays in a piece. -/
def Piece.owner (clips : List (Scheduled K)) (x : Piece K) : Option (Scheduled K) :=
  x.span.winner.bind fun i => clips[i]?

theorem cuts_append (a b : List (Chain K)) : cuts (a ++ b) = cuts a ++ cuts b := by
  simp [cuts]

theorem cuts_flatMap (pieces : List (Piece K)) :
    cuts (pieces.flatMap (·.chains)) = pieces.flatMap (·.cuts) := by
  induction pieces with
  | nil => rfl
  | cons x pieces ih => rw [List.flatMap_cons, cuts_append, ih, List.flatMap_cons, Piece.cuts]

variable [Scalar K]

theorem material_cuts (s : Scheduled K) (span : Span K) (fps : K) :
    (material s span fps).filterMap Filter.cut? = [sourceWindow s.timing span.start span.stop] := by
  have effects : (s.clip.effects.map effectFilter).filterMap Filter.cut? = [] := by
    rw [List.filterMap_map, List.filterMap_eq_nil_iff]
    intro effect _
    cases effect <;> rfl
  have fading : (s.transitions.flatMap (fades s.timing span)).filterMap Filter.cut? = [] := by
    rw [List.filterMap_eq_nil_iff]
    intro f member
    obtain ⟨t, -, made⟩ := List.mem_flatMap.mp member
    unfold fades at made
    dsimp only at made
    split at made
    · cases made
    · rcases List.mem_append.mp made with opens | closes
      · rw [List.mem_singleton.mp (List.mem_ite_nil_right.mp opens).2]
        rfl
      · rw [List.mem_singleton.mp (List.mem_ite_nil_right.mp closes).2]
        rfl
  unfold material
  dsimp only
  simp only [List.filterMap_append, effects, fading, apply_ite (List.filterMap _)]
  simp [Filter.cut?]

theorem framing_cuts (crop : Crop K) (t : Transform K) (opacity : K) (width height : Nat) :
    (framing crop t opacity width height).filterMap Filter.cut? = [] := by
  unfold framing
  simp only [List.filterMap_append, apply_ite (List.filterMap _)]
  simp [Filter.cut?]

theorem videoClipChains_cuts (s : Scheduled K) (span : Span K) (input : Nat)
    (settings : RenderSettings K) (backdrop : Nat) (out : Label) :
    cuts (videoClipChains s span input settings backdrop out) =
      [sourceWindow s.timing span.start span.stop] := by
  have start := material_cuts s span settings.framerate
  unfold cuts videoClipChains
  dsimp only
  split
  · simp only [List.flatMap_cons, List.flatMap_nil, List.filterMap_append, start, framing_cuts]
    simp [heldFor, Filter.cut?]
  · simp only [List.flatMap_cons, List.flatMap_nil, List.filterMap_append, start,
      apply_ite (List.filterMap _)]
    simp [heldFor, Filter.cut?]

theorem audioClipChain_cuts (s : Scheduled K) (span : Span K) (input : Nat) (shape : AudioShape)
    (out : Label) :
    cuts [audioClipChain s span input shape out] =
      [sourceWindow s.timing span.start span.stop] := by
  have tempo : ((tempoStages s.timing.speed).map Filter.tempo).filterMap Filter.cut? = [] := by
    rw [List.filterMap_map, List.filterMap_eq_nil_iff]
    exact fun _ _ => rfl
  have volume : ∀ gain : Option (Gain K),
      (gain.map Filter.volume).toList.filterMap Filter.cut? = [] := by
    intro gain
    cases gain with
    | none => rfl
    | some g => rfl
  unfold cuts audioClipChain
  dsimp only
  simp only [List.flatMap_cons, List.flatMap_nil, List.filterMap_append, tempo, volume,
    apply_ite (List.filterMap _)]
  simp [Filter.cut?]

/-- The piece of a span shows the clip that owns it and cuts one window out of the clip's source, or
shows nobody and cuts nothing. -/
def Cutting (clips : List (Scheduled K)) (x : Piece K) : Prop :=
  match x.owner clips with
  | none => x.segment = filler x.span ∧ x.cuts = []
  | some s => (∃ input, x.segment = shown x.span s input) ∧
      x.cuts = [sourceWindow s.timing x.span.start x.span.stop]

theorem addVideoSpan_cutting (clips : List (Scheduled K)) (settings : RenderSettings K) :
    Adding (addVideoSpan clips settings) (Cutting clips) := by
  intro d span
  unfold addVideoSpan
  cases owner : span.winner.bind fun i => clips[i]? with
  | none =>
    refine ⟨⟨span, _, _, _⟩, rfl, rfl, rfl, rfl, ?_⟩
    rw [Cutting, Piece.owner, owner]
    exact ⟨rfl, rfl⟩
  | some s =>
    have kept : (d.fresh.2.inputFor s.media.path).2.fresh.2.chains = d.chains :=
      inputFor_chains d.fresh.2 s.media.path
    refine ⟨⟨span, _, _, _⟩, rfl, congrArg (· ++ _) kept, rfl, rfl, ?_⟩
    rw [Cutting, Piece.owner, owner]
    exact ⟨⟨_, rfl⟩, videoClipChains_cuts s span _ settings _ _⟩

theorem addAudioSpan_cutting (clips : List (Scheduled K)) (shape : AudioShape) :
    Adding (addAudioSpan clips shape) (Cutting clips) := by
  intro d span
  unfold addAudioSpan
  cases owner : span.winner.bind fun i => clips[i]? with
  | none =>
    refine ⟨⟨span, _, _, _⟩, rfl, rfl, rfl, rfl, ?_⟩
    rw [Cutting, Piece.owner, owner]
    exact ⟨rfl, rfl⟩
  | some s =>
    have kept : (d.fresh.2.inputFor s.media.path).2.chains = d.chains :=
      inputFor_chains d.fresh.2 s.media.path
    refine ⟨⟨span, _, _, _⟩, rfl, congrArg (· ++ _) kept, rfl, rfl, ?_⟩
    rw [Cutting, Piece.owner, owner]
    exact ⟨⟨_, rfl⟩, audioClipChain_cuts s span _ shape _⟩

/-- Pieces of the spans that some candidates leave on a grid, each of them cutting for its clip. -/
structure Row (clips : List (Scheduled K)) (spans : List (Span K)) (pieces : List (Piece K)) :
    Prop where
  spans : pieces.map (·.span) = spans
  cutting : ∀ x ∈ pieces, Cutting clips x

theorem addSpans_row {step : Draft K → Span K → Draft K × Label × Segment K}
    {clips : List (Scheduled K)} (cutting : Adding step (Cutting clips)) (d : Draft K)
    (spans : List (Span K)) :
    ∃ pieces, Row clips spans pieces ∧ (addSpans step d spans).2.2 = pieces.map (·.segment) ∧
      cuts (addSpans step d spans).1.chains = cuts d.chains ++ pieces.flatMap (·.cuts) := by
  obtain ⟨pieces, own, chains, -, segments, made⟩ := addSpans_pieces cutting d spans
  refine ⟨pieces, ⟨own, made⟩, segments, ?_⟩
  rw [chains, cuts_append, cuts_flatMap]

omit [Scalar K] in
theorem add_uncut (d : Draft K) {chains : List (Chain K)} (none : cuts chains = []) :
    cuts (d.add chains).chains = cuts d.chains := by
  rw [Draft.add, cuts_append, none, List.append_nil]

end Cuts

theorem addAudioTracks_rows (shape : AudioShape) (duration : Rat)
    (tracks : List (List (Scheduled Rat))) (d : Draft Rat) :
    ∃ rows : List (List (Piece Rat)),
      List.Forall₂ (fun clips pieces =>
        Row clips (flatten (audioCandidates clips) duration audioStep) pieces) tracks rows ∧
      (addAudioTracks shape duration d tracks).2.2 = rows.map (·.map (·.segment)) ∧
      cuts (addAudioTracks shape duration d tracks).1.chains =
        cuts d.chains ++ rows.flatten.flatMap (·.cuts) := by
  induction tracks generalizing d with
  | nil => exact ⟨[], .nil, rfl, (List.append_nil _).symm⟩
  | cons clips tracks ih =>
    obtain ⟨pieces, row, segments, cut⟩ := addSpans_row (addAudioSpan_cutting clips shape) d
      (flatten (audioCandidates clips) duration audioStep)
    obtain ⟨rows, all, segments', cut'⟩ := ih (addAudioTrack shape duration d clips).1
    have joined : cuts (addAudioTrack shape duration d clips).1.chains =
        cuts d.chains ++ pieces.flatMap (·.cuts) := (add_uncut _ rfl).trans cut
    refine ⟨pieces :: rows, .cons row all, ?_, ?_⟩
    · rw [List.map_cons, ← segments, ← segments']
      rfl
    · rw [joined, List.append_assoc] at cut'
      rw [List.flatten_cons, List.flatMap_append]
      exact cut'

theorem joining_uncut (labels : List Label) (titles : List (Titling Rat × String)) :
    cuts (joining labels titles) = [] := by
  have drawn : (titles.map fun t => Filter.titling t.1).filterMap Filter.cut? = [] := by
    rw [List.filterMap_map, List.filterMap_eq_nil_iff]
    exact fun _ _ => rfl
  unfold joining cuts
  split
  · rfl
  · simp only [List.flatMap_cons, List.flatMap_nil, List.filterMap_append, drawn]
    rfl

theorem mixdown_uncut (labels : List Label) : cuts (mixdown labels : List (Chain Rat)) = [] := by
  unfold mixdown
  split <;> rfl

/-- A compiled graph cuts out of its sources what the pieces of its video and of its audio tracks
cut, one after the other. -/
theorem compile_rows {p : Project Rat} {settings : RenderSettings Rat} {options : Options}
    {g : Compiled Rat} (compiled : compile p settings options = some g) :
    ∃ (video : List (Piece Rat)) (tracks : List (List (Piece Rat))),
      Row (byStart p.playedVideo) (videoSpans p settings) video ∧
      List.Forall₂ (fun clips pieces =>
        Row clips (flatten (audioCandidates clips) p.duration audioStep) pieces)
          p.playedAudioTracks tracks ∧
      g.videoSegments = video.map (·.segment) ∧
      g.audioTracks = tracks.map (·.map (·.segment)) ∧
      cuts g.chains = (video ++ tracks.flatten).flatMap (·.cuts) := by
  obtain ⟨video, row, segments, cut⟩ := addSpans_row
    (addVideoSpan_cutting (byStart p.playedVideo) settings) Draft.empty (videoSpans p settings)
  unfold compile at compiled
  dsimp only at compiled
  split at compiled
  · cases compiled
  · obtain rfl := Option.some.inj compiled
    obtain ⟨tracks, rows, sound, cut'⟩ := addAudioTracks_rows
      ⟨options.audioSampleRate, options.audioChannels == 1⟩ p.duration p.playedAudioTracks
      ((addSpans (addVideoSpan (byStart p.playedVideo) settings) Draft.empty
        (videoSpans p settings)).1.add
          (joining (addSpans (addVideoSpan (byStart p.playedVideo) settings) Draft.empty
            (videoSpans p settings)).2.1 (titlings options (byStart p.playedVideo))))
    refine ⟨video, tracks, row, rows, segments, sound, ?_⟩
    rw [add_uncut _ (joining_uncut _ _), cut] at cut'
    rw [List.flatMap_append]
    exact (add_uncut _ (mixdown_uncut _)).trans cut'

/-- A clip that takes time, timed against its media. -/
structure Resolved (s : Scheduled Rat) : Prop where
  timed : s.timing = s.clip.timing s.media
  lasts : 0 < s.timing.timelineDuration

section Windows
variable {s : Scheduled Rat} {a b c d : Rat}

theorem Resolved.windowed (h : Resolved s) : s.timing.Windowed := by
  rw [h.timed]
  exact Clip.timing_windowed s.clip s.media

theorem Resolved.positive (h : Resolved s) : 0 < s.timing.speed := by
  rw [h.timed]
  exact Clip.timing_speed_pos s.clip s.media

/-- A clip whose media is not trimmed by less than nothing plays all of its window. -/
theorem Resolved.pace (h : Resolved s) (head : 0 ≤ s.clip.trimStart) :
    s.timing.sourceEnd - s.timing.sourceStart = (s.timing.stop - s.timing.start) * s.timing.speed := by
  have lasts := h.lasts
  rw [h.timed] at lasts ⊢
  have left : 0 < s.media.duration - s.clip.trimStart - s.clip.trimEnd := by
    by_contra none
    have nothing : s.clip.sourceDuration s.media = 0 :=
      (Scalar.max_rat _ _).trans (max_eq_right (not_lt.mp none))
    change 0 < s.clip.startTime + s.clip.sourceDuration s.media / effectiveSpeed s.clip.speed -
      s.clip.startTime at lasts
    rw [nothing, zero_div, add_zero, sub_self] at lasts
    exact lt_irrefl 0 lasts
  have pace := Clip.timing_pace left.le
  change ((s.clip.timing s.media).stop - (s.clip.timing s.media).start) * _ = _ at pace
  rw [pace, Clip.timing_sourceEnd, Clip.timing_sourceStart, max_eq_left head,
    max_eq_left (by linarith)]
  ring

theorem window_start (t : Timing Rat) (a b : Rat) :
    (sourceWindow t a b).1 = min (t.sourceTime a) (t.sourceTime b) := Scalar.min_rat _ _

theorem window_length (t : Timing Rat) (a b : Rat) :
    (sourceWindow t a b).2 = |t.sourceTime a - t.sourceTime b| := Scalar.abs_rat _

theorem window_end (t : Timing Rat) (a b : Rat) :
    (sourceWindow t a b).1 + (sourceWindow t a b).2 = max (t.sourceTime a) (t.sourceTime b) := by
  rw [window_start, window_length, ← max_sub_min_eq_abs', add_sub_cancel]

/-- A window that lies in the clip's own and is no longer than its segment at the clip's speed; as
long, where no trim is negative and the segment lies in the clip. -/
structure Within (s : Scheduled Rat) (x : Segment Rat) (w : Rat × Rat) : Prop where
  lasts : 0 ≤ w.2
  low : s.timing.sourceStart ≤ w.1
  high : w.1 + w.2 ≤ s.timing.sourceEnd
  paced : w.2 ≤ s.timing.speed * x.duration
  whole : 0 ≤ s.clip.trimStart → 0 ≤ s.clip.trimEnd → s.timing.start ≤ x.start →
    x.start + x.duration ≤ s.timing.stop → w.2 = s.timing.speed * x.duration

/-- In the direction of playing, the first window ends where the second begins, or earlier. -/
def Before (reverse : Bool) (w v : Rat × Rat) : Prop :=
  if reverse then v.1 + v.2 ≤ w.1 else w.1 + w.2 ≤ v.1

theorem sourceWindow_within (h : Resolved s) {span : Span Rat} (valid : span.start < span.stop)
    (input : Nat) : Within s (shown span s input) (sourceWindow s.timing span.start span.stop) := by
  have inside : ∀ time, s.timing.sourceStart ≤ s.timing.sourceTime time ∧
      s.timing.sourceTime time ≤ s.timing.sourceEnd := by
    intro time
    rw [Timing.sourceTime_form h.windowed]
    exact ⟨le_max_left _ _, max_le h.windowed.ordered (min_le_right _ _)⟩
  constructor
  · rw [window_length]
    exact abs_nonneg _
  · rw [window_start]
    exact le_min (inside _).1 (inside _).1
  · rw [window_end]
    exact max_le (inside _).2 (inside _).2
  · rw [window_length]
    exact Timing.sourceTime_near h.windowed h.positive valid.le
  · intro head _ begins ends
    have pace := h.pace head
    have ends : span.stop ≤ s.timing.stop := by
      change span.start + (span.stop - span.start) ≤ s.timing.stop at ends
      linarith
    have begins : s.timing.start ≤ span.start := begins
    rw [window_length, Timing.sourceTime_steady h.positive pace begins (by linarith),
      Timing.sourceTime_steady h.positive pace (by linarith) ends]
    change _ = s.timing.speed * (span.stop - span.start)
    have amount : 0 ≤ s.timing.speed * (span.stop - span.start) :=
      mul_nonneg h.positive.le (by linarith)
    unfold Timing.steady
    split
    · rw [abs_of_nonneg (by linarith)]
      ring
    · rw [abs_of_nonpos (by linarith)]
      ring

theorem sourceWindow_before (h : Resolved s) (first : a ≤ b) (apart : b ≤ c) (second : c ≤ d) :
    Before s.timing.reverse (sourceWindow s.timing a b) (sourceWindow s.timing c d) := by
  have here := Timing.sourceTime_mono h.windowed h.positive first
  have between := Timing.sourceTime_mono h.windowed h.positive apart
  have there := Timing.sourceTime_mono h.windowed h.positive second
  unfold Before
  split
  · rename_i backwards
    rw [if_pos backwards] at here between there
    rw [window_end, window_start, max_eq_left there, min_eq_right here]
    exact between
  · rename_i onwards
    rw [if_neg onwards] at here between there
    rw [window_end, window_start, max_eq_right here, min_eq_left there]
    exact between

/-- Pieces in order of time: each of a clip cuts one window of the clip's source, and two of one
clip cut windows in the order in which the clip plays. -/
structure PlayedInOrder (clips : List (Scheduled Rat)) (pieces : List (Piece Rat)) : Prop where
  apart : pieces.Pairwise fun x y => x.span.stop ≤ y.span.start
  windows : ∀ x ∈ pieces, ∀ s, x.owner clips = some s → ∃ w, x.cuts = [w] ∧
    (∃ input, x.segment = shown x.span s input) ∧ Within s x.segment w
  silent : ∀ x ∈ pieces, x.owner clips = none → x.segment = filler x.span ∧ x.cuts = []
  order : pieces.Pairwise fun x y => x.span.winner = y.span.winner → ∀ s, x.owner clips = some s →
    ∀ w ∈ x.cuts, ∀ v ∈ y.cuts, Before s.timing.reverse w v

variable {clips : List (Scheduled Rat)} {spans : List (Span Rat)} {pieces : List (Piece Rat)}
  {x y : Piece Rat}

theorem Cutting.shows (cutting : Cutting clips x) (owned : x.owner clips = some s) :
    (∃ input, x.segment = shown x.span s input) ∧
      x.cuts = [sourceWindow s.timing x.span.start x.span.stop] := by
  rwa [Cutting, owned] at cutting

theorem Cutting.idle (cutting : Cutting clips x) (nobody : x.owner clips = none) :
    x.segment = filler x.span ∧ x.cuts = [] := by
  rwa [Cutting, nobody] at cutting

theorem owner_listed (owned : x.owner clips = some s) : s ∈ clips := by
  obtain ⟨i, -, stands⟩ := Option.bind_eq_some_iff.mp owned
  exact List.mem_of_getElem? stands

theorem row_played (row : Row clips spans pieces) {stop : Rat} (successive : Successive spans stop)
    (resolved : ∀ s ∈ clips, Resolved s) : PlayedInOrder clips pieces := by
  obtain ⟨own, cutting⟩ := row
  rw [← own] at successive
  have valid : ∀ x ∈ pieces, x.span.start < x.span.stop := fun x member =>
    successive.lasting x.span (List.mem_map_of_mem member)
  have apart := List.pairwise_map.mp successive.apart
  refine ⟨apart, ?_, fun x member => (cutting x member).idle, ?_⟩
  · intro x member s owned
    obtain ⟨⟨input, shows⟩, cut⟩ := (cutting x member).shows owned
    refine ⟨_, cut, ⟨input, shows⟩, ?_⟩
    rw [shows]
    exact sourceWindow_within (resolved s (owner_listed owned)) (valid x member) input
  · refine apart.imp_of_mem ?_
    intro x y hx hy after same s owned w cut v cut'
    have owned' : y.owner clips = some s := by rwa [Piece.owner, ← same]
    rw [((cutting x hx).shows owned).2, List.mem_singleton] at cut
    rw [((cutting y hy).shows owned').2, List.mem_singleton] at cut'
    rw [cut, cut']
    exact sourceWindow_before (resolved s (owner_listed owned)) (valid x hx).le after
      (valid y hy).le

end Windows

theorem resolved_of_played {p : Project Rat} {c : Placed Rat}
    (played : (p.schedule c).isPlayed = true) : Resolved (p.schedule c) := by
  refine ⟨rfl, ?_⟩
  simpa [Scheduled.isPlayed] using played

theorem playedVideo_resolved {p : Project Rat} {s : Scheduled Rat} (member : s ∈ p.playedVideo) :
    Resolved s := by
  obtain ⟨listed, played⟩ := List.mem_filter.mp member
  obtain ⟨c, -, rfl⟩ := List.mem_map.mp listed
  exact resolved_of_played played

theorem playedAudio_resolved {p : Project Rat} {s : Scheduled Rat} (member : s ∈ p.playedAudio) :
    Resolved s := by
  obtain ⟨listed, played⟩ := List.mem_filter.mp member
  obtain ⟨c, -, rfl⟩ := List.mem_map.mp listed
  exact resolved_of_played played

/-- A compiled graph plays the parts of each clip in order: the windows that its pieces cut are all
that it cuts, those of one clip lie in the clip's window, share no more than an end, and follow one
another in the direction in which the clip plays. -/
theorem split_clips_play_in_order {p : Project Rat} {settings : RenderSettings Rat}
    {options : Options} {g : Compiled Rat} (compiled : compile p settings options = some g) :
    ∃ (video : List (Piece Rat)) (tracks : List (List (Piece Rat))),
      video.map (·.span) = videoSpans p settings ∧
      List.Forall₂ (fun clips pieces => pieces.map (·.span) =
        flatten (audioCandidates clips) p.duration audioStep) p.playedAudioTracks tracks ∧
      g.videoSegments = video.map (·.segment) ∧
      g.audioTracks = tracks.map (·.map (·.segment)) ∧
      cuts g.chains = (video ++ tracks.flatten).flatMap (·.cuts) ∧
      PlayedInOrder (byStart p.playedVideo) video ∧
      List.Forall₂ PlayedInOrder p.playedAudioTracks tracks := by
  obtain ⟨video, tracks, row, rows, segments, sound, cut⟩ := compile_rows compiled
  refine ⟨video, tracks, row.spans, rows.imp fun _ _ row => row.spans, segments, sound, cut, ?_, ?_⟩
  · obtain ⟨stop, successive⟩ := flatten_successive (videoCandidates (byStart p.playedVideo))
      p.duration (1 / settings.framerate)
    exact row_played row successive fun s member => playedVideo_resolved (byStart_mem.mp member)
  · refine List.forall₂_iff_zip.mpr ⟨rows.length_eq, ?_⟩
    intro clips pieces member
    have row := (List.forall₂_iff_zip.mp rows).2 member
    obtain ⟨stop, successive⟩ := flatten_successive (audioCandidates clips) p.duration audioStep
    have listed := (Project.mem_playedAudioTracks (List.of_mem_zip member).1).2
    exact row_played row successive fun s mem => playedAudio_resolved (listed s mem)

/-- A file of ten seconds played backwards in five, and two seconds of another clip over it. -/
def interrupted : Project Rat :=
  oneTrack [{ (Clip.new "long" "m" 0 : Clip Rat) with speed := 2, reverse := true },
    { (Clip.new "short" "m" 1 : Clip Rat) with trimEnd := 8 }]

theorem interrupted_spans :
    byStart interrupted.playedVideo = interrupted.playedVideo ∧
      (videoSpans interrupted (framed 10)).map (fun s => (s.start, s.stop, s.winner)) =
        [(0, 1, some 0), (1, 3, some 1), (3, 5, some 0)] := by
  have sorted : byStart interrupted.playedVideo = interrupted.playedVideo :=
    List.mergeSort_of_pairwise (by decide +kernel)
  refine ⟨sorted, ?_⟩
  unfold videoSpans flatten sweep
  rw [sorted, edges_sorted]
  decide +kernel

theorem split_clips_play_in_order_backwards :
    ∃ g, compile interrupted (framed 10) plainOptions = some g ∧
      ∃ before during after : Piece Rat,
        g.videoSegments = [before, during, after].map (·.segment) ∧
        ∃ w v, before.cuts = [w] ∧ after.cuts = [v] ∧ w.2 = 2 ∧ v.2 = 4 ∧ v.1 + v.2 ≤ w.1 := by
  obtain ⟨g, compiled, -⟩ := compile_video (p := interrupted) (framed 10) plainOptions
    (by decide +kernel)
  obtain ⟨video, -, spans, -, segments, -, -, played, -⟩ := split_clips_play_in_order compiled
  obtain ⟨sorted, placed⟩ := interrupted_spans
  rw [← spans, List.map_map] at placed
  obtain ⟨before, rest, rfl, first, placed⟩ := List.map_eq_cons_iff.mp placed
  obtain ⟨during, rest, rfl, -, placed⟩ := List.map_eq_cons_iff.mp placed
  obtain ⟨after, rest, rfl, last, placed⟩ := List.map_eq_cons_iff.mp placed
  obtain rfl := List.map_eq_nil_iff.mp placed
  simp only [Function.comp, Prod.mk.injEq] at first last
  have clip : interrupted.playedVideo[0]?.map (fun s =>
      (s.clip.trimStart, s.clip.trimEnd, s.timing.start, s.timing.stop, s.timing.speed,
        s.timing.reverse)) = some (0, 0, 0, 5, 2, true) := by
    decide +kernel
  obtain ⟨s, stands, timed⟩ := Option.map_eq_some_iff.mp clip
  simp only [Prod.mk.injEq] at timed
  obtain ⟨head, tail, start, stop, speed, backwards⟩ := timed
  have owned : ∀ x : Piece Rat, x.span.winner = some 0 →
      x.owner (byStart interrupted.playedVideo) = some s := by
    intro x winner
    rw [Piece.owner, winner, sorted]
    exact stands
  have whole : ∀ x ∈ [before, during, after], ∀ a b : Rat,
      x.span.start = a ∧ x.span.stop = b ∧ x.span.winner = some 0 → 0 ≤ a → b ≤ 5 →
      ∃ w, x.cuts = [w] ∧ w.2 = 2 * (b - a) := by
    rintro x member a b ⟨rfl, rfl, winner⟩ begins ends
    obtain ⟨w, cut, ⟨input, shows⟩, within⟩ := played.windows x member s (owned x winner)
    rw [shows] at within
    refine ⟨w, cut, (within.whole head.ge tail.ge ?_ ?_).trans (by rw [speed]; rfl)⟩
    · rw [start]
      exact begins
    · rw [stop]
      change x.span.start + (x.span.stop - x.span.start) ≤ 5
      linarith
  obtain ⟨w, cutBefore, long⟩ := whole before (by simp) 0 1 first le_rfl (by norm_num)
  obtain ⟨v, cutAfter, long'⟩ := whole after (by simp) 3 5 last (by norm_num) le_rfl
  refine ⟨g, compiled, before, during, after, segments, w, v, cutBefore, cutAfter,
    long.trans (by norm_num), long'.trans (by norm_num), ?_⟩
  have turned := (List.pairwise_cons.mp played.order).1 after (by simp)
    (first.2.2.trans last.2.2.symm) s (owned before first.2.2) w (by simp [cutBefore]) v
    (by simp [cutAfter])
  rwa [Before, if_pos backwards] at turned

end Graph
end Montage
