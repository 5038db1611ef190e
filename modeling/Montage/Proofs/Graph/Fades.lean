import Mathlib.Data.List.Sort
import Montage.Proofs.Graph.Pieces
import Montage.Proofs.Graph.TopClip

/- Fades of a clip in the graph and in the picture. The picture of a clip fades at the clip's own
   edges; a span fades only where its edge touches the clip's, which the grid may have moved. -/
namespace Montage

/-- The ends of a clip. -/
inductive Side where
  | opening
  | closing
  deriving DecidableEq

section Sides
variable {K : Type}

def Transition.fades (t : Transition K) : Side → Bool
  | .opening => t.fadesIn
  | .closing => t.fadesOut

def Timing.edge (t : Timing K) : Side → K
  | .opening => t.start
  | .closing => t.stop

def Span.edge (s : Span K) : Side → K
  | .opening => s.start
  | .closing => s.stop

def Graph.Filter.isFade (side : Side) : Graph.Filter K → Bool
  | .fadeIn _ => side == .opening
  | .fadeOut _ _ => side == .closing
  | _ => false

/-- How many filters of some chains fade. -/
def Graph.fadeCount (side : Side) (chains : List (Graph.Chain K)) : Nat :=
  (chains.flatMap (·.filters)).countP (·.isFade side)

end Sides

namespace Transition

variable {t : Transition Rat} {offset length : Rat} {side : Side}

/-- Whether a clip of some length takes time to come or to go. -/
def fadesFor (t : Transition Rat) (side : Side) (length : Rat) : Bool :=
  t.fades side && decide (0 < min t.duration length)

theorem ramp_none_iff : t.ramp length ≤ 0 ↔ ¬ 0 < min t.duration length := by
  unfold ramp
  rw [Scalar.max_rat, Scalar.min_rat, not_lt]
  exact ⟨fun none => (le_max_left _ _).trans none, fun none => max_le none le_rfl⟩

theorem clamp_nothing : Scalar.clamp 0 1 (0 : Rat) = 0 := by
  rw [Scalar.clamp_rat, if_neg (lt_irrefl 0), if_neg (not_lt.mpr zero_le_one)]

theorem envelope_nonneg : 0 ≤ t.envelope offset length := by
  unfold envelope
  dsimp only
  split
  · exact zero_le_one
  · split
    · exact Scalar.low_le_clamp zero_le_one _
    · exact Scalar.low_le_clamp zero_le_one _
    · rw [Scalar.min_rat]
      exact le_min (Scalar.low_le_clamp zero_le_one _) (Scalar.low_le_clamp zero_le_one _)

/-- Where a clip opens or closes, a transition that fades there leaves nothing of it. -/
theorem envelope_edge {timing : Timing Rat}
    (fades : t.fadesFor side timing.timelineDuration = true) :
    t.envelope (timing.edge side - timing.start) timing.timelineDuration = 0 := by
  rw [fadesFor, Bool.and_eq_true, decide_eq_true_eq] at fades
  obtain ⟨kind, lasts⟩ := fades
  unfold envelope
  rw [if_neg fun none => ramp_none_iff.mp none lasts]
  cases side with
  | opening =>
    have gone : timing.edge .opening - timing.start = 0 := sub_self _
    rw [gone, zero_div, clamp_nothing]
    change (t.kind == .fadeIn || t.kind == .crossfade) = true at kind
    cases form : t.kind with
    | fadeIn => rfl
    | fadeOut =>
      rw [form] at kind
      cases kind
    | crossfade => exact (Scalar.min_rat _ _).trans (min_eq_left (Scalar.low_le_clamp zero_le_one _))
  | closing =>
    have left : timing.timelineDuration - (timing.edge .closing - timing.start) = 0 := sub_self _
    rw [left, zero_div, clamp_nothing]
    change (t.kind == .fadeOut || t.kind == .crossfade) = true at kind
    cases form : t.kind with
    | fadeIn =>
      rw [form] at kind
      cases kind
    | fadeOut => rfl
    | crossfade => exact (Scalar.min_rat _ _).trans (min_eq_right (Scalar.low_le_clamp zero_le_one _))

/-- One transition that leaves nothing is enough. -/
theorem clipEnvelope_nothing {ts : List (Transition Rat)} (listed : t ∈ ts)
    (nothing : t.envelope offset length = 0) : clipEnvelope ts offset length = 0 := by
  have least : Scalar.min = (Min.min : Rat → Rat → Rat) := funext₂ Scalar.min_rat
  obtain ⟨member, bound⟩ := foldl_chosen (r := (· ≥ ·)) (f := Scalar.min) le_refl
    (fun _ _ _ first second => second.trans first) (fun x z => by simpa using min_choice x z)
    (by simp) (by simp) (ts.map fun t => t.envelope offset length) 1
  have low : clipEnvelope ts offset length ≤ 0 :=
    nothing ▸ bound _ (List.mem_cons_of_mem _ (List.mem_map_of_mem listed))
  refine le_antisymm low ?_
  change clipEnvelope ts offset length ∈ _ at member
  rcases List.mem_cons.mp member with same | member
  · rw [same]
    exact zero_le_one
  · obtain ⟨u, -, same⟩ := List.mem_map.mp member
    rw [← same]
    exact envelope_nonneg

end Transition

namespace Scheduled

variable {s : Scheduled Rat} {side : Side}

/-- How many of a clip's transitions fade on a side. -/
def fading (s : Scheduled Rat) (side : Side) : Nat :=
  s.transitions.countP (·.fadesFor side s.timing.timelineDuration)

/-- A clip that fades on a side is not seen at its edge there. -/
theorem opacityAt_edge (fading : 0 < s.fading side) : s.opacityAt (s.timing.edge side) = 0 := by
  obtain ⟨t, listed, fades⟩ := List.countP_pos_iff.mp fading
  have some : s.transitions.isEmpty = false := by
    cases form : s.transitions with
    | nil =>
      rw [form] at listed
      cases listed
    | cons => rfl
  have nothing := Transition.clipEnvelope_nothing listed (Transition.envelope_edge fades)
  unfold opacityAt
  rw [some, if_neg Bool.false_ne_true, nothing, mul_zero]

/-- The edge of a clip on the grid, kept inside the timeline. -/
def gridEdge (s : Scheduled Rat) (total step : Rat) : Side → Rat
  | .opening => (s.candidate.bounds total step).1
  | .closing => (s.candidate.bounds total step).2

end Scheduled

namespace Graph

variable {span : Span Rat} {side : Side}

/-- Whether a span's edge touches the clip's. -/
def touches (timing : Timing Rat) (span : Span Rat) (side : Side) : Prop :=
  |span.edge side - timing.edge side| < touching

instance (timing : Timing Rat) (span : Span Rat) (side : Side) :
    Decidable (touches timing span side) := inferInstanceAs (Decidable (_ < _))

/-- Fades of one transition: at most one on a side, where the span touches the clip's edge. -/
theorem fades_count (timing : Timing Rat) (span : Span Rat) (t : Transition Rat) (side : Side) :
    (fades timing span t).countP (·.isFade side) =
      if touches timing span side ∧ t.fadesFor side timing.timelineDuration = true then 1 else 0 := by
  by_cases none : t.ramp timing.timelineDuration ≤ 0
  · have skip : fades timing span t = [] := if_pos none
    have still : ¬ t.fadesFor side timing.timelineDuration = true := by
      rw [Transition.fadesFor, Bool.and_eq_true, decide_eq_true_eq]
      exact fun fades => Transition.ramp_none_iff.mp none fades.2
    rw [skip, if_neg fun both => still both.2]
    rfl
  · have lasts : 0 < min t.duration timing.timelineDuration := by
      by_contra short
      exact none (Transition.ramp_none_iff.mpr short)
    have made : fades timing span t =
        (if t.fades .opening && decide (touches timing span .opening) then
          [.fadeIn (Scalar.min (t.ramp timing.timelineDuration) span.duration)] else []) ++
        (if t.fades .closing && decide (touches timing span .closing) then
          [.fadeOut (span.duration - Scalar.min (t.ramp timing.timelineDuration) span.duration)
            (Scalar.min (t.ramp timing.timelineDuration) span.duration)] else []) := by
      unfold fades touches
      simp only [if_neg none, ← Scalar.abs_rat]
      rfl
    have kind : t.fadesFor side timing.timelineDuration = t.fades side := by
      rw [Transition.fadesFor, decide_eq_true lasts, Bool.and_true]
    rw [made, kind, List.countP_append]
    cases side with
    | opening =>
      simp [apply_ite (List.countP _), Filter.isFade, and_comm]
    | closing =>
      simp [apply_ite (List.countP _), Filter.isFade, and_comm]

theorem material_fades (s : Scheduled Rat) (span : Span Rat) (fps : Rat) (side : Side) :
    (material s span fps).countP (·.isFade side) =
      if touches s.timing span side then s.fading side else 0 := by
  have others : ∀ effects : List (Effect Rat),
      (effects.map effectFilter).countP (·.isFade side) = 0 := by
    intro effects
    rw [List.countP_eq_zero]
    intro f member
    obtain ⟨effect, -, rfl⟩ := List.mem_map.mp member
    cases effect <;> exact Bool.false_ne_true
  have all : ∀ ts : List (Transition Rat),
      (ts.flatMap (fades s.timing span)).countP (·.isFade side) =
        if touches s.timing span side then
          ts.countP (·.fadesFor side s.timing.timelineDuration) else 0 := by
    intro ts
    induction ts with
    | nil => simp
    | cons t ts ih =>
      rw [List.flatMap_cons, List.countP_append, fades_count, ih, List.countP_cons]
      split <;> simp_all [Nat.add_comm]
  unfold material
  simp only [List.countP_append, others, all, apply_ite (List.countP _)]
  simp [Filter.isFade, Scheduled.fading]

theorem framing_fades (crop : Crop Rat) (t : Transform Rat) (opacity : Rat) (width height : Nat)
    (side : Side) : (framing crop t opacity width height).countP (·.isFade side) = 0 := by
  unfold framing
  simp only [List.countP_append, apply_ite (List.countP _)]
  simp [Filter.isFade]

/-- The chains of a span have the clip's fades on the side where it touches the clip's edge, once
each, and no others. -/
theorem videoClipChains_fades (s : Scheduled Rat) (span : Span Rat) (input : Nat)
    (settings : RenderSettings Rat) (backdrop : Nat) (out : Label) (side : Side) :
    fadeCount side (videoClipChains s span input settings backdrop out) =
      if touches s.timing span side then s.fading side else 0 := by
  have start := material_fades s span settings.framerate side
  unfold fadeCount videoClipChains
  dsimp only
  split
  · have framed := framing_fades ((s.clip.crop.getD Crop.none).clamped)
      (s.clip.transform.getD Transform.identity) s.clip.effectiveOpacity settings.width
      settings.height side
    simp only [List.flatMap_cons, List.flatMap_nil, List.countP_append, start, framed]
    simp [heldFor, Filter.isFade]
  · simp only [List.flatMap_cons, List.flatMap_nil, List.countP_append, start,
      apply_ite (List.countP _)]
    simp [heldFor, Filter.isFade]

theorem videoPiece_fades {clips : List (Scheduled Rat)} {settings : RenderSettings Rat}
    {x : Piece Rat} {s : Scheduled Rat} (made : VideoPiece clips settings x)
    (owner : (x.span.winner.bind fun i => clips[i]?) = some s) (side : Side) :
    fadeCount side x.chains = if touches s.timing x.span side then s.fading side else 0 := by
  rw [VideoPiece, owner] at made
  obtain ⟨input, base, -, drawn⟩ := made
  rw [drawn]
  exact videoClipChains_fades s x.span input settings base x.label side

theorem videoPiece_source {clips : List (Scheduled Rat)} {settings : RenderSettings Rat}
    {x : Piece Rat} {s : Scheduled Rat} (made : VideoPiece clips settings x)
    (owner : (x.span.winner.bind fun i => clips[i]?) = some s) :
    x.segment.source.map (·.1) = some s.clip.id := by
  rw [VideoPiece, owner] at made
  obtain ⟨input, base, shows, -⟩ := made
  rw [shows]
  rfl

/-- A graph begins with the chains of its video spans. A clip that fades on a side is not seen at
its edge there; its span on that edge of the grid has all of the side's fades exactly when the grid
moved the edge by less than what counts as touching, and has none of them otherwise. -/
theorem edge_fades_iff {p : Project Rat} (settings : RenderSettings Rat) (options : Options)
    (lasts : 0 < p.duration) :
    ∃ (g : Compiled Rat) (pieces : List (Piece Rat)) (join : Chain Rat) (rest : List (Chain Rat)),
      compile p settings options = some g ∧
      g.chains = pieces.flatMap (·.chains) ++ join :: rest ∧
      join.consumes = pieces.map (·.label) ∧ g.videoSegments = pieces.map (·.segment) ∧
      pieces.map (·.span) = videoSpans p settings ∧
      ∀ x ∈ pieces, ∀ s, (x.span.winner.bind fun i => (byStart p.playedVideo)[i]?) = some s →
        s ∈ p.playedVideo ∧ x.segment.source.map (·.1) = some s.clip.id ∧
        ∀ side,
          (0 < s.fading side → s.opacityAt (s.timing.edge side) = 0) ∧
          fadeCount side x.chains = (if touches s.timing x.span side then s.fading side else 0) ∧
          (x.span.edge side = s.gridEdge p.duration (1 / settings.framerate) side →
            (fadeCount side x.chains = s.fading side ↔ s.fading side = 0 ∨
              |s.gridEdge p.duration (1 / settings.framerate) side - s.timing.edge side| <
                touching)) := by
  obtain ⟨g, compiled, -⟩ := compile_video settings options lasts
  obtain ⟨pieces, join, rest, spans, chains, labels, segments, made⟩ := compile_pieces compiled
  refine ⟨g, pieces, join, rest, compiled, chains, labels, segments, spans, ?_⟩
  intro x member s owner
  obtain ⟨i, -, stands⟩ := Option.bind_eq_some_iff.mp owner
  refine ⟨byStart_mem.mp (List.mem_of_getElem? stands), videoPiece_source (made x member) owner, ?_⟩
  intro side
  have count := videoPiece_fades (made x member) owner side
  refine ⟨Scheduled.opacityAt_edge, count, ?_⟩
  intro edge
  rw [count, ← edge]
  change _ ↔ s.fading side = 0 ∨ touches s.timing x.span side
  split
  · rename_i near
    exact iff_of_true rfl (.inr near)
  · rename_i far
    rw [eq_comm, or_iff_left far]

/-- Two seconds of a file, with a crossfade, and a plain clip later. -/
def crossfaded (start : Rat) : Project Rat :=
  { oneTrack [{ (Clip.new "c" "m" start : Clip Rat) with trimEnd := 8 }, Clip.new "later" "m" 4] with
    transitions := [⟨"x", "c", .crossfade, 1⟩] }

theorem edges_sorted (cs : List (Contender Rat)) (total : Rat) :
    edges cs total =
      thinned ((0 :: total :: cs.flatMap fun c => [c.low, c.high]).insertionSort (· ≤ ·)) :=
  congrArg thinned (List.mergeSort_eq_insertionSort (· ≤ ·) _)

/-- Half a second in or a fiftieth of a second later, the clip has the same span of the grid. -/
theorem crossfaded_span {start : Rat} (begins : start = 1 / 2 ∨ start = 13 / 25)
    {pieces : List (Piece Rat)}
    (spans : pieces.map (·.span) = videoSpans (crossfaded start) (framed 10)) :
    ∃ x ∈ pieces, ∃ s,
      (x.span.winner.bind fun i => (byStart (crossfaded start).playedVideo)[i]?) = some s ∧
      s.timing.start = start ∧ s.timing.stop = start + 2 ∧
      s.fading .opening = 1 ∧ s.fading .closing = 1 ∧
      x.span.start = 1 / 2 ∧ x.span.stop = 5 / 2 := by
  have sorted : byStart (crossfaded start).playedVideo = (crossfaded start).playedVideo := by
    rcases begins with rfl | rfl <;> exact List.mergeSort_of_pairwise (by decide +kernel)
  have placed : (videoSpans (crossfaded start) (framed 10))[1]?.map
      (fun span => (span.start, span.stop, span.winner)) = some (1 / 2, 5 / 2, some 0) := by
    unfold videoSpans flatten sweep
    rw [sorted, edges_sorted]
    rcases begins with rfl | rfl <;> decide +kernel
  have clip : (crossfaded start).playedVideo[0]?.map
      (fun s => (s.timing.start, s.timing.stop, s.fading .opening, s.fading .closing)) =
        some (start, start + 2, 1, 1) := by
    rcases begins with rfl | rfl <;> decide +kernel
  rw [← spans, List.getElem?_map, Option.map_map] at placed
  obtain ⟨x, stands, same⟩ := Option.map_eq_some_iff.mp placed
  obtain ⟨s, first, timed⟩ := Option.map_eq_some_iff.mp clip
  simp only [Function.comp, Prod.mk.injEq] at same timed
  obtain ⟨low, high, winner⟩ := same
  obtain ⟨start', stop, opening, closing⟩ := timed
  refine ⟨x, List.mem_of_getElem? stands, s, ?_, start', stop, opening, closing, low, high⟩
  rw [winner, sorted]
  exact first

theorem edge_fades_iff_on_grid :
    ∃ (g : Compiled Rat) (pieces : List (Piece Rat)) (join : Chain Rat) (rest : List (Chain Rat)),
      compile (crossfaded (1 / 2)) (framed 10) plainOptions = some g ∧
      g.chains = pieces.flatMap (·.chains) ++ join :: rest ∧ ∃ x ∈ pieces,
        fadeCount .opening x.chains = 1 ∧ fadeCount .closing x.chains = 1 := by
  obtain ⟨g, pieces, join, rest, compiled, chains, -, -, spans, fades⟩ :=
    edge_fades_iff (p := crossfaded (1 / 2)) (framed 10) plainOptions (by decide +kernel)
  obtain ⟨x, member, s, owner, start, stop, opening, closing, low, high⟩ :=
    crossfaded_span (.inl rfl) spans
  have sides := (fades x member s owner).2.2
  have first : s.gridEdge (crossfaded (1 / 2)).duration (1 / (framed 10).framerate) .opening =
      1 / 2 := by
    change Scalar.clamp 0 _ (snap s.timing.start _) = 1 / 2
    rw [start]
    decide +kernel
  have last : s.gridEdge (crossfaded (1 / 2)).duration (1 / (framed 10).framerate) .closing =
      5 / 2 := by
    change Scalar.clamp 0 _ (snap s.timing.stop _) = 5 / 2
    rw [stop]
    decide +kernel
  refine ⟨g, pieces, join, rest, compiled, chains, x, member, ?_, ?_⟩
  · rw [← opening]
    refine ((sides .opening).2.2 (low.trans first.symm)).mpr (.inr ?_)
    change |_ - s.timing.start| < touching
    rw [first, start]
    decide +kernel
  · rw [← closing]
    refine ((sides .closing).2.2 (high.trans last.symm)).mpr (.inr ?_)
    change |_ - s.timing.stop| < touching
    rw [last, stop]
    decide +kernel

/-- A clip off the grid has none of its fades on the span that begins and ends where the grid puts
the clip. -/
theorem off_grid_fades_lost :
    ∃ (g : Compiled Rat) (pieces : List (Piece Rat)) (join : Chain Rat) (rest : List (Chain Rat)),
      compile (crossfaded (13 / 25)) (framed 10) plainOptions = some g ∧
      g.chains = pieces.flatMap (·.chains) ++ join :: rest ∧ ∃ x ∈ pieces, ∃ s,
        (x.span.winner.bind fun i =>
          (byStart (crossfaded (13 / 25)).playedVideo)[i]?) = some s ∧
        x.span.start = snap s.timing.start (1 / 10) ∧ x.span.stop = snap s.timing.stop (1 / 10) ∧
        s.fading .opening = 1 ∧ s.fading .closing = 1 ∧
        fadeCount .opening x.chains = 0 ∧ fadeCount .closing x.chains = 0 := by
  obtain ⟨g, compiled, -⟩ := compile_video (p := crossfaded (13 / 25)) (framed 10) plainOptions
    (by decide +kernel)
  obtain ⟨pieces, join, rest, spans, chains, -, -, made⟩ := compile_pieces compiled
  obtain ⟨x, member, s, owner, start, stop, opening, closing, low, high⟩ :=
    crossfaded_span (.inr rfl) spans
  have fades := videoPiece_fades (made x member) owner
  have apart : ∀ side, ¬ touches s.timing x.span side := by
    intro side
    unfold touches
    cases side with
    | opening =>
      change ¬ |x.span.start - s.timing.start| < touching
      rw [low, start]
      decide +kernel
    | closing =>
      change ¬ |x.span.stop - s.timing.stop| < touching
      rw [high, stop]
      decide +kernel
  refine ⟨g, pieces, join, rest, compiled, chains, x, member, s, owner, ?_, ?_, opening, closing,
    (fades .opening).trans (if_neg (apart .opening)),
    (fades .closing).trans (if_neg (apart .closing))⟩
  · rw [low, start]
    decide +kernel
  · rw [high, stop]
    decide +kernel

end Graph
end Montage
