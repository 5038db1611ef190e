import Montage.Graph.Compile
import Montage.Proofs.Timeline.Tiling

/- Segments stand where their spans stand, so that of spans that follow one another exactly one
   segment covers each time. -/
namespace Montage.Graph

def Segment.covers (g : Segment Rat) (t : Rat) : Bool :=
  decide (g.start ≤ t) && decide (t < g.start + g.duration)

theorem covers_iff {g : Segment Rat} {s : Span Rat} (start : g.start = s.start)
    (duration : g.duration = s.duration) (t : Rat) : g.covers t = true ↔ s.Holds t := by
  have stop : g.start + g.duration = s.stop := by
    rw [start, duration]
    change s.start + (s.stop - s.start) = s.stop
    linarith
  simp only [Segment.covers, Bool.and_eq_true, decide_eq_true_eq]
  rw [stop, start]
  rfl

/-- A step of the graph that makes a segment for a span, in its place. -/
def Placing (step : Draft Rat → Span Rat → Draft Rat × Label × Segment Rat) : Prop :=
  ∀ d s, (step d s).2.2.start = s.start ∧ (step d s).2.2.duration = s.duration

section Spans
variable {step : Draft Rat → Span Rat → Draft Rat × Label × Segment Rat} {spans : List (Span Rat)}
  {a b t : Rat}

theorem segments_later (placing : Placing step) (tiles : Tiles a spans b) (early : t < a)
    (d : Draft Rat) : (addSpans step d spans).2.2.filter (·.covers t) = [] := by
  induction tiles generalizing d with
  | nil => rfl
  | @cons a b s rest starts valid tail ih =>
    have skip : ¬ (step d s).2.2.covers t = true := by
      rw [covers_iff (placing d s).1 (placing d s).2]
      intro holds
      linarith [holds.1]
    change ((step d s).2.2 :: (addSpans step (step d s).1 rest).2.2).filter (·.covers t) = []
    rw [List.filter_cons, if_neg skip]
    exact ih (by linarith) _

/-- Exactly one segment covers a time, made from the span that holds it. -/
theorem segments_cover (placing : Placing step) (tiles : Tiles a spans b) (low : a ≤ t)
    (high : t < b) (d : Draft Rat) : ∃ s ∈ spans, ∃ d', s.Holds t ∧
      (addSpans step d spans).2.2.filter (·.covers t) = [(step d' s).2.2] := by
  induction tiles generalizing d with
  | nil => linarith
  | @cons a b s rest starts valid tail ih =>
    have form : (addSpans step d (s :: rest)).2.2 =
        (step d s).2.2 :: (addSpans step (step d s).1 rest).2.2 := rfl
    have here := covers_iff (placing d s).1 (placing d s).2 t
    rw [form]
    by_cases early : t < s.stop
    · refine ⟨s, List.mem_cons_self, d, ⟨starts.trans_le low, early⟩, ?_⟩
      rw [List.filter_cons, if_pos (here.mpr ⟨starts.trans_le low, early⟩),
        segments_later placing tail early]
    · obtain ⟨r, member, d', holds, only⟩ := ih (not_lt.mp early) high (step d s).1
      refine ⟨r, List.mem_cons_of_mem _ member, d', holds, ?_⟩
      rw [List.filter_cons, if_neg fun covers => early (here.mp covers).2, only]

end Spans

theorem addVideoSpan_segment (clips : List (Scheduled Rat)) (settings : RenderSettings Rat)
    (d : Draft Rat) (span : Span Rat) :
    (addVideoSpan clips settings d span).2.2 =
      match span.winner.bind fun i => clips[i]? with
      | none => filler span
      | some s => shown span s (d.fresh.2.inputFor s.media.path).1 := by
  unfold addVideoSpan
  cases span.winner.bind fun i => clips[i]? with
  | none => rfl
  | some s => rfl

theorem addVideoSpan_placing (clips : List (Scheduled Rat)) (settings : RenderSettings Rat) :
    Placing (addVideoSpan clips settings) := by
  intro d s
  rw [addVideoSpan_segment]
  cases s.winner.bind fun i => clips[i]? with
  | none => exact ⟨rfl, rfl⟩
  | some s => exact ⟨rfl, rfl⟩

theorem addVideoSpan_source (clips : List (Scheduled Rat)) (settings : RenderSettings Rat)
    (d : Draft Rat) (span : Span Rat) :
    (addVideoSpan clips settings d span).2.2.source.map (·.1) =
      (span.winner.bind fun i => clips[i]?).map (·.clip.id) := by
  rw [addVideoSpan_segment]
  cases span.winner.bind fun i => clips[i]? with
  | none => rfl
  | some s => rfl

theorem compile_video {p : Project Rat} (settings : RenderSettings Rat) (options : Options)
    (lasts : 0 < p.duration) :
    ∃ g, compile p settings options = some g ∧
      g.videoSegments = (addSpans (addVideoSpan (byStart p.playedVideo) settings) Draft.empty
        (flatten (videoCandidates (byStart p.playedVideo)) p.duration (1 / settings.framerate))).2.2 := by
  unfold compile
  simp only [not_le.mpr lasts, if_false]
  exact ⟨_, rfl, rfl⟩

end Montage.Graph
