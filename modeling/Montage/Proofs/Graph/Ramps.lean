import Montage.Graph.Text
import Montage.Proofs.Graph.Fades
import Montage.Proofs.Sound.Mixdown

/- The gain of a clip's sound in the graph and in the mix. The graph writes a ramp for each side on
   which a transition fades and takes the least of them; the mix takes the least of what the
   transitions leave. They are the same at every time, and no ramp is written exactly when nothing
   fades. -/
namespace Montage

/-- Arithmetic over the time since a segment began. -/
inductive Expression (K : Type) where
  | time
  | whole (n : Nat)
  | number (v : K)
  | plus (a b : Expression K)
  | minus (a b : Expression K)
  | over (a b : Expression K)
  | least (a b : Expression K)
  | greatest (a b : Expression K)
  deriving Repr

namespace Expression

section Forms
variable {K : Type}

/-- As filters read it, with numbers written in a form of their own. -/
def text (number : K → String) : Expression K → String
  | .time => "t"
  | .whole n => toString n
  | .number v => number v
  | .plus a b => a.text number ++ "+" ++ b.text number
  | .minus a b => a.text number ++ "-" ++ b.text number
  | .over a b => "(" ++ a.text number ++ ")/" ++ b.text number
  | .least a b => "min(" ++ a.text number ++ "," ++ b.text number ++ ")"
  | .greatest a b => "max(" ++ a.text number ++ "," ++ b.text number ++ ")"

/-- Kept between nothing and one. -/
def unit (a : Expression K) : Expression K := .least (.whole 1) (.greatest (.whole 0) a)

theorem text_unit (number : K → String) (a : Expression K) :
    a.unit.text number = "min(1,max(0," ++ a.text number ++ "))" := by
  have one : toString 1 = "1" := rfl
  apply String.toList_inj.mp
  simp [unit, text, one]

end Forms

variable {K : Type} [Scalar K]

def eval (t : K) : Expression K → K
  | .time => t
  | .whole n => Scalar.ofNat n
  | .number v => v
  | .plus a b => a.eval t + b.eval t
  | .minus a b => a.eval t - b.eval t
  | .over a b => a.eval t / b.eval t
  | .least a b => Scalar.min (a.eval t) (b.eval t)
  | .greatest a b => Scalar.max (a.eval t) (b.eval t)

end Expression

namespace Gain

/-- The arithmetic that a gain stands for. -/
def expression {K : Type} : Gain K → Expression K
  | .rising offset ramp => .unit (.over (.plus .time (.number offset)) (.number ramp))
  | .falling length offset ramp =>
    .unit (.over (.minus (.minus (.number length) .time) (.number offset)) (.number ramp))
  | .least a b => .least a.expression b.expression

theorem eval_expression {K : Type} [Scalar K] (t : K) (g : Gain K) :
    g.expression.eval t = g.eval t := by
  induction g with
  | rising offset ramp => rfl
  | falling length offset ramp => rfl
  | least a b first second => rw [expression, Expression.eval, first, second, eval]

theorem text_rising (o r : Float) : (Gain.rising o r).text =
    "min(1,max(0,(t+" ++ sixPlaces o ++ ")/" ++ sixPlaces r ++ "))" := rfl

theorem text_falling (c o r : Float) : (Gain.falling c o r).text =
    "min(1,max(0,(" ++ sixPlaces c ++ "-t-" ++ sixPlaces o ++ ")/" ++ sixPlaces r ++ "))" := rfl

theorem text_least (a b : Gain Float) :
    (Gain.least a b).text = "min(" ++ a.text ++ "," ++ b.text ++ ")" := rfl

/-- What is written for a gain is its arithmetic, with six places for each number. -/
theorem text_expression (g : Gain Float) : g.expression.text sixPlaces = g.text := by
  induction g with
  | rising offset ramp =>
    rw [text_rising, expression, Expression.text_unit]
    apply String.toList_inj.mp
    simp [Expression.text]
  | falling length offset ramp =>
    rw [text_falling, expression, Expression.text_unit]
    apply String.toList_inj.mp
    simp [Expression.text]
  | least a b first second => rw [expression, Expression.text, first, second, text_least]

theorem volume_text (g : Gain Float) : (Graph.Filter.volume g).text =
    "volume='" ++ g.expression.text sixPlaces ++ "':eval=frame" := by
  rw [text_expression]
  rfl

section Values
variable {t : Transition Rat} {ts : List (Transition Rat)} {length offset time : Rat}

/-- Keeping a value between nothing and one, in two ways. -/
theorem clamp_bounds (x : Rat) : Scalar.clamp 0 1 x = min 1 (max 0 x) := by
  rw [Scalar.clamp_between zero_le_one, min_max_distrib_left, min_eq_right zero_le_one, min_comm]

theorem eval_rising (offset ramp : Rat) :
    (Gain.rising offset ramp).eval time = Scalar.clamp 0 1 ((offset + time) / ramp) := by
  rw [clamp_bounds, add_comm, ← Scalar.max_rat, ← Scalar.min_rat]
  rfl

theorem eval_falling (length offset ramp : Rat) :
    (Gain.falling length offset ramp).eval time =
      Scalar.clamp 0 1 ((length - (offset + time)) / ramp) := by
  rw [clamp_bounds, add_comm, ← sub_sub, ← Scalar.max_rat, ← Scalar.min_rat]
  rfl

theorem eval_foldl (g : Gain Rat) (gs : List (Gain Rat)) :
    (gs.foldl .least g).eval time = (gs.map (·.eval time)).foldl min (g.eval time) := by
  induction gs generalizing g with
  | nil => rfl
  | cons next gs ih =>
    rw [List.foldl_cons, ih, List.map_cons, List.foldl_cons, ← Scalar.min_rat]
    rfl

theorem clamp_le_one (x : Rat) : Scalar.clamp 0 1 x ≤ 1 := by
  rw [clamp_bounds]
  exact min_le_left _ _

theorem eval_le_one (g : Gain Rat) (time : Rat) : g.eval time ≤ 1 := by
  cases g with
  | rising offset ramp =>
    rw [eval_rising]
    exact clamp_le_one _
  | falling length offset ramp =>
    rw [eval_falling]
    exact clamp_le_one _
  | least a b =>
    rw [eval, Scalar.min_rat]
    exact (min_le_left _ _).trans (eval_le_one a time)

/-- The ramps of one transition leave what the transition leaves. -/
theorem ofTransition_envelope (t : Transition Rat) (length offset time : Rat) :
    ((ofTransition length offset t).map (·.eval time)).foldl min 1 =
      t.envelope (offset + time) length := by
  unfold ofTransition Transition.envelope
  dsimp only
  split
  · rfl
  · cases form : t.kind with
    | fadeIn =>
      simp [Transition.fadesIn, Transition.fadesOut, form, eval_rising, clamp_le_one]
    | fadeOut =>
      simp [Transition.fadesIn, Transition.fadesOut, form, eval_falling, clamp_le_one]
    | crossfade =>
      simp [Transition.fadesIn, Transition.fadesOut, form, eval_rising, eval_falling, clamp_le_one]

theorem envelope_le_one : t.envelope offset length ≤ 1 := by
  unfold Transition.envelope
  dsimp only
  split
  · exact le_rfl
  · split
    · exact clamp_le_one _
    · exact clamp_le_one _
    · rw [Scalar.min_rat]
      exact (min_le_left _ _).trans (clamp_le_one _)

theorem clipEnvelope_cons (t : Transition Rat) (ts : List (Transition Rat)) (offset length : Rat) :
    clipEnvelope (t :: ts) offset length =
      min (t.envelope offset length) (clipEnvelope ts offset length) := by
  have least : Scalar.min = (Min.min : Rat → Rat → Rat) := funext₂ Scalar.min_rat
  simp only [clipEnvelope, least, List.map_cons, List.foldl_cons]
  rw [min_comm 1, List.foldl_assoc]

/-- All ramps of some transitions leave what the transitions leave. -/
theorem ramps_envelope (ts : List (Transition Rat)) (length offset time : Rat) :
    ((ts.flatMap (ofTransition length offset)).map (·.eval time)).foldl min 1 =
      clipEnvelope ts (offset + time) length := by
  induction ts with
  | nil => rfl
  | cons t ts ih =>
    have first : min (t.envelope (offset + time) length) 1 = t.envelope (offset + time) length :=
      min_eq_left envelope_le_one
    rw [List.flatMap_cons, List.map_append, List.foldl_append, ofTransition_envelope,
      clipEnvelope_cons, ← ih, ← @List.foldl_assoc Rat min, first]

/-- A transition has ramps only where it takes time to come or to go. -/
theorem fades_of_ramp {g : Gain Rat} (ramps : g ∈ ofTransition length offset t) :
    ∃ side, t.fadesFor side length = true := by
  unfold ofTransition at ramps
  dsimp only at ramps
  split at ramps
  · cases ramps
  · rename_i lasts
    have lasts : 0 < min t.duration length :=
      not_not.mp fun none => lasts (Transition.ramp_none_iff.mpr none)
    rcases List.mem_append.mp ramps with opens | closes
    · refine ⟨.opening, ?_⟩
      rw [Transition.fadesFor, decide_eq_true lasts, Bool.and_true]
      exact (List.mem_ite_nil_right.mp opens).1
    · refine ⟨.closing, ?_⟩
      rw [Transition.fadesFor, decide_eq_true lasts, Bool.and_true]
      exact (List.mem_ite_nil_right.mp closes).1

/-- The least of the ramps is what the transitions leave. -/
theorem ofTransitions_some {g : Gain Rat} (made : ofTransitions length offset ts = some g)
    (time : Rat) : g.eval time = clipEnvelope ts (offset + time) length := by
  rw [← ramps_envelope]
  unfold ofTransitions at made
  split at made
  · cases made
  · rename_i first rest ramps
    obtain rfl := Option.some.inj made
    rw [ramps, List.map_cons, List.foldl_cons, min_eq_right (eval_le_one first time)]
    exact eval_foldl first rest

/-- Transitions without ramps leave all of it, at every time. -/
theorem ofTransitions_none (made : ofTransitions length offset ts = none) (moment : Rat) :
    clipEnvelope ts moment length = 1 := by
  have here := ramps_envelope ts length offset (moment - offset)
  unfold ofTransitions at made
  split at made
  · rename_i ramps
    rw [ramps, add_sub_cancel] at here
    exact here.symm
  · cases made

end Values
end Gain

namespace Graph

section Forms
variable {K : Type}

def Filter.gain? : Filter K → Option (Gain K)
  | .volume g => some g
  | _ => none

/-- The gains that a chain applies. -/
def Chain.gains (c : Chain K) : List (Gain K) := c.filters.filterMap Filter.gain?

end Forms

theorem audioClipChain_gains {K : Type} [Scalar K] (s : Scheduled K) (span : Span K) (input : Nat)
    (shape : AudioShape) (out : Label) :
    (audioClipChain s span input shape out).gains =
      (Gain.ofTransitions s.timing.timelineDuration (span.start - s.timing.start)
        s.transitions).toList := by
  have turned : (if s.timing.reverse then [(.audioReverse : Filter K)] else []).filterMap
      Filter.gain? = [] := by
    split
    · rfl
    · rfl
  have tempo : ((tempoStages s.timing.speed).map Filter.tempo).filterMap Filter.gain? = [] := by
    rw [List.filterMap_map, List.filterMap_eq_nil_iff]
    exact fun _ _ => rfl
  have volume : ∀ gain : Option (Gain K),
      (gain.map Filter.volume).toList.filterMap Filter.gain? = gain.toList := by
    intro gain
    cases gain with
    | none => rfl
    | some g => rfl
  unfold Chain.gains audioClipChain
  dsimp only
  simp only [List.filterMap_append, turned, tempo, volume]
  exact List.append_nil _

/-- What the chain of a clip does to its loudness is what the mix does: it applies one gain at most,
whose arithmetic gives at each time of the span what the transitions leave of the clip then, and
none exactly when they leave all of it at every time. -/
structure Ramped (s : Scheduled Rat) (span : Span Rat) (gains : List (Gain Rat)) : Prop where
  once : gains.length ≤ 1
  envelope : ∀ g ∈ gains, ∀ time, g.expression.eval time =
    clipEnvelope s.transitions (span.start - s.timing.start + time) s.timing.timelineDuration
  mixed : ∀ g ∈ gains, ∀ (rate : Rat) (total : Nat) (sound : Sound Rat) (time : Rat),
    g.expression.eval time = (Voice.ofClip rate total s sound).gain (span.start + time)
  full : gains = [] ↔
    ∀ offset, clipEnvelope s.transitions offset s.timing.timelineDuration = 1

/-- A clip with a ramp is not heard at one of its ends. -/
theorem silent_end {s : Scheduled Rat} {offset : Rat} {g : Gain Rat}
    (made : Gain.ofTransitions s.timing.timelineDuration offset s.transitions = some g) :
    ∃ moment, clipEnvelope s.transitions moment s.timing.timelineDuration = 0 := by
  unfold Gain.ofTransitions at made
  split at made
  · cases made
  · rename_i first rest ramps
    have member : first ∈ s.transitions.flatMap
        (Gain.ofTransition s.timing.timelineDuration offset) := by
      rw [ramps]
      exact List.mem_cons_self
    obtain ⟨t, listed, ramp⟩ := List.mem_flatMap.mp member
    obtain ⟨side, fades⟩ := Gain.fades_of_ramp ramp
    exact ⟨_, Transition.clipEnvelope_nothing listed (Transition.envelope_edge fades)⟩

theorem ofTransitions_ramped (s : Scheduled Rat) (span : Span Rat) :
    Ramped s span (Gain.ofTransitions s.timing.timelineDuration (span.start - s.timing.start)
      s.transitions).toList := by
  cases made : Gain.ofTransitions s.timing.timelineDuration (span.start - s.timing.start)
      s.transitions with
  | none =>
    refine ⟨Nat.zero_le 1, nofun, nofun, ?_⟩
    exact iff_of_true rfl (Gain.ofTransitions_none made)
  | some g =>
    have follows : ∀ time, g.expression.eval time = clipEnvelope s.transitions
        (span.start - s.timing.start + time) s.timing.timelineDuration := by
      intro time
      rw [Gain.eval_expression]
      exact Gain.ofTransitions_some made time
    refine ⟨le_rfl, ?_, ?_, ?_⟩
    · intro f member
      rw [List.mem_singleton.mp member]
      exact follows
    · intro f member rate total sound time
      rw [List.mem_singleton.mp member, follows, gain_envelope, add_sub_right_comm]
    · obtain ⟨moment, nothing⟩ := silent_end made
      refine iff_of_false nofun fun full => ?_
      rw [full moment] at nothing
      exact one_ne_zero nothing

/-- The loudness of a clip in the graph is that in the mix, at every time of each of its spans. What
is written for a gain is its arithmetic. -/
theorem volume_follows_envelope (s : Scheduled Rat) (span : Span Rat) (input : Nat)
    (shape : AudioShape) (out : Label) :
    Ramped s span (audioClipChain s span input shape out).gains ∧
      ∀ g : Gain Float, (Filter.volume g).text =
        "volume='" ++ g.expression.text sixPlaces ++ "':eval=frame" := by
  rw [audioClipChain_gains]
  exact ⟨ofTransitions_ramped s span, Gain.volume_text⟩

end Graph
end Montage
