import Mathlib.Logic.Relation
import Montage.Stream.Slot

/- What an advance can do to a slot, said once: it feeds a sample, takes a frame that the
   decoder gives, or tells the decoder that nothing more will come. Every advance of an open
   slot is a seek, if one is needed, and then a sequence of such moves, however it ends. -/
namespace Montage.Slot

inductive Move (tuning : SlotTuning) (horizon : Int) : Slot → Slot → Prop where
  | feed {s : Slot} {x : Sample} {d : Decoder} (wanted : s.wants horizon = true)
      (room : s.decoder.pending < max tuning.depth 1) (next : s.samples[s.cursor]? = some x)
      (taken : s.decoder.decode x = .ok d) :
      Move tuning horizon s { s with decoder := d, cursor := s.cursor + 1 }
  | arrive {s : Slot} {f : Frame} {d : Decoder} (given : s.decoder.next = some (f, d)) :
      Move tuning horizon s (receive { s with decoder := d } f)
  | flush {s : Slot} (fed : s.feedEnd ≤ s.cursor) (first : s.flushed = false) :
      Move tuning horizon s { s with decoder := s.decoder.flush, flushed := true }

abbrev Moves (tuning : SlotTuning) (horizon : Int) : Slot → Slot → Prop :=
  Relation.ReflTransGen (Move tuning horizon)

variable (tuning : SlotTuning) (horizon : Int)

theorem feedUpTo_moves (n : Nat) (s : Slot) :
    Moves tuning horizon s (feedUpTo horizon (max tuning.depth 1) n s).2 := by
  induction n generalizing s with
  | zero => exact .refl
  | succ n ih =>
    rw [feedUpTo]
    split
    · rename_i go
      simp only [Bool.and_eq_true, decide_eq_true_eq] at go
      cases next : s.samples[s.cursor]? with
      | none => exact .refl
      | some x =>
        cases taken : s.decoder.decode x with
        | error e => simp only [taken]; exact .refl
        | ok d =>
          simp only [taken]
          exact .head (.feed go.1 go.2 next taken) (ih _)
    · exact .refl

theorem collectUpTo_moves (n : Nat) (s : Slot) :
    Moves tuning horizon s (collectUpTo n s) := by
  induction n generalizing s with
  | zero => exact .refl
  | succ n ih =>
    rw [collectUpTo]
    cases given : s.decoder.next with
    | none => exact .refl
    | some pair =>
      obtain ⟨f, d⟩ := pair
      exact .head (.arrive given) (ih _)

theorem collect_moves (s : Slot) : Moves tuning horizon s s.collect :=
  collectUpTo_moves tuning horizon _ s

theorem drain_moves (s : Slot) (fed : s.feedEnd ≤ s.cursor) :
    Moves tuning horizon s s.drain := by
  unfold drain
  cases first : s.flushed with
  | true => simpa using collect_moves tuning horizon s
  | false => simpa using .head (.flush fed first) (collect_moves tuning horizon _)

theorem turn_moves (phase : Phase) (s : Slot) (clock : Clock) :
    Moves tuning horizon s (turn tuning horizon phase s clock).2.1 := by
  cases phase with
  | feeding =>
    have fed := feedUpTo_moves tuning horizon (s.feedEnd - s.cursor) s
    simp only [turn, feed]
    split
    · rename_i e after eq
      rwa [eq] at fed
    · rename_i after eq
      rw [eq] at fed
      have collected := fed.trans (collect_moves tuning horizon after)
      split
      · split <;> exact collected
      · split
        · rename_i done
          exact collected.trans (drain_moves tuning horizon _ done)
        · exact collected
  | waiting deadline =>
    simp only [turn]
    split
    · exact collect_moves tuning horizon s
    · split <;> exact collect_moves tuning horizon s

theorem turns_moves (n : Nat) (phase : Phase) (s : Slot) (clock : Clock) :
    Moves tuning horizon s (turns tuning horizon n phase s clock).2.1 := by
  induction n generalizing phase s clock with
  | zero => exact .refl
  | succ n ih =>
    have first := turn_moves tuning horizon phase s clock
    rw [turns]
    split
    · rename_i eq
      rwa [eq] at first
    · rename_i eq
      rw [eq] at first
      exact first.trans (ih _ _ _)

/-- What every move keeps, an advance keeps once it has begun. -/
theorem moves_keep {tuning : SlotTuning} {horizon : Int} (keep : Slot → Prop)
    (step : ∀ {s after}, Move tuning horizon s after → keep s → keep after)
    {s after : Slot} (steps : Moves tuning horizon s after) (h : keep s) : keep after := by
  induction steps with
  | refl => exact h
  | tail _ last ih => exact step last ih

theorem advance_opened (target : Int) (s : Slot) (clock : Clock) (opened : s.closed = false)
    (reckons : s.Reckons tuning target) :
    s.advance tuning target clock =
      match turns tuning (target + tuning.lookahead)
        (patience tuning (s.aimed target) clock) .feeding (s.aimed target) clock with
      | (some result, after, clock) => (result, after, clock)
      | (none, after, clock) => (.error (.stalled after.clip after.decoder.pending), after, clock) := by
  rw [advance, if_neg (by simp [opened])]
  exact if_pos reckons

/-- Nothing is fed where what is reckoned before that overflows. -/
theorem advance_overflow (target : Int) (s : Slot) (clock : Clock) (opened : s.closed = false)
    (overflows : ¬ s.Reckons tuning target) :
    s.advance tuning target clock = (.error .overflow, s.aimed target, clock) := by
  simp only [advance, opened, Bool.false_eq_true, if_false, if_neg overflows]

theorem advance_moves (target : Int) (s : Slot) (clock : Clock) (opened : s.closed = false) :
    Moves tuning (target + tuning.lookahead) (s.aimed target)
      (s.advance tuning target clock).2.1 := by
  by_cases reckons : s.Reckons tuning target
  · have all := turns_moves tuning (target + tuning.lookahead)
      (patience tuning (s.aimed target) clock) .feeding (s.aimed target) clock
    rw [advance_opened tuning target s clock opened reckons]
    split
    · rename_i eq
      rwa [eq] at all
    · rename_i eq
      rwa [eq] at all
  · rw [advance_overflow tuning target s clock opened reckons]

theorem advance_closed (target : Int) (s : Slot) (clock : Clock) (closed : s.closed = true) :
    s.advance tuning target clock = (.error (.clipClosed s.clip), s, clock) := by
  simp [advance, closed]

/-- An advance that succeeds is one of an open slot, and nothing overflowed before it. -/
theorem advance_begun {target : Int} {s after : Slot} {clock later : Clock} {outcome : Advanced}
    (reached : s.advance tuning target clock = (.ok outcome, after, later)) :
    s.closed = false ∧ s.Reckons tuning target := by
  cases running : s.closed with
  | true =>
    rw [advance_closed tuning target s clock running] at reached
    cases reached
  | false =>
    refine ⟨rfl, Decidable.byContradiction fun overflows => ?_⟩
    rw [advance_overflow tuning target s clock running overflows] at reached
    cases reached

theorem start?_eq_some_iff {clip : String} {table : List Sample} {decoder : Decoder}
    {reverse : Bool} {tuning : SlotTuning} {target : Int} {s : Slot} :
    start? clip table decoder reverse tuning target = some s ↔
      Opens table reverse tuning target ∧ start clip table decoder reverse tuning target = s := by
  unfold start?
  split <;> simp_all

theorem pick?_eq_some_iff {s after : Slot} {target : Int} {f : Option Frame} :
    s.pick? target = some (f, after) ↔
      s.queue.reaches target = true ∧ s.pick target = (f, after) := by
  unfold pick?
  split <;> simp_all

theorem pick_eq (s : Slot) (target : Int) :
    s.pick target =
      let picked := if s.reverse then s.queue.pickDescending target else s.queue.pick target
      (picked.1, s.requeue picked.2 0) :=
  rfl

end Montage.Slot
