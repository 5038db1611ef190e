import Montage.Proofs.Stream.Queue
import Montage.Proofs.Stream.Settling

/- Sequences of calls on a slot, whatever they ask for and however they end, and what stays
   fixed over them: the table, the direction, the bounds, and that everything follows from the
   last target that was sought. -/
namespace Montage

inductive Call where
  | advance (target : Int)
  | pick (target : Int)
  | close
  deriving DecidableEq, Repr

namespace Slot

def perform (tuning : SlotTuning) (call : Call) (state : Slot × Clock) : Slot × Clock :=
  match call with
  | .advance target => (state.1.advance tuning target state.2).2
  | .pick target => ((state.1.pick target).2, state.2)
  | .close => (state.1.close, state.2)

def played (tuning : SlotTuning) (calls : List Call) (state : Slot × Clock) : Slot × Clock :=
  calls.foldl (fun state call => perform tuning call state) state

/-- Targets at which a slot may be put by its calls. -/
def sought (calls : List Call) : List Int :=
  calls.filterMap fun call => match call with
    | .advance target => some target
    | _ => none

theorem aimed_keeps {keep : Slot → Prop} {s : Slot} {target : Int}
    (seeks : keep s → keep (s.seek target)) (h : keep s) : keep (s.aimed target) := by
  unfold aimed
  split
  · exact seeks h
  · exact h

theorem advance_keeps {tuning : SlotTuning} {keep : Slot → Prop}
    (step : ∀ {horizon s after}, Move tuning horizon s after → keep s → keep after)
    {s : Slot} {target : Int} (seeks : keep s → keep (s.seek target)) (clock : Clock)
    (h : keep s) : keep (s.advance tuning target clock).2.1 := by
  cases running : s.closed with
  | true => rwa [advance_closed tuning target s clock running]
  | false =>
    exact moves_keep keep step (advance_moves tuning target s clock running) (aimed_keeps seeks h)

theorem move_closed {tuning : SlotTuning} {horizon : Int} {s after : Slot}
    (step : Move tuning horizon s after) : after.closed = s.closed := by
  cases step with
  | feed wanted room next taken => rfl
  | arrive given => rw [receive_fields]
  | flush fed first => rfl

theorem advance_closed_eq (tuning : SlotTuning) (target : Int) (s : Slot) (clock : Clock) :
    (s.advance tuning target clock).2.1.closed = s.closed :=
  advance_keeps (fun step same => (move_closed step).trans same) id clock rfl

/-- What every move, every seek to one of the targets and every pick keep holds until the slot
is closed. -/
theorem played_keeps {tuning : SlotTuning} (keep : Slot → Prop)
    (step : ∀ {horizon s after}, Move tuning horizon s after → keep s → keep after)
    (picks : ∀ {s} target, keep s → keep (s.pick target).2) (calls : List Call)
    (seeks : ∀ target ∈ sought calls, ∀ s, keep s → keep (s.seek target))
    (state : Slot × Clock) (h : state.1.closed = true ∨ keep state.1) :
    (played tuning calls state).1.closed = true ∨ keep (played tuning calls state).1 := by
  induction calls generalizing state with
  | nil => exact h
  | cons call calls ih =>
    refine ih (fun target member => seeks target ?_) _ ?_
    · cases call <;> simp [sought] at member ⊢ <;> simp [member]
    · cases call with
      | advance target =>
        rcases h with closed | h
        · exact .inl ((advance_closed_eq tuning target state.1 state.2).trans closed)
        · exact .inr (advance_keeps step (seeks target (by simp [sought]) state.1) state.2 h)
      | pick target =>
        rcases h with closed | h
        · exact .inl closed
        · exact .inr (picks target h)
      | close =>
        left
        simp only [perform, close]
        split
        · assumption
        · rfl

/-- Age from which frames are dropped after a seek. -/
def floorAt (table : List Sample) (reverse : Bool) (tuning : SlotTuning) (target : Int) : Int :=
  Sample.earliest table reverse target - max tuning.tolerance (Sample.nominalDuration table)

structure Placed (table : List Sample) (reverse : Bool) (tuning : SlotTuning) (target : Int)
    (s : Slot) : Prop where
  reads : s.table = table
  direction : s.reverse = reverse
  margin : s.tolerance = max tuning.tolerance (Sample.nominalDuration table)
  half : s.halfFrame = Int.tdiv (Sample.nominalDuration table) 2
  room : s.queue.capacity = max (Slot.capacity table reverse tuning) 2
  opens : s.groupStart = Sample.keyframeAtOrBefore table target
  stops : s.feedEnd =
    if reverse then Sample.groupEnd table (Sample.keyframeAtOrBefore table target)
    else table.length
  drops : s.floor = floorAt table reverse tuning target

section Placed
variable {table : List Sample} {reverse : Bool} {tuning : SlotTuning} {target : Int} {s : Slot}

theorem start_placed (clip : String) (d : Decoder) :
    (start clip table d reverse tuning target).Placed table reverse tuning target where
  reads := rfl
  direction := rfl
  margin := rfl
  half := rfl
  room := rfl
  opens := rfl
  stops := by simp [start, position, Slot.table]
  drops := rfl

theorem seek_placed (next : Int) (h : s.Placed table reverse tuning target) :
    (s.seek next).Placed table reverse tuning next where
  reads := h.reads
  direction := h.direction
  margin := h.margin
  half := h.half
  room := h.room
  opens := congrArg (Sample.keyframeAtOrBefore · next) h.reads
  stops := by
    rw [← h.reads, ← h.direction, table_length]
    rfl
  drops := by
    rw [floorAt, ← h.margin, ← h.reads, ← h.direction]
    rfl

theorem receive_capacity (s : Slot) (f : Frame) :
    (receive s f).queue.capacity = s.queue.capacity := by
  unfold receive
  split <;> rfl

theorem move_placed {horizon : Int} {after : Slot} (step : Move tuning horizon s after)
    (h : s.Placed table reverse tuning target) : after.Placed table reverse tuning target := by
  cases step with
  | feed wanted room next taken =>
    exact ⟨h.reads, h.direction, h.margin, h.half, h.room, h.opens, h.stops, h.drops⟩
  | arrive given =>
    rw [receive_fields]
    refine ⟨h.reads, h.direction, h.margin, h.half, ?_, h.opens, h.stops, h.drops⟩
    exact (receive_capacity _ _).trans h.room
  | flush fed first =>
    exact ⟨h.reads, h.direction, h.margin, h.half, h.room, h.opens, h.stops, h.drops⟩

/-- A pick leaves a part of the queue. -/
theorem pick_part (s : Slot) (target : Int) :
    (s.pick target).2.queue.frames.Sublist s.queue.frames ∧
      (s.pick target).2.queue.capacity = s.queue.capacity := by
  rw [pick_eq]
  dsimp only
  split
  · exact s.queue.pickDescending_part target
  · exact s.queue.pick_part target

theorem pick_placed (next : Int) (h : s.Placed table reverse tuning target) :
    (s.pick next).2.Placed table reverse tuning target :=
  ⟨h.reads, h.direction, h.margin, h.half, (pick_part s next).2.trans h.room,
    h.opens, h.stops, h.drops⟩

end Placed

end Slot
end Montage
