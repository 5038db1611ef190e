import Montage.Proofs.Stream.Moves
import Montage.Proofs.Stream.Queue

/- What a slot's decoder adds to the books that all decoders keep. It was opened once, it is closed
   once the slot is, and the frames that it gave and that were not let go are those in the queue: a
   frame that comes too early, that a full queue drops, or that a pick passes over is let go at
   once. -/
namespace Montage

namespace Decoder

theorem decode_account {d after : Decoder} {x : Sample} (taken : d.decode x = .ok after) :
    after.usage = d.usage ∧ after.closed = d.closed := by
  unfold decode at taken
  split at taken
  · cases taken
  · split at taken
    · cases taken
    · cases index : frameIndex x with
      | error e => simp [index, bind, Except.bind] at taken
      | ok n =>
        simp only [index, bind, Except.bind] at taken
        split at taken
        · cases taken
        · cases taken
          exact ⟨rfl, rfl⟩

theorem next_account {d after : Decoder} {f : Frame} (given : d.next = some (f, after)) :
    after.usage = { d.usage with live := d.usage.live + 1 } ∧ after.closed = d.closed := by
  unfold next at given
  split at given
  · cases waits : d.waiting with
    | nil => simp [waits] at given
    | cons head rest =>
      simp only [waits, Option.some.injEq, Prod.mk.injEq] at given
      obtain ⟨-, rfl⟩ := given
      exact ⟨rfl, rfl⟩
  · cases given

end Decoder

namespace Slot

/-- The books, of which the slot is handed what the others did. -/
structure Accounted (others : Usage) (s : Slot) : Prop where
  opened : s.decoder.usage.opened = others.opened + 1
  closes : s.decoder.usage.closed = others.closed + if s.closed then 1 else 0
  together : s.decoder.closed = s.closed
  live : s.decoder.usage.live = others.live + s.queue.size
  emptied : s.closed = true → s.queue.frames = []

variable {others : Usage}

theorem start_accounted (clip : String) (samples : List Sample) (d : Decoder) (reverse : Bool)
    (tuning : SlotTuning) (target : Int)
    (fresh : d.usage = { others with opened := others.opened + 1 }) (opened : d.closed = false) :
    (start clip samples d reverse tuning target).Accounted others where
  opened := (congrArg Usage.opened fresh :)
  closes := (congrArg Usage.closed fresh :)
  together := opened
  live := (congrArg Usage.live fresh :)
  emptied := fun _ => rfl

/-- Frames that arrived and those that were queued, less those queued now, are let go. -/
theorem requeue_accounted {s : Slot} (queue : FrameQueue) (arrived : Nat)
    (opened : s.decoder.usage.opened = others.opened + 1)
    (closes : s.decoder.usage.closed = others.closed + if s.closed then 1 else 0)
    (together : s.decoder.closed = s.closed)
    (live : s.decoder.usage.live = others.live + s.queue.size + arrived)
    (fits : queue.size ≤ s.queue.size + arrived)
    (emptied : s.closed = true → queue.frames = []) : (s.requeue queue arrived).Accounted others where
  opened := opened
  closes := closes
  together := together
  live := by
    change s.decoder.usage.live - (s.queue.size + arrived - queue.size) = others.live + queue.size
    omega
  emptied := emptied

theorem receive_accounted {s : Slot} {d : Decoder} (f : Frame) (h : s.Accounted others)
    (usage : d.usage = { s.decoder.usage with live := s.decoder.usage.live + 1 })
    (closed : d.closed = s.decoder.closed) (running : s.closed = false) :
    (receive { s with decoder := d } f).Accounted others := by
  have opened : d.usage.opened = others.opened + 1 := by
    rw [usage]
    exact h.opened
  have closes : d.usage.closed = others.closed + if s.closed then 1 else 0 := by
    rw [usage]
    exact h.closes
  have live : d.usage.live = others.live + s.queue.size + 1 := by
    rw [usage]
    exact congrArg (· + 1) h.live
  unfold receive
  split
  · apply requeue_accounted _ _ opened closes (closed.trans h.together) live
    · simp
    · exact h.emptied
  · apply requeue_accounted _ _ opened closes (closed.trans h.together) live
    · have size : (s.queue.push f).size ≤ s.queue.size + 1 := by
        rw [FrameQueue.push_size]
        exact Nat.min_le_left _ _
      exact size
    · intro stopped
      simp [running] at stopped

theorem move_accounted {tuning : SlotTuning} {horizon : Int} {s after : Slot}
    (step : Move tuning horizon s after) (running : s.closed = false) (h : s.Accounted others) :
    after.closed = false ∧ after.Accounted others := by
  cases step with
  | feed wanted room next taken =>
    obtain ⟨usage, closed⟩ := Decoder.decode_account taken
    refine ⟨running, ⟨?_, ?_, ?_, ?_, h.emptied⟩⟩
    · simpa [usage] using h.opened
    · simpa [usage] using h.closes
    · simpa [closed] using h.together
    · simpa [usage] using h.live
  | arrive given =>
    obtain ⟨usage, closed⟩ := Decoder.next_account given
    refine ⟨?_, receive_accounted _ h usage closed running⟩
    unfold receive
    split <;> exact running
  | flush fed first => exact ⟨running, ⟨h.opened, h.closes, h.together, h.live, h.emptied⟩⟩

theorem moves_accounted {tuning : SlotTuning} {horizon : Int} {s after : Slot}
    (steps : Moves tuning horizon s after) (running : s.closed = false) (h : s.Accounted others) :
    after.closed = false ∧ after.Accounted others :=
  moves_keep (fun s => s.closed = false ∧ s.Accounted others)
    (fun step held => move_accounted step held.1 held.2) steps ⟨running, h⟩

theorem seek_accounted {s : Slot} (target : Int) (h : s.Accounted others) :
    (s.seek target).Accounted others where
  opened := h.opened
  closes := h.closes
  together := h.together
  live := by
    have live := h.live
    change s.decoder.usage.live - (s.queue.size + 0 - 0) = others.live
    omega
  emptied := fun _ => rfl

theorem advance_accounted (tuning : SlotTuning) (target : Int) {s : Slot} (clock : Clock)
    (h : s.Accounted others) :
    (s.advance tuning target clock).2.1.closed = s.closed ∧
      (s.advance tuning target clock).2.1.Accounted others := by
  cases running : s.closed with
  | true => rw [advance_closed tuning target s clock running]; exact ⟨running, h⟩
  | false =>
    have aim : (s.aimed target).closed = false ∧ (s.aimed target).Accounted others := by
      unfold aimed
      split
      · exact ⟨running, seek_accounted target h⟩
      · exact ⟨running, h⟩
    exact moves_accounted (advance_moves tuning target s clock running) aim.1 aim.2

theorem pick_accounted {s : Slot} (target : Int) (h : s.Accounted others) :
    (s.pick target).2.closed = s.closed ∧ (s.pick target).2.Accounted others := by
  rw [pick_eq]
  refine ⟨rfl, requeue_accounted _ 0 h.opened h.closes h.together h.live ?_ ?_⟩
  · split
    · exact (s.queue.pickDescending_part target).1.length_le
    · exact (s.queue.pick_part target).1.length_le
  · intro stopped
    have empty := h.emptied stopped
    have none := (FrameQueue.nearest_none_iff s.queue target).mpr empty
    split <;> simp [FrameQueue.pickDescending, FrameQueue.pick, none, empty]

/-- A closed slot has closed its one decoder once and let go of every frame. -/
theorem close_account {s : Slot} (h : s.Accounted others) :
    s.close.decoder.usage.opened = others.opened + 1 ∧
      s.close.decoder.usage.closed = others.closed + 1 ∧
      s.close.decoder.usage.live = others.live := by
  cases running : s.closed with
  | true =>
    have same : s.close = s := by simp [close, running]
    have size : s.queue.size = 0 := by simp [FrameQueue.size, h.emptied running]
    have live := h.live
    rw [size] at live
    rw [same]
    exact ⟨h.opened, by simpa [running] using h.closes, live⟩
  | false =>
    have alive : s.decoder.closed = false := h.together.trans running
    have closes := h.closes
    have live := h.live
    simp only [running, Bool.false_eq_true, if_false] at closes
    have once : s.close.decoder.usage =
        { s.decoder.usage with
          resets := s.decoder.usage.resets + 1
          closed := s.decoder.usage.closed + 1
          live := s.decoder.usage.live - (s.queue.size + 0 - 0) } := by
      simp [close, running, requeue, Decoder.close, Decoder.reset, Decoder.release, alive,
        FrameQueue.clear, FrameQueue.size]
    rw [once]
    exact ⟨h.opened, by simp [closes], by simp [live]⟩

/-- The books are handed to a slot that runs, with what it has done itself and what others have. -/
theorem booked_accounted {s : Slot} {before books : Usage} (h : s.Accounted before)
    (running : s.closed = false) (opened : books.opened = others.opened + 1)
    (closed : books.closed = others.closed) (live : books.live = others.live + s.queue.size) :
    (s.booked books).Accounted others where
  opened := opened
  closes := by
    change books.closed = others.closed + if s.closed then 1 else 0
    simp [running, closed]
  together := h.together
  live := live
  emptied := h.emptied

end Slot
end Montage
