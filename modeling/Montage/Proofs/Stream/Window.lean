import Montage.Proofs.Stream.Keyframes
import Montage.Proofs.Stream.Moves

/- What a slot's decoder holds. Since the last seek the samples from the group's start up to
   the cursor were fed, each one once; those up to another position came out again, as frames
   in the same order, and the rest still waits. -/
namespace Montage

/-- What a decoder keeps of a sample. -/
def Sample.stamp (x : Sample) : Int × Nat := (x.timestamp, ofLowBytes x.payload)

namespace Decoder

/-- A decoder that is open and gives what it takes in. -/
structure Sound (d : Decoder) (depth : Nat) : Prop where
  opened : d.closed = false
  alive : d.stalled = false
  holds : d.reorderDepth = depth

theorem decode_fields {d after : Decoder} {x : Sample} (taken : d.decode x = .ok after) :
    after = { d with needsKeyframe := false, waiting := d.waiting ++ [x.stamp] } := by
  unfold decode frameIndex at taken
  split at taken
  · cases taken
  · split at taken
    · cases taken
    · split at taken
      · simp only [bind, Except.bind] at taken
        split at taken
        · cases taken
        · exact (Except.ok.inj taken).symm
      · simp [bind, Except.bind] at taken

theorem next_fields {d after : Decoder} {f : Frame} (given : d.next = some (f, after)) :
    ∃ timestamp index rest, d.waiting = (timestamp, index) :: rest ∧
      f = d.frame timestamp index ∧
      after = { d with waiting := rest, usage := { d.usage with live := d.usage.live + 1 } } := by
  unfold next at given
  split at given
  · split at given
    · cases given
    · rename_i timestamp index rest waits
      simp only [Option.some.injEq, Prod.mk.injEq] at given
      exact ⟨timestamp, index, rest, waits, given.1.symm, given.2.symm⟩
  · cases given

theorem decode_sound {d after : Decoder} {x : Sample} {depth : Nat}
    (taken : d.decode x = .ok after) (h : d.Sound depth) : after.Sound depth := by
  rw [decode_fields taken]
  exact ⟨h.opened, h.alive, h.holds⟩

theorem next_sound {d after : Decoder} {f : Frame} {depth : Nat}
    (given : d.next = some (f, after)) (h : d.Sound depth) : after.Sound depth := by
  obtain ⟨timestamp, index, rest, -, -, rfl⟩ := next_fields given
  exact ⟨h.opened, h.alive, h.holds⟩

theorem next_size {d after : Decoder} {f : Frame} (given : d.next = some (f, after)) :
    after.width = d.width ∧ after.height = d.height := by
  obtain ⟨timestamp, index, rest, -, -, rfl⟩ := next_fields given
  exact ⟨rfl, rfl⟩

theorem decode_pending {d after : Decoder} {x : Sample} (taken : d.decode x = .ok after) :
    after.pending = d.pending + 1 := by
  rw [decode_fields taken]
  simp [pending]

theorem next_pending {d after : Decoder} {f : Frame} (given : d.next = some (f, after)) :
    after.pending < d.pending := by
  obtain ⟨timestamp, index, rest, waits, -, rfl⟩ := next_fields given
  simp [pending, waits]

theorem next_empty {d : Decoder} (waits : d.waiting = []) : d.next = none := by
  simp [next, waits]

theorem next_none {d : Decoder} {depth : Nat} (sound : d.Sound depth) (none : d.next = none) :
    d.pending ≤ depth ∧ (d.flushing = true → d.waiting = []) := by
  have ready : d.isReady = (decide (depth < d.pending) || d.flushing) := by
    simp [isReady, sound.opened, sound.alive, sound.holds]
  cases waits : d.waiting with
  | nil => simp [pending, waits]
  | cons head rest =>
    have idle : d.isReady = false := by
      by_contra busy
      simp [next, busy, waits] at none
    rw [ready] at idle
    simp only [Bool.or_eq_false_iff, decide_eq_false_iff_not] at idle
    refine ⟨by omega, ?_⟩
    simp [idle.2]

end Decoder

namespace Slot

/-- Samples that came out of the decoder as frames end here. -/
def emitted (s : Slot) : Nat := s.cursor - s.decoder.pending

structure Window (s : Slot) : Prop where
  since : s.groupStart + s.decoder.pending ≤ s.cursor
  fed : s.cursor ≤ s.feedEnd
  ends : s.feedEnd ≤ s.table.length
  waiting : s.decoder.waiting = ((s.table.take s.cursor).drop s.emitted).map Sample.stamp
  together : s.decoder.flushing = s.flushed

theorem table_length (s : Slot) : s.table.length = s.samples.size := by
  simp [table]

theorem table_get (s : Slot) (i : Nat) : s.samples[i]? = s.table[i]? := by
  simp [table]

theorem take_drop_snoc {table : List Sample} {front last : Nat} {x : Sample} (ordered : front ≤ last)
    (stands : table[last]? = some x) :
    (table.take (last + 1)).drop front = (table.take last).drop front ++ [x] := by
  have inside := (List.getElem?_eq_some_iff.mp stands).1
  have short : front ≤ (table.take last).length := by
    rw [List.length_take]
    omega
  rw [List.take_add_one, stands, List.drop_append_of_le_length short]
  rfl

theorem take_drop_self (table : List Sample) (n : Nat) : (table.take n).drop n = [] :=
  List.drop_eq_nil_of_le (List.length_take_le _ _)

theorem take_drop_length {table : List Sample} {front last : Nat} (inside : last ≤ table.length) :
    ((table.take last).drop front).length = last - front := by
  rw [List.length_drop, List.length_take, Nat.min_eq_left inside]

theorem receive_fields (s : Slot) (f : Frame) :
    receive s f =
      { s with
        queue := (receive s f).queue
        decoder := s.decoder.release (s.queue.size + 1 - (receive s f).queue.size) } := by
  unfold receive
  split <;> rfl

/-- Frames that wait are samples of the table: the first of them is the next to come out. -/
theorem Window.next_sample {s : Slot} (h : s.Window) {timestamp : Int} {index : Nat}
    {rest : List (Int × Nat)} (waits : s.decoder.waiting = (timestamp, index) :: rest) :
    s.emitted < s.cursor ∧ ∃ x, s.table[s.emitted]? = some x ∧ x.stamp = (timestamp, index) := by
  have busy : s.decoder.pending ≠ 0 := by simp [Decoder.pending, waits]
  have since := h.since
  have early : s.emitted < s.cursor := by
    unfold emitted
    omega
  have first := congrArg List.head? (h.waiting.symm.trans waits)
  simp only [List.head?_map, List.head?_drop, List.getElem?_take_of_lt early, List.head?_cons,
    Option.map_eq_some_iff] at first
  exact ⟨early, first⟩

theorem position_window (s : Slot) (target : Int) (quiet : s.decoder.waiting = [])
    (unflushed : s.decoder.flushing = false) : (s.position target).Window where
  since := by simp [position, Decoder.pending, quiet]
  fed := by
    change _ ≤ if s.reverse then Sample.groupEnd s.table _ else s.samples.size
    split
    · exact Sample.le_groupEnd (Sample.keyframeAtOrBefore_le s.table target)
    · rw [← table_length]
      exact Sample.keyframeAtOrBefore_le s.table target
  ends := by
    change (if s.reverse then Sample.groupEnd s.table _ else s.samples.size) ≤ s.table.length
    split
    · exact Sample.groupEnd_le _ _
    · rw [table_length]
  waiting := by simp [position, emitted, Decoder.pending, quiet, table]
  together := unflushed

theorem seek_window (s : Slot) (target : Int) : (s.seek target).Window :=
  position_window _ target rfl rfl

theorem start_window (clip : String) (samples : List Sample) (d : Decoder) (reverse : Bool)
    (tuning : SlotTuning) (target : Int) (fresh : d.waiting = []) (unflushed : d.flushing = false) :
    (start clip samples d reverse tuning target).Window :=
  position_window _ target fresh unflushed

theorem wants_spec {s : Slot} {horizon : Int} (wanted : s.wants horizon = true) :
    s.cursor < s.feedEnd ∧ ∃ x, s.table[s.cursor]? = some x ∧
      (s.reverse = true ∨ x.timestamp ≤ horizon) := by
  simp only [wants, Bool.and_eq_true, decide_eq_true_eq, table_get] at wanted
  refine ⟨wanted.1, ?_⟩
  cases stands : s.table[s.cursor]? with
  | none => simp [stands] at wanted
  | some x => exact ⟨x, rfl, by simpa [stands] using wanted.2⟩

/-- Nothing more is wanted at the end of what is to be fed, or at a sample beyond the horizon. -/
theorem Window.sated {s : Slot} {horizon : Int} (h : s.Window) (sated : s.wants horizon = false) :
    s.cursor = s.feedEnd ∨
      s.reverse = false ∧ ∃ x, s.table[s.cursor]? = some x ∧ horizon < x.timestamp := by
  have fed := h.fed
  have ends := h.ends
  by_cases done : s.cursor < s.feedEnd
  · right
    have stands := List.getElem?_eq_getElem (show s.cursor < s.table.length by omega)
    simp only [wants, done, decide_true, Bool.true_and, table_get, stands, Bool.or_eq_false_iff,
      decide_eq_false_iff_not] at sated
    exact ⟨sated.1, _, stands, Int.not_le.mp sated.2⟩
  · left
    omega

theorem feed_window {s : Slot} {x : Sample} {d : Decoder} {horizon : Int} (h : s.Window)
    (wanted : s.wants horizon = true) (next : s.samples[s.cursor]? = some x) (taken : s.decoder.decode x = .ok d) :
    ({ s with decoder := d, cursor := s.cursor + 1 } : Slot).Window ∧
      ({ s with decoder := d, cursor := s.cursor + 1 } : Slot).emitted = s.emitted := by
  have since := h.since
  have fed := (wants_spec wanted).1
  rw [table_get] at next
  have inside := (List.getElem?_eq_some_iff.mp next).1
  rw [Decoder.decode_fields taken]
  have count : (s.decoder.waiting ++ [x.stamp]).length = s.decoder.pending + 1 := by
    simp [Decoder.pending]
  have same : s.cursor + 1 - (s.decoder.waiting ++ [x.stamp]).length = s.emitted := by
    rw [count]
    unfold emitted
    omega
  refine ⟨⟨?_, fed, h.ends, ?_, h.together⟩, same⟩
  · change s.groupStart + (s.decoder.waiting ++ [x.stamp]).length ≤ s.cursor + 1
    omega
  · change s.decoder.waiting ++ [x.stamp] =
      ((s.table.take (s.cursor + 1)).drop
        (s.cursor + 1 - (s.decoder.waiting ++ [x.stamp]).length)).map Sample.stamp
    have short : s.emitted ≤ (s.table.take s.cursor).length := by
      rw [List.length_take, Nat.min_eq_left inside.le]
      exact Nat.sub_le _ _
    rw [same, List.take_add_one, next, List.drop_append_of_le_length short, List.map_append,
      ← h.waiting]
    rfl

theorem receive_window {s : Slot} {f : Frame} {d : Decoder} (h : s.Window)
    (given : s.decoder.next = some (f, d)) :
    (receive { s with decoder := d } f).Window ∧
      (receive { s with decoder := d } f).emitted = s.emitted + 1 := by
  obtain ⟨timestamp, index, rest, waits, -, rfl⟩ := Decoder.next_fields given
  have since := h.since
  have count : s.decoder.pending = rest.length + 1 := by simp [Decoder.pending, waits]
  have later : s.cursor - rest.length = s.emitted + 1 := by
    unfold emitted
    omega
  rw [receive_fields]
  refine ⟨⟨?_, h.fed, h.ends, ?_, h.together⟩, later⟩
  · change s.groupStart + rest.length ≤ s.cursor
    omega
  · change rest = ((s.table.take s.cursor).drop (s.cursor - rest.length)).map Sample.stamp
    have tail := congrArg List.tail (waits.symm.trans h.waiting)
    rw [later, ← List.tail_drop, List.map_tail]
    exact tail

theorem move_window {tuning : SlotTuning} {horizon : Int} {s after : Slot}
    (step : Move tuning horizon s after) (h : s.Window) : after.Window := by
  cases step with
  | feed wanted room next taken => exact (feed_window h wanted next taken).1
  | arrive given => exact (receive_window h given).1
  | flush fed first => exact ⟨h.since, h.fed, h.ends, h.waiting, rfl⟩

theorem move_sound {tuning : SlotTuning} {horizon : Int} {s after : Slot} {depth : Nat}
    (step : Move tuning horizon s after) (h : s.decoder.Sound depth) :
    after.decoder.Sound depth := by
  cases step with
  | feed wanted room next taken => exact Decoder.decode_sound taken h
  | arrive given =>
    have sound := Decoder.next_sound given h
    rw [receive_fields]
    exact ⟨sound.opened, sound.alive, sound.holds⟩
  | flush fed first => exact ⟨h.opened, h.alive, h.holds⟩

theorem move_resets {tuning : SlotTuning} {horizon : Int} {s after : Slot}
    (move : Move tuning horizon s after) :
    after.decoder.usage.resets = s.decoder.usage.resets := by
  cases move with
  | feed wanted room next taken =>
    rw [Decoder.decode_fields taken]
  | arrive given =>
    obtain ⟨timestamp, index, rest, -, -, rfl⟩ := Decoder.next_fields given
    rw [receive_fields]
    rfl
  | flush fed first => rfl

theorem pick_window {s : Slot} (target : Int) (h : s.Window) : (s.pick target).2.Window :=
  ⟨h.since, h.fed, h.ends, h.waiting, h.together⟩

end Slot
end Montage
