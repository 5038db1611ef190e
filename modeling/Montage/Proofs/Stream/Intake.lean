import Montage.Proofs.Stream.Window

/- What a slot's decoder takes in. On its way through an advance a slot hands over the samples of
   the table one by one, from the cursor on, so that since it was last put at a keyframe it has
   handed over those from there up to the cursor, each of them once. -/
namespace Montage.Slot

/-- Moves from one state of a slot to another, with the samples that its decoder takes on the
way. -/
inductive Takes (tuning : SlotTuning) (horizon : Int) : Slot → List Sample → Slot → Prop where
  | none {s : Slot} : Takes tuning horizon s [] s
  | fed {s middle : Slot} {xs : List Sample} {x : Sample} {d : Decoder}
      (before : Takes tuning horizon s xs middle) (wanted : middle.wants horizon = true)
      (room : middle.decoder.pending < max tuning.depth 1)
      (next : middle.samples[middle.cursor]? = some x) (taken : middle.decoder.decode x = .ok d) :
      Takes tuning horizon s (xs ++ [x]) { middle with decoder := d, cursor := middle.cursor + 1 }
  | given {s middle : Slot} {xs : List Sample} {f : Frame} {d : Decoder}
      (before : Takes tuning horizon s xs middle) (given : middle.decoder.next = some (f, d)) :
      Takes tuning horizon s xs (receive { middle with decoder := d } f)
  | flushed {s middle : Slot} {xs : List Sample} (before : Takes tuning horizon s xs middle)
      (fed : middle.feedEnd ≤ middle.cursor) (first : middle.flushed = false) :
      Takes tuning horizon s xs { middle with decoder := middle.decoder.flush, flushed := true }

section Takes
variable {tuning : SlotTuning} {horizon : Int} {s after : Slot} {xs : List Sample}

theorem Takes.moves (takes : Takes tuning horizon s xs after) : Moves tuning horizon s after := by
  induction takes with
  | none => exact .refl
  | fed _ wanted room next taken ih => exact ih.tail (.feed wanted room next taken)
  | given _ given ih => exact ih.tail (.arrive given)
  | flushed _ fed first ih => exact ih.tail (.flush fed first)

theorem moves_take (moves : Moves tuning horizon s after) :
    ∃ xs, Takes tuning horizon s xs after := by
  induction moves with
  | refl => exact ⟨[], .none⟩
  | tail _ move ih =>
    obtain ⟨xs, before⟩ := ih
    cases move with
    | feed wanted room next taken => exact ⟨_, before.fed wanted room next taken⟩
    | arrive given => exact ⟨xs, before.given given⟩
    | flush fed first => exact ⟨xs, before.flushed fed first⟩

/-- A move changes the decoder, the cursor, the queue and the flush mark, and nothing else. -/
theorem move_fields (move : Move tuning horizon s after) :
    after = { s with
      decoder := after.decoder
      cursor := after.cursor
      queue := after.queue
      flushed := after.flushed } := by
  cases move with
  | feed wanted room next taken => rfl
  | arrive given =>
    rw [receive_fields]
  | flush fed first => rfl

theorem moves_fields (moves : Moves tuning horizon s after) :
    after = { s with
      decoder := after.decoder
      cursor := after.cursor
      queue := after.queue
      flushed := after.flushed } := by
  induction moves with
  | refl => rfl
  | tail _ move ih =>
    rw [move_fields move, ih]

theorem moves_table (moves : Moves tuning horizon s after) : after.table = s.table := by
  rw [moves_fields moves]
  rfl

/-- What is taken continues the table from any place before the cursor. -/
theorem Takes.extends (takes : Takes tuning horizon s xs after) {first : Nat}
    (since : first ≤ s.cursor) :
    first ≤ after.cursor ∧
      (s.table.take after.cursor).drop first = (s.table.take s.cursor).drop first ++ xs := by
  induction takes with
  | none => exact ⟨since, (List.append_nil _).symm⟩
  | @fed middle xs x d before wanted room next taken ih =>
    obtain ⟨later, part⟩ := ih
    rw [table_get, moves_table before.moves] at next
    refine ⟨Nat.le_succ_of_le later, ?_⟩
    rw [take_drop_snoc later next, part, List.append_assoc]
  | given before given ih =>
    rw [receive_fields]
    exact ih
  | flushed before fed first ih => exact ih

/-- What was taken is the part of the table between the two cursors. -/
theorem Takes.slice (takes : Takes tuning horizon s xs after) :
    xs = (s.table.take after.cursor).drop s.cursor := by
  have part := (takes.extends (le_refl s.cursor)).2
  rw [part, take_drop_self, List.nil_append]

end Takes

end Montage.Slot
