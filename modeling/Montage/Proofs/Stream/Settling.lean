import Montage.Proofs.Stream.Window

/- How an advance that succeeds leaves a slot: no sample up to the horizon is missing, the
   decoder has given every frame that was ready, and after the last sample all of them. -/
namespace Montage.Slot

/-- Frames arrive into the queue, and nothing else changes. -/
theorem collectUpTo_fields (n : Nat) (s : Slot) :
    collectUpTo n s =
      { s with decoder := (collectUpTo n s).decoder, queue := (collectUpTo n s).queue } := by
  induction n generalizing s with
  | zero => rfl
  | succ n ih =>
    cases given : s.decoder.next with
    | none => simp [collectUpTo, given]
    | some pair =>
      obtain ⟨f, d⟩ := pair
      have rest := ih (receive { s with decoder := d } f)
      rw [receive_fields] at rest
      simp only [collectUpTo, given]
      rw [receive_fields]
      exact rest

theorem collect_fields (s : Slot) :
    s.collect = { s with decoder := s.collect.decoder, queue := s.collect.queue } :=
  collectUpTo_fields _ s

theorem collectUpTo_quiet (n : Nat) (s : Slot) (enough : s.decoder.pending ≤ n) :
    (collectUpTo n s).decoder.next = none := by
  induction n generalizing s with
  | zero =>
    have empty : s.decoder.waiting = [] := List.length_eq_zero_iff.mp (Nat.le_zero.mp enough)
    simp [collectUpTo, Decoder.next, empty]
  | succ n ih =>
    cases given : s.decoder.next with
    | none => simp [collectUpTo, given]
    | some pair =>
      obtain ⟨f, d⟩ := pair
      obtain ⟨timestamp, index, rest, waits, -, fields⟩ := Decoder.next_fields given
      have fewer : d.pending ≤ n := by
        rw [Decoder.pending, waits, List.length_cons] at enough
        rw [fields]
        exact Nat.le_of_succ_le_succ enough
      simp only [collectUpTo, given]
      apply ih
      rw [receive_fields]
      exact fewer

theorem collect_quiet (s : Slot) : s.collect.decoder.next = none :=
  collectUpTo_quiet _ s (le_refl _)

theorem drain_fields (s : Slot) :
    s.drain = { s with decoder := s.drain.decoder, queue := s.drain.queue, flushed := true } := by
  unfold drain
  rw [collect_fields]
  cases first : s.flushed with
  | true => simp [first]
  | false => simp

structure Settled (horizon : Int) (s : Slot) : Prop where
  sated : s.wants horizon = false
  quiet : s.decoder.next = none
  drained : s.feedEnd ≤ s.cursor → s.flushed = true

theorem turn_settled (tuning : SlotTuning) (horizon : Int) (phase : Phase) {s after : Slot}
    {clock later : Clock} {outcome : Advanced}
    (ended : turn tuning horizon phase s clock = (.ended (.ok outcome), after, later)) :
    after.Settled horizon := by
  cases phase with
  | feeding =>
    simp only [turn] at ended
    split at ended
    · simp at ended
    · rename_i fed _
      split at ended
      · split at ended <;> simp at ended
      · rename_i sated
        have sated : fed.collect.wants horizon = false := by simpa using sated
        split at ended
        · simp only [Prod.mk.injEq] at ended
          rw [← ended.2.1]
          refine ⟨?_, ?_, ?_⟩
          · rw [drain_fields]
            exact sated
          · exact collect_quiet _
          · intro _
            rw [drain_fields]
        · rename_i unfinished
          simp only [Prod.mk.injEq] at ended
          rw [← ended.2.1]
          exact ⟨sated, collect_quiet fed, fun done => absurd done unfinished⟩
  | waiting deadline =>
    simp only [turn] at ended
    split at ended
    · simp at ended
    · split at ended <;> simp at ended

theorem turns_settled (tuning : SlotTuning) (horizon : Int) (n : Nat) (phase : Phase)
    {s after : Slot} {clock later : Clock} {outcome : Advanced}
    (ended : turns tuning horizon n phase s clock = (some (.ok outcome), after, later)) :
    after.Settled horizon := by
  induction n generalizing phase s clock with
  | zero => simp [turns] at ended
  | succ n ih =>
    rw [turns] at ended
    split at ended
    · rename_i result middle between eq
      simp only [Prod.mk.injEq, Option.some.injEq] at ended
      obtain ⟨rfl, rfl, rfl⟩ := ended
      exact turn_settled tuning horizon phase eq
    · exact ih _ ended

theorem advance_settled (tuning : SlotTuning) (target : Int) {s after : Slot}
    {clock later : Clock} {outcome : Advanced}
    (reached : s.advance tuning target clock = (.ok outcome, after, later)) :
    after.Settled (target + tuning.lookahead) := by
  obtain ⟨running, reckons⟩ := advance_begun tuning reached
  rw [advance_opened tuning target s clock running reckons] at reached
  split at reached
  · rename_i result middle between eq
    simp only [Prod.mk.injEq] at reached
    obtain ⟨rfl, rfl, rfl⟩ := reached
    exact turns_settled tuning _ _ .feeding eq
  · simp at reached

theorem release_quiet {d : Decoder} (frames : Nat) (quiet : d.next = none) :
    (d.release frames).next = none := by
  unfold Decoder.next at quiet ⊢
  split at quiet
  · split at quiet
    · rename_i waits
      simp [Decoder.release, waits]
    · cases quiet
  · rename_i idle
    exact if_neg idle

theorem pick_settled {s : Slot} {horizon : Int} (target : Int) (h : s.Settled horizon) :
    (s.pick target).2.Settled horizon :=
  ⟨h.sated, release_quiet _ h.quiet, h.drained⟩

/-- Samples that the decoder still holds are fewer than it may hold back, and none are left
after the last sample. -/
theorem Settled.emitted_bounds {s : Slot} {horizon : Int} {depth : Nat} (h : s.Settled horizon)
    (window : s.Window) (sound : s.decoder.Sound depth) :
    s.cursor ≤ s.emitted + depth ∧ (s.feedEnd ≤ s.cursor → s.emitted = s.cursor) := by
  obtain ⟨few, all⟩ := Decoder.next_none sound h.quiet
  have since := window.since
  constructor
  · unfold emitted
    omega
  · intro done
    have empty := all (window.together.trans (h.drained done))
    simp [emitted, Decoder.pending, empty]

end Montage.Slot
