import Montage.Proofs.Stream.Calls
import Montage.Proofs.Stream.Turning

/- Every advance ends. Its turns feed, each of them a sample, until they end it or leave a full
   decoder that gives nothing; then they wait, and the first look at the clock that sees the
   deadline ends it. -/
namespace Montage.Slot

section Wait
variable {tuning : SlotTuning} {horizon : Int} {first s : Slot} {clock : Clock}

/-- A wait that began after one turn and goes on after another. Each poll of it finds the same
slot, as full as it was left, with nothing to give and more to feed, and those before the last
were early. -/
structure Waits (tuning : SlotTuning) (horizon : Int) (first : Slot) (clock : Clock)
    (begun n : Nat) (held : Slot) : Prop where
  fed : ∃ s, stage tuning horizon (.feeding, first, clock) begun = some (.feeding, s, clock)
  polls : ∀ i, begun < i → i ≤ n → stage tuning horizon (.feeding, first, clock) i =
    some (.waiting ⟨clock.reading clock.looks + tuning.stallTimeout⟩, held,
      { clock with looks := clock.looks + (i - begun) })
  early : ∀ i, begun < i → i < n →
    clock.reading (clock.looks + (i - begun)) < clock.reading clock.looks + tuning.stallTimeout
  wanted : held.wants horizon = true
  full : max tuning.depth 1 ≤ held.decoder.pending
  quiet : held.decoder.next = none

/-- Something to feed, and room for it. -/
def Hungry (tuning : SlotTuning) (horizon : Int) (s : Slot) : Prop :=
  s.wants horizon = true ∧ s.decoder.pending < max tuning.depth 1

/-- A feeding turn that goes on took what was ready, and feeds again or begins to wait. -/
theorem feeding_goesOn {now : Stage}
    (more : goesOn tuning horizon (.feeding, s, clock) = some now) :
    ∃ fed, s.feed horizon (max tuning.depth 1) = (.ok (), fed) ∧
      (fed.collect.Hungry tuning horizon ∧ now = (.feeding, fed.collect, clock) ∨
        fed.collect.wants horizon = true ∧ max tuning.depth 1 ≤ fed.collect.decoder.pending ∧
          now = (.waiting ⟨clock.reading clock.looks + tuning.stallTimeout⟩, fed.collect,
            { clock with looks := clock.looks + 1 })) := by
  have turned := feeding_turn_cases tuning horizon s clock
  unfold goesOn at more
  generalize turn tuning horizon .feeding s clock = outcome at *
  cases turned with
  | refused feeds => cases more
  | drained feeds sated ends => cases more
  | satisfied feeds sated unfinished => cases more
  | again feeds wanted room =>
    cases more
    exact ⟨_, feeds, .inl ⟨⟨wanted, room⟩, rfl⟩⟩
  | waits feeds wanted full =>
    cases more
    exact ⟨_, feeds, .inr ⟨wanted, full, rfl⟩⟩

theorem Waits.last {begun n : Nat} {held : Slot} {now : Stage}
    (waits : Waits tuning horizon first clock begun n held) (before : begun < n)
    (at_n : stage tuning horizon (.feeding, first, clock) n = some now) :
    now = (.waiting ⟨clock.reading clock.looks + tuning.stallTimeout⟩, held,
      { clock with looks := clock.looks + (n - begun) }) :=
  Option.some.inj (at_n.symm.trans (waits.polls n before (le_refl _)))

/-- Feeding does not look at the clock, and what waits once waits to the end. -/
theorem stage_cases {n : Nat} {now : Stage}
    (at_n : stage tuning horizon (.feeding, first, clock) n = some now) :
    (∃ s, now = (.feeding, s, clock)) ∨
      ∃ begun held, begun < n ∧ Waits tuning horizon first clock begun n held := by
  induction n generalizing now with
  | zero =>
    cases at_n
    exact .inl ⟨first, rfl⟩
  | succ n ih =>
    have step := at_n
    rw [stage] at step
    obtain ⟨prev, at_prev, more⟩ := Option.bind_eq_some_iff.mp step
    rcases ih at_prev with ⟨s, rfl⟩ | ⟨begun, held, before, waits⟩
    · obtain ⟨fed, -, ⟨-, rfl⟩ | ⟨wanted, full, rfl⟩⟩ := feeding_goesOn more
      · exact .inl ⟨_, rfl⟩
      · refine .inr ⟨n, _, Nat.lt_succ_self n,
          ⟨⟨s, at_prev⟩, ?_, ?_, wanted, full, collect_quiet _⟩⟩
        · intro i late early
          have same : i = n + 1 := by omega
          subst same
          rw [at_n, Nat.add_sub_cancel_left]
        · intro i late early
          omega
    · rw [waits.last before at_prev] at more
      unfold goesOn at more
      simp only [waiting_turn tuning horizon _ _ waits.quiet waits.full] at more
      by_cases reached : clock.reading clock.looks + tuning.stallTimeout ≤
          clock.reading (clock.looks + (n - begun))
      · simp [reached] at more
      · simp only [reached, if_false, Option.some.injEq] at more
        subst more
        refine .inr ⟨begun, held, by omega,
          ⟨waits.fed, ?_, ?_, waits.wanted, waits.full, waits.quiet⟩⟩
        · intro i late early
          rcases Nat.lt_or_eq_of_le early with early | rfl
          · exact waits.polls i late (by omega)
          · rw [at_n, Nat.add_assoc, ← Nat.sub_add_comm before.le]
        · intro i late early
          rcases Nat.lt_or_eq_of_le (Nat.le_of_lt_succ early) with early | rfl
          · exact waits.early i late early
          · exact Nat.not_le.mp reached

/-- How an advance can end: with all that it wanted fed and all that was ready taken, with a
sample refused that there was room for, or at the deadline of a wait. -/
theorem ends_cases {n : Nat} {result : Except DecodeFault Advanced} {after : Slot} {later : Clock}
    (ends : EndsAfter tuning horizon (.feeding, first, clock) n result (after, later)) :
    (∃ outcome, result = .ok outcome ∧ after.decoder.next = none ∧ later = clock) ∨
      (∃ e x, result = .error e ∧ after.table[after.cursor]? = some x ∧
        after.decoder.decode x = .error e ∧ after.decoder.pending < max tuning.depth 1 ∧
        later = clock) ∨
      ∃ begun, begun < n ∧ Waits tuning horizon first clock begun n after ∧
        result = .error (.stalled after.clip after.decoder.pending) ∧
        clock.reading clock.looks + tuning.stallTimeout ≤
          clock.reading (clock.looks + (n - begun)) ∧
        later = { clock with looks := clock.looks + (n - begun) + 1 } := by
  obtain ⟨last, at_last, ended⟩ := ends
  rcases stage_cases at_last with ⟨s, rfl⟩ | ⟨begun, held, before, waits⟩
  · have turned := feeding_turn_cases tuning horizon s clock
    rw [ended] at turned
    cases turned with
    | refused feeds =>
      obtain ⟨room, x, stands, refused⟩ := feedUpTo_refused horizon feeds
      exact .inr (.inl ⟨_, x, rfl, stands, refused, room, rfl⟩)
    | drained feeds sated ends => exact .inl ⟨_, rfl, collect_quiet _, rfl⟩
    | satisfied feeds sated unfinished => exact .inl ⟨_, rfl, collect_quiet _, rfl⟩
  · rw [waits.last before at_last, waiting_turn tuning horizon _ _ waits.quiet waits.full] at ended
    simp only [Prod.mk.injEq] at ended
    obtain ⟨reached, rfl, rfl⟩ := ended
    split at reached
    · rename_i late
      cases reached
      exact .inr (.inr ⟨begun, before, waits, rfl, late, rfl⟩)
    · cases reached

/-- A wait ends within the looks until its deadline. -/
theorem wait_ends (horizon : Int) (moving : clock.Moving) (deadline : Deadline)
    (quiet : s.decoder.next = none) (full : max tuning.depth 1 ≤ s.decoder.pending) :
    ∃ n rest, EndsAfter tuning horizon (.waiting deadline, s, clock) n
        (.error (.stalled s.clip s.decoder.pending)) rest ∧
      n ≤ clock.looksUntil deadline.limit - clock.looks := by
  have turned := waiting_turn tuning horizon deadline clock quiet full
  induction left : clock.looksUntil deadline.limit - clock.looks generalizing clock with
  | zero =>
    have reached : deadline.limit ≤ clock.reading clock.looks :=
      (moving.reaches deadline.limit).trans (moving.mono (by omega))
    rw [if_pos reached] at turned
    exact ⟨0, _, ⟨_, rfl, turned⟩, le_refl _⟩
  | succ left ih =>
    by_cases reached : deadline.limit ≤ clock.reading clock.looks
    · rw [if_pos reached] at turned
      exact ⟨0, _, ⟨_, rfl, turned⟩, Nat.zero_le _⟩
    · rw [if_neg reached] at turned
      obtain ⟨n, rest, ends, few⟩ := ih (moving.looked (clock.looks + 1))
        (waiting_turn tuning horizon deadline _ quiet full) (by dsimp only; omega)
      refine ⟨n + 1, rest, endsAfter_front ?_ ends, Nat.succ_le_succ few⟩
      simp [goesOn, turned]

theorem feed_moves {result : Except DecodeFault Unit} {fed : Slot}
    (feeds : s.feed horizon (max tuning.depth 1) = (result, fed)) : Moves tuning horizon s fed := by
  have moves := feedUpTo_moves tuning horizon (s.feedEnd - s.cursor) s
  unfold feed at feeds
  rwa [feeds] at moves

/-- Feeding that goes on from something to feed, with room, has moved the cursor. -/
theorem hungry_feeds {fed : Slot} (hungry : s.Hungry tuning horizon)
    (feeds : s.feed horizon (max tuning.depth 1) = (.ok (), fed)) :
    s.cursor < fed.collect.cursor := by
  obtain ⟨x, -, ⟨e, -, refused⟩ | ⟨-, further⟩⟩ := feed_hands tuning horizon hungry.1 hungry.2
  · rw [refused] at feeds
    cases feeds
  · rw [feeds] at further
    rw [collect_fields]
    exact further

/-- A feeding turn goes on to feed, or the advance ends within one wait. -/
theorem feeding_turn_ends (tuning : SlotTuning) (horizon : Int) (moving : clock.Moving) (s : Slot) :
    (∃ fed, s.feed horizon (max tuning.depth 1) = (.ok (), fed) ∧
        fed.collect.Hungry tuning horizon ∧
        goesOn tuning horizon (.feeding, s, clock) = some (.feeding, fed.collect, clock)) ∨
      ∃ n result rest, EndsAfter tuning horizon (.feeding, s, clock) n result rest ∧
        n ≤ clock.looksUntil (clock.reading clock.looks + tuning.stallTimeout) + 1 := by
  have turned := feeding_turn_cases tuning horizon s clock
  generalize outcome : turn tuning horizon .feeding s clock = o at turned
  cases turned with
  | refused feeds => exact .inr ⟨0, _, _, ⟨_, rfl, outcome⟩, Nat.zero_le _⟩
  | drained feeds sated ends => exact .inr ⟨0, _, _, ⟨_, rfl, outcome⟩, Nat.zero_le _⟩
  | satisfied feeds sated unfinished => exact .inr ⟨0, _, _, ⟨_, rfl, outcome⟩, Nat.zero_le _⟩
  | again feeds wanted room =>
    exact .inl ⟨_, feeds, ⟨wanted, room⟩, by simp [goesOn, outcome]⟩
  | waits feeds wanted full =>
    obtain ⟨n, rest, ends, few⟩ := wait_ends horizon (moving.looked (clock.looks + 1))
      ⟨clock.reading clock.looks + tuning.stallTimeout⟩ (collect_quiet _) full
    refine .inr ⟨n + 1, _, rest, endsAfter_front (by simp [goesOn, outcome]) ends, ?_⟩
    exact Nat.succ_le_succ (few.trans (Nat.sub_le _ _))

/-- With each turn that goes on to feed there is less of the table left. -/
theorem hungry_ends (moving : clock.Moving) {s : Slot} (hungry : s.Hungry tuning horizon) :
    ∃ n result rest, EndsAfter tuning horizon (.feeding, s, clock) n result rest ∧
      n + s.cursor ≤ s.table.length +
        clock.looksUntil (clock.reading clock.looks + tuning.stallTimeout) + 1 := by
  induction left : s.table.length - s.cursor using Nat.strong_induction_on generalizing s with
  | h left ih =>
    obtain ⟨-, x, stands, -⟩ := wants_spec hungry.1
    have inside := (List.getElem?_eq_some_iff.mp stands).1
    rcases feeding_turn_ends tuning horizon moving s with
      ⟨fed, feeds, still, more⟩ | ⟨n, result, rest, ends, few⟩
    · have further := hungry_feeds hungry feeds
      have same := moves_table ((feed_moves feeds).trans (collect_moves tuning horizon fed))
      obtain ⟨n, result, rest, ends, few⟩ := ih _ (by rw [same]; omega) still rfl
      rw [same] at few
      exact ⟨n + 1, result, rest, endsAfter_front more ends, by omega⟩
    · exact ⟨n, result, rest, ends, by omega⟩

/-- An advance ends after at most one turn for each sample and one wait. -/
theorem feeding_ends (tuning : SlotTuning) (horizon : Int) (moving : clock.Moving) (s : Slot) :
    ∃ n result rest, EndsAfter tuning horizon (.feeding, s, clock) n result rest ∧
      n ≤ s.table.length +
        clock.looksUntil (clock.reading clock.looks + tuning.stallTimeout) + 2 := by
  rcases feeding_turn_ends tuning horizon moving s with
    ⟨fed, feeds, hungry, more⟩ | ⟨n, result, rest, ends, few⟩
  · have same := moves_table ((feed_moves feeds).trans (collect_moves tuning horizon fed))
    obtain ⟨n, result, rest, ends, few⟩ := hungry_ends moving hungry
    rw [same] at few
    exact ⟨n + 1, result, rest, endsAfter_front more ends, by omega⟩
  · exact ⟨n, result, rest, ends, by omega⟩

end Wait

/-- Every advance of an open slot in which nothing overflows is a finite run of turns. -/
theorem advance_ends (tuning : SlotTuning) (target : Int) {s : Slot} {clock : Clock}
    (moving : clock.Moving) (running : s.closed = false) (reckons : s.Reckons tuning target) :
    ∃ n, EndsAfter tuning (target + tuning.lookahead)
        (.feeding, s.aimed target, clock) n (s.advance tuning target clock).1
        (s.advance tuning target clock).2 ∧
      n ≤ s.table.length +
        clock.looksUntil (clock.reading clock.looks + tuning.stallTimeout) + 2 := by
  obtain ⟨n, result, rest, ends, few⟩ := feeding_ends tuning
    (target + tuning.lookahead) moving (s.aimed target)
  have same : (s.aimed target).table = s.table := by
    unfold aimed
    split <;> rfl
  have enough : n < patience tuning (s.aimed target) clock := by
    rw [patience, ← table_length]
    omega
  have all := turns_end ends enough
  rw [advance_opened tuning target s clock running reckons, all]
  rw [same] at few
  exact ⟨n, ends, few⟩

theorem advance_moving {tuning : SlotTuning} {s : Slot} {clock : Clock} (target : Int)
    (moving : clock.Moving) : (s.advance tuning target clock).2.2.Moving := by
  cases running : s.closed with
  | true =>
    rw [advance_closed tuning target s clock running]
    exact moving
  | false =>
    by_cases reckons : s.Reckons tuning target
    · obtain ⟨n, ends, -⟩ := advance_ends tuning target moving running reckons
      rcases ends_cases ends with
        ⟨_, -, -, later⟩ | ⟨_, _, -, -, -, -, later⟩ | ⟨_, -, -, -, -, later⟩
      · rwa [later]
      · rwa [later]
      · rw [later]
        exact moving.looked _
    · rw [advance_overflow tuning target s clock running reckons]
      exact moving

theorem played_moving {tuning : SlotTuning} (calls : List Call) {s : Slot} {clock : Clock}
    (moving : clock.Moving) : (played tuning calls (s, clock)).2.Moving := by
  induction calls generalizing s clock with
  | nil => exact moving
  | cons call calls ih =>
    cases call with
    | advance target => exact ih (advance_moving target moving)
    | pick target => exact ih moving
    | close => exact ih moving

end Montage.Slot
