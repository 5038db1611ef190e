import Mathlib.Order.Monotone.Basic
import Montage.Proofs.Stream.Intake
import Montage.Proofs.Stream.Settling

/- The turns of an advance, one after another. A feeding turn that goes on to feed has taken what
   was ready and finds the decoder with room; one that goes on to wait leaves a full decoder that
   has nothing to give. So a wait finds everything as it was left, and ends at its deadline. -/
namespace Montage

/-- A clock that moves on: no reading is before the one it follows, and each time is reached
within the looks that the clock tells. -/
structure Clock.Moving (c : Clock) : Prop where
  ordered : ∀ n, c.reading n ≤ c.reading (n + 1)
  reaches : ∀ time, time ≤ c.reading (c.looksUntil time)

section Clocks
variable {c : Clock}

theorem stepping_moving {step : Nat} (positive : 0 < step) : (Clock.stepping step).Moving where
  ordered := fun n => Nat.mul_le_mul_right step (Nat.le_succ n)
  reaches := by
    intro time
    have split := Nat.lt_div_mul_add positive (a := time)
    change time ≤ (time / step + 1) * step
    rw [Nat.add_mul, Nat.one_mul]
    exact split.le

theorem Clock.Moving.mono (moving : c.Moving) {m n : Nat} (order : m ≤ n) :
    c.reading m ≤ c.reading n :=
  monotone_nat_of_le_succ moving.ordered order

theorem Clock.Moving.looked (moving : c.Moving) (looks : Nat) : ({ c with looks } : Clock).Moving :=
  ⟨moving.ordered, moving.reaches⟩

end Clocks

namespace Slot

/-- What an advance does next, to which slot, and by which clock. -/
abbrev Stage := Phase × Slot × Clock

/-- The stage that follows a turn, unless the turn ends the advance. -/
def goesOn (tuning : SlotTuning) (horizon : Int) (now : Stage) : Option Stage :=
  match turn tuning horizon now.1 now.2.1 now.2.2 with
  | (.more phase, rest) => some (phase, rest)
  | (.ended _, _) => none

/-- Where an advance is after so many turns, unless it has ended by then. -/
def stage (tuning : SlotTuning) (horizon : Int) (first : Stage) : Nat → Option Stage
  | 0 => some first
  | n + 1 => (stage tuning horizon first n).bind (goesOn tuning horizon)

/-- After so many turns an advance is at its last one, with this result. -/
def EndsAfter (tuning : SlotTuning) (horizon : Int) (first : Stage) (n : Nat)
    (result : Except DecodeFault Advanced) (rest : Slot × Clock) : Prop :=
  ∃ last, stage tuning horizon first n = some last ∧
    turn tuning horizon last.1 last.2.1 last.2.2 = (.ended result, rest)

section Stages
variable {tuning : SlotTuning} {horizon : Int} {first last next : Stage} {n : Nat}
  {result : Except DecodeFault Advanced} {rest : Slot × Clock}

theorem stage_front (n : Nat) :
    stage tuning horizon first (n + 1) =
      (goesOn tuning horizon first).bind fun next => stage tuning horizon next n := by
  induction n with
  | zero => simp [stage]
  | succ n ih =>
    rw [stage, ih, Option.bind_assoc]
    rfl

theorem endsAfter_front (more : goesOn tuning horizon first = some next)
    (ends : EndsAfter tuning horizon next n result rest) :
    EndsAfter tuning horizon first (n + 1) result rest := by
  obtain ⟨last, at_last, ended⟩ := ends
  exact ⟨last, by rw [stage_front, more]; exact at_last, ended⟩

/-- Turns that suffice give the result of the last one. -/
theorem turns_end (ends : EndsAfter tuning horizon first n result rest) {fuel : Nat}
    (enough : n < fuel) :
    turns tuning horizon fuel first.1 first.2.1 first.2.2 = (some result, rest) := by
  induction n generalizing first fuel with
  | zero =>
    obtain ⟨last, same, ended⟩ := ends
    cases same
    obtain ⟨fuel, rfl⟩ := Nat.exists_eq_succ_of_ne_zero (Nat.ne_of_gt enough)
    rw [turns, ended]
  | succ n ih =>
    obtain ⟨last, at_last, ended⟩ := ends
    obtain ⟨fuel, rfl⟩ := Nat.exists_eq_succ_of_ne_zero (Nat.ne_of_gt (Nat.zero_lt_of_lt enough))
    rw [stage_front] at at_last
    obtain ⟨next, more, at_next⟩ := Option.bind_eq_some_iff.mp at_last
    rw [turns]
    unfold goesOn at more
    split at more
    · rename_i phase rest' eq
      cases more
      rw [eq]
      exact ih ⟨last, at_next, ended⟩ (Nat.lt_of_succ_lt_succ enough)
    · cases more

end Stages

/-- What a feeding turn can come to. -/
inductive FeedingTurn (tuning : SlotTuning) (horizon : Int) (s : Slot) (clock : Clock) :
    Turn × Slot × Clock → Prop where
  | refused {e : DecodeFault} {fed : Slot}
      (feeds : s.feed horizon (max tuning.depth 1) = (.error e, fed)) :
      FeedingTurn tuning horizon s clock (.ended (.error e), fed, clock)
  | again {fed : Slot} (feeds : s.feed horizon (max tuning.depth 1) = (.ok (), fed))
      (wanted : fed.collect.wants horizon = true)
      (room : fed.collect.decoder.pending < max tuning.depth 1) :
      FeedingTurn tuning horizon s clock (.more .feeding, fed.collect, clock)
  | waits {fed : Slot} (feeds : s.feed horizon (max tuning.depth 1) = (.ok (), fed))
      (wanted : fed.collect.wants horizon = true)
      (full : max tuning.depth 1 ≤ fed.collect.decoder.pending) :
      FeedingTurn tuning horizon s clock
        (.more (.waiting ⟨clock.reading clock.looks + tuning.stallTimeout⟩), fed.collect,
          { clock with looks := clock.looks + 1 })
  | drained {fed : Slot} {outcome : Advanced}
      (feeds : s.feed horizon (max tuning.depth 1) = (.ok (), fed))
      (sated : fed.collect.wants horizon = false)
      (ends : fed.collect.feedEnd ≤ fed.collect.cursor) :
      FeedingTurn tuning horizon s clock (.ended (.ok outcome), fed.collect.drain, clock)
  | satisfied {fed : Slot} (feeds : s.feed horizon (max tuning.depth 1) = (.ok (), fed))
      (sated : fed.collect.wants horizon = false)
      (unfinished : fed.collect.cursor < fed.collect.feedEnd) :
      FeedingTurn tuning horizon s clock (.ended (.ok .satisfied), fed.collect, clock)

section Turns
variable (tuning : SlotTuning) (horizon : Int) {s fed after : Slot} {clock later : Clock}

theorem feeding_turn_cases (s : Slot) (clock : Clock) :
    FeedingTurn tuning horizon s clock (turn tuning horizon .feeding s clock) := by
  simp only [turn]
  split
  · rename_i feeds
    exact .refused feeds
  · rename_i feeds
    split
    · rename_i wanted
      split
      · rename_i room
        exact .again feeds wanted room
      · rename_i full
        exact .waits feeds wanted (Nat.not_lt.mp full)
    · rename_i sated
      have sated := Bool.eq_false_iff.mpr sated
      split
      · rename_i ends
        exact .drained feeds sated ends
      · rename_i unfinished
        exact .satisfied feeds sated (Nat.not_le.mp unfinished)

/-- Feeding that something is wanted for, and room, hands the next sample over. -/
theorem feed_hands (wanted : s.wants horizon = true)
    (room : s.decoder.pending < max tuning.depth 1) :
    ∃ x, s.table[s.cursor]? = some x ∧
      ((∃ e, s.decoder.decode x = .error e ∧ s.feed horizon (max tuning.depth 1) = (.error e, s)) ∨
        (∃ d, s.decoder.decode x = .ok d) ∧
          s.cursor < (s.feed horizon (max tuning.depth 1)).2.cursor) := by
  obtain ⟨inside, x, stands, -⟩ := wants_spec wanted
  refine ⟨x, stands, ?_⟩
  obtain ⟨n, count⟩ := Nat.exists_eq_succ_of_ne_zero (Nat.sub_ne_zero_of_lt inside)
  rw [← table_get] at stands
  cases taken : s.decoder.decode x with
  | error e => exact .inl ⟨e, rfl, by simp [feed, count, feedUpTo, wanted, room, stands, taken]⟩
  | ok d =>
    have feeds : s.feed horizon (max tuning.depth 1) =
        feedUpTo horizon (max tuning.depth 1) n
          { s with decoder := d, cursor := s.cursor + 1 } := by
      simp [feed, count, feedUpTo, wanted, room, stands, taken]
    have moves := feedUpTo_moves tuning horizon n { s with decoder := d, cursor := s.cursor + 1 }
    obtain ⟨xs, takes⟩ := moves_take moves
    rw [feeds]
    exact .inr ⟨⟨d, rfl⟩, (takes.extends (le_refl _)).1⟩

/-- A feeding that stops with an error had room, and was refused the sample at the cursor. -/
theorem feedUpTo_refused {limit n : Nat} {e : DecodeFault}
    (feeds : feedUpTo horizon limit n s = (.error e, after)) :
    after.decoder.pending < limit ∧
      ∃ x, after.table[after.cursor]? = some x ∧ after.decoder.decode x = .error e := by
  induction n generalizing s with
  | zero => simp [feedUpTo] at feeds
  | succ n ih =>
    rw [feedUpTo] at feeds
    split at feeds
    · rename_i go
      simp only [Bool.and_eq_true, decide_eq_true_eq] at go
      split at feeds
      · simp at feeds
      · rename_i x stands
        rw [table_get] at stands
        split at feeds
        · rename_i refused
          simp only [Prod.mk.injEq, Except.error.injEq] at feeds
          obtain ⟨rfl, rfl⟩ := feeds
          exact ⟨go.2, x, stands, refused⟩
        · exact ih feeds
    · simp at feeds

theorem collect_idle (quiet : s.decoder.next = none) : s.collect = s := by
  unfold collect
  cases s.decoder.pending with
  | zero => rfl
  | succ n => rw [collectUpTo, quiet]

/-- A wait for a full decoder that gives nothing goes on until its deadline. -/
theorem waiting_turn (deadline : Deadline) (clock : Clock) (quiet : s.decoder.next = none)
    (full : max tuning.depth 1 ≤ s.decoder.pending) :
    turn tuning horizon (.waiting deadline) s clock =
      (if deadline.limit ≤ clock.reading clock.looks then
          .ended (.error (.stalled s.clip s.decoder.pending))
        else .more (.waiting deadline),
        s, { clock with looks := clock.looks + 1 }) := by
  simp only [turn, collect_idle quiet, Nat.not_lt.mpr full, if_false, Deadline.expired, Clock.look]
  by_cases reached : deadline.limit ≤ clock.reading clock.looks
  · simp [reached]
  · simp [reached]

end Turns

end Slot
end Montage
