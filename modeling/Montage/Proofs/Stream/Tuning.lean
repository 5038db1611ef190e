import Montage.Proofs.Stream.Capacity
import Montage.Proofs.Stream.Settling
import Montage.Stream.Pipeline

/- What the settings make of a slot. They count in milliseconds that an unsigned word holds, a slot
   counts in microseconds that a signed one holds. The main result says with which settings that is no
   matter; with others a lookahead that was meant as no limit overflows, or comes out negative. -/
namespace Montage

theorem microsOfMillis_fits {ms : Nat} (fits : 1000 * (ms : Int) ≤ 9223372036854775807) :
    microsOfMillis ms = 1000 * ms := by
  rw [microsOfMillis, asSigned_fits ⟨by omega, by omega⟩]
  omega

/-- A word of milliseconds comes out as a number of microseconds, and not a negative one, exactly
when the right one has room. -/
theorem microsOfMillis_natural_iff {ms : Nat} (word : ms < twoTo 64) :
    Fits (microsOfMillis ms) ∧ 0 ≤ microsOfMillis ms ↔
      1000 * (ms : Int) ≤ 9223372036854775807 := by
  have size : twoTo 64 = 18446744073709551616 := by decide
  constructor
  · rintro ⟨fits, natural⟩
    obtain ⟨signed, turns, eq⟩ := asSigned_spec ms
    have high := fits.high
    have low := signed.low
    have top := signed.high
    rw [microsOfMillis] at high natural
    omega
  · intro short
    rw [microsOfMillis_fits short]
    exact ⟨⟨by omega, short⟩, by omega⟩

/-- No target of a render is farther from zero than this, in microseconds. -/
def day : Nat := 86400000000

namespace EngineConfig

def Expressible (c : EngineConfig) : Prop := ∃ text, (Config.parse text).render = c

/-- Settings whose times are words. -/
structure Worded (c : EngineConfig) : Prop where
  lookahead : c.lookaheadMs < twoTo 64
  tolerance : c.pickToleranceMs < twoTo 64

/-- Up to where an advance to a target feeds, if nothing overflows before it does. -/
def horizon? (c : EngineConfig) (target : Int) : Option Int :=
  if Fits c.lookahead ∧ Fits (target + c.lookahead) then some (target + c.lookahead) else none

/-- What settings are to give a slot: nothing below zero, and up to each target within a day no
less than that, nor than a shorter lookahead gives. -/
structure Tuned (c : EngineConfig) : Prop where
  timed : c.Timed
  ahead : 0 ≤ (slotTuning c).lookahead
  around : 0 ≤ (slotTuning c).tolerance
  onward : ∀ target : Int, target.natAbs ≤ day → ∃ end', c.horizon? target = some end' ∧ target ≤ end'
  ordered : ∀ less : EngineConfig, less.Worded → less.lookaheadMs ≤ c.lookaheadMs →
    ∀ target : Int, target.natAbs ≤ day →
      ∃ sooner later, less.horizon? target = some sooner ∧ c.horizon? target = some later ∧
        sooner ≤ later

/-- Nothing that a slot is given, or makes of it, is another number than the settings say. -/
structure Unwrapped (c : EngineConfig) : Prop where
  timed : c.Timed
  ahead : (slotTuning c).lookahead = 1000 * c.lookaheadMs
  around : (slotTuning c).tolerance = 1000 * c.pickToleranceMs
  reach : ∀ target : Int, target.natAbs ≤ day →
    c.horizon? target = some (target + 1000 * c.lookaheadMs)
  feeds : ∀ target : Int, target.natAbs ≤ day → ∀ {s after : Slot} {clock later : Clock}
    {outcome : Advanced}, s.advance (slotTuning c) target clock = (.ok outcome, after, later) →
      Slot.Moves (slotTuning c) (target + 1000 * c.lookaheadMs) (s.aimed target) after ∧
        after.wants (target + 1000 * c.lookaheadMs) = false
  opens : ∀ (table : List Sample) (reverse : Bool) (target : Int),
    0 < Sample.nominalDuration table →
      (Slot.Opens table reverse (slotTuning c) target ↔
        (∀ step ∈ Sample.measured table, Fits step) ∧
        (reverse = true ∨ 1000 * (c.lookaheadMs : Int) +
          max (1000 * c.pickToleranceMs : Int) (Sample.nominalDuration table) ≤
            9223372036854775807) ∧
        Slot.room table reverse (slotTuning c) < 18446744073709551616 ∧
        Fits (Sample.earliest table reverse target -
          max (1000 * c.pickToleranceMs : Int) (Sample.nominalDuration table)))
  holds : ∀ (table : List Sample) (reverse : Bool) (target : Int),
    0 < Sample.nominalDuration table → Slot.Opens table reverse (slotTuning c) target →
      (Slot.capacity table reverse (slotTuning c) : Int) = Slot.room table reverse (slotTuning c)

variable {c : EngineConfig}

/-- The lookahead of these settings, a day on, and their tolerance are words. -/
structure Short (c : EngineConfig) : Prop where
  ahead : 1000 * (c.lookaheadMs : Int) + day ≤ 9223372036854775807
  around : 1000 * (c.pickToleranceMs : Int) ≤ 9223372036854775807

theorem horizon?_of_short (ahead : 1000 * (c.lookaheadMs : Int) + day ≤ 9223372036854775807)
    {target : Int} (near : target.natAbs ≤ day) :
    c.horizon? target = some (target + 1000 * c.lookaheadMs) := by
  unfold day at ahead near
  have whole : c.lookahead = 1000 * c.lookaheadMs := microsOfMillis_fits (by omega)
  rw [horizon?, whole, if_pos ⟨⟨by omega, by omega⟩, ⟨by omega, by omega⟩⟩]

theorem horizon?_fits {target end' : Int} (reaches : c.horizon? target = some end') :
    Fits (target + c.lookahead) := by
  unfold horizon? at reaches
  split at reaches
  · rename_i fits
    exact fits.2
  · cases reaches

/-- Settings that tell both times as numbers not below zero, and reach a day, are short. -/
theorem short_of (words : c.Worded) (timed : c.Timed) (ahead : 0 ≤ c.lookahead)
    (around : 0 ≤ c.pickTolerance) {end' : Int} (reaches : c.horizon? day = some end') :
    c.Short := by
  have whole := (microsOfMillis_natural_iff words.lookahead).mp ⟨timed.1, ahead⟩
  have far := (horizon?_fits reaches).high
  rw [lookahead, microsOfMillis_fits whole] at far
  exact ⟨by omega, (microsOfMillis_natural_iff words.tolerance).mp ⟨timed.2, around⟩⟩

theorem Short.tuning (short : c.Short) : c.Timed ∧
    (slotTuning c).lookahead = 1000 * c.lookaheadMs ∧
    (slotTuning c).tolerance = 1000 * c.pickToleranceMs := by
  obtain ⟨ahead, around⟩ := short
  unfold day at ahead
  have lookahead : c.lookahead = 1000 * c.lookaheadMs := microsOfMillis_fits (by omega)
  have tolerance : c.pickTolerance = 1000 * c.pickToleranceMs := microsOfMillis_fits around
  refine ⟨⟨?_, ?_⟩, lookahead, tolerance⟩
  · rw [lookahead]
    exact ⟨by omega, by omega⟩
  · rw [tolerance]
    exact ⟨by omega, by omega⟩

theorem unwrapped_iff (words : c.Worded) : c.Unwrapped ↔ c.Short := by
  constructor
  · intro exact
    have ahead : 0 ≤ (slotTuning c).lookahead := by
      rw [exact.ahead]
      omega
    have around : 0 ≤ (slotTuning c).tolerance := by
      rw [exact.around]
      omega
    exact short_of words exact.timed ahead around (exact.reach day (le_refl day))
  · intro short
    obtain ⟨timed, ahead, around⟩ := short.tuning
    refine ⟨timed, ahead, around, fun target near => horizon?_of_short short.ahead near, ?_, ?_, ?_⟩
    · intro target near s after clock later outcome reached
      have settled := Slot.advance_settled (slotTuning c) target reached
      have moves := Slot.advance_moves (slotTuning c) target s clock
        (Slot.advance_begun (slotTuning c) reached).1
      rw [reached] at moves
      rw [← ahead]
      exact ⟨moves, settled.sated⟩
    · intro table reverse target positive
      rw [Slot.opens_iff (by omega) positive, Slot.window, ahead, around]
      have wide : Fits (1000 * (c.lookaheadMs : Int) +
          max (1000 * c.pickToleranceMs : Int) (Sample.nominalDuration table)) ↔
          1000 * (c.lookaheadMs : Int) +
            max (1000 * c.pickToleranceMs : Int) (Sample.nominalDuration table) ≤
              9223372036854775807 :=
        ⟨fun fits => fits.high, fun high => ⟨by omega, high⟩⟩
      rw [wide]
    · intro table reverse target positive opens
      refine Slot.capacity_eq_room (by omega) positive ?_
      exact ((Slot.opens_iff (by omega) positive).mp opens).2.1

theorem tuned_iff (words : c.Worded) : c.Tuned ↔ c.Short := by
  constructor
  · intro tuned
    obtain ⟨end', reaches, -⟩ := tuned.onward day (by simp)
    exact short_of words tuned.timed tuned.ahead tuned.around reaches
  · intro short
    obtain ⟨timed, ahead, around⟩ := short.tuning
    have far := short.ahead
    refine ⟨timed, by omega, by omega, ?_, ?_⟩
    · exact fun target near => ⟨_, horizon?_of_short far near, by omega⟩
    · intro less _ fewer target near
      exact ⟨_, _, horizon?_of_short (by omega) near, horizon?_of_short far near, by omega⟩

/-- The longest lookahead that is a word; its sum with a target is none a second into a source. -/
def patient : EngineConfig :=
  (Config.parse "\x7b\"render\": \x7b\"lookahead_ms\": 9223372036854775\x7d\x7d").render

def boundless : EngineConfig :=
  (Config.parse ("\x7b\"render\": \x7b\"lookahead_ms\": 18446744073709551615, " ++
    "\"pick_tolerance_ms\": 18446744073709551615\x7d\x7d")).render

end EngineConfig

/-- Settings give a slot what they are to give it, and nothing but the numbers that they say, exactly
if their lookahead, a day on, and their tolerance are words. -/
theorem slot_tuning_keeps_words_iff {c : EngineConfig} (words : c.Worded) :
    (c.Tuned ↔ 1000 * (c.lookaheadMs : Int) + day ≤ 9223372036854775807 ∧
      1000 * (c.pickToleranceMs : Int) ≤ 9223372036854775807) ∧
    (c.Unwrapped ↔ 1000 * (c.lookaheadMs : Int) + day ≤ 9223372036854775807 ∧
      1000 * (c.pickToleranceMs : Int) ≤ 9223372036854775807) := by
  have short : c.Short ↔ 1000 * (c.lookaheadMs : Int) + day ≤ 9223372036854775807 ∧
      1000 * (c.pickToleranceMs : Int) ≤ 9223372036854775807 :=
    ⟨fun h => ⟨h.ahead, h.around⟩, fun h => ⟨h.1, h.2⟩⟩
  exact ⟨(EngineConfig.tuned_iff words).trans short, (EngineConfig.unwrapped_iff words).trans short⟩

theorem slot_tuning_keeps_words_iff_standard :
    EngineConfig.standard.Worded ∧ EngineConfig.standard.Tuned ∧ EngineConfig.standard.Unwrapped := by
  have words : EngineConfig.standard.Worded := ⟨by decide, by decide⟩
  obtain ⟨tuned, unwrapped⟩ := slot_tuning_keeps_words_iff words
  exact ⟨words, tuned.mpr (by decide), unwrapped.mpr (by decide)⟩

/-- A lookahead that is a word overflows a second into a source, where the standard one reaches half a
second further; and the longest one that can be asked for comes out negative, with its tolerance. -/
theorem longest_lookaheads_lost :
    EngineConfig.patient.Expressible ∧ EngineConfig.patient.Timed ∧
      EngineConfig.standard.lookaheadMs ≤ EngineConfig.patient.lookaheadMs ∧
      EngineConfig.patient.horizon? 1000000 = none ∧
      EngineConfig.standard.horizon? 1000000 = some 1500000 ∧
      (∀ (s : Slot) (clock : Clock), s.closed = false →
        (s.advance (slotTuning EngineConfig.patient) 1000000 clock).1 = .error .overflow) ∧
      EngineConfig.boundless.Expressible ∧ EngineConfig.boundless.Timed ∧
      (slotTuning EngineConfig.boundless).lookahead = -1000 ∧
      (slotTuning EngineConfig.boundless).tolerance = -1000 := by
  have patient : EngineConfig.patient.lookahead = 9223372036854775000 := by decide
  have lookahead : EngineConfig.boundless.lookahead = -1000 := by decide
  have tolerance : EngineConfig.boundless.pickTolerance = -1000 := by decide
  refine ⟨⟨_, rfl⟩, by decide, by decide, by decide, by decide, ?_, ⟨_, rfl⟩, by decide, lookahead,
    tolerance⟩
  intro s clock running
  have overflows : ¬ s.Reckons (slotTuning EngineConfig.patient) 1000000 := by
    intro reckons
    have horizon : Fits (1000000 + EngineConfig.patient.lookahead) := reckons.horizon
    rw [patient] at horizon
    exact absurd horizon (by decide)
  rw [Slot.advance_overflow _ _ s clock running overflows]

end Montage
