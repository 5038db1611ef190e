import Montage.Proofs.Stream.Calls

/- Advances that succeed. A decoder that refuses no sample and holds back fewer frames than may
   be pending never makes an advance wait: each turn that goes on has fed a sample. -/
namespace Montage.Slot

structure Feedable (depth : Nat) (s : Slot) : Prop where
  opened : s.closed = false
  sound : s.decoder.Sound depth
  whole : ∀ x ∈ s.table, x.payload.length = 8 ∧ s.decoder.corrupt ≠ some (ofLowBytes x.payload)
  keyed : s.decoder.needsKeyframe = true → ∃ x, s.table[s.cursor]? = some x ∧ x.keyframe = true

theorem decode_succeeds {d : Decoder} {x : Sample} (opened : d.closed = false)
    (keyed : d.needsKeyframe = true → x.keyframe = true) (whole : x.payload.length = 8)
    (intact : d.corrupt ≠ some (ofLowBytes x.payload)) : ∃ after, d.decode x = .ok after := by
  have ready : (d.needsKeyframe && !x.keyframe) = false := by
    cases needs : d.needsKeyframe with
    | false => rfl
    | true => simp [keyed needs]
  simp [Decoder.decode, opened, ready, Decoder.frameIndex, whole, intact, bind, Except.bind]

theorem Feedable.takes {s : Slot} {depth : Nat} {x : Sample} (h : s.Feedable depth)
    (next : s.samples[s.cursor]? = some x) : ∃ d, s.decoder.decode x = .ok d := by
  rw [table_get] at next
  obtain ⟨whole, intact⟩ := h.whole x (List.mem_of_getElem? next)
  refine decode_succeeds h.sound.opened ?_ whole intact
  intro needs
  obtain ⟨y, stands, keyframe⟩ := h.keyed needs
  rw [next] at stands
  cases stands
  exact keyframe

theorem move_feedable {tuning : SlotTuning} {horizon : Int} {s after : Slot} {depth : Nat}
    (step : Move tuning horizon s after) (h : s.Feedable depth) : after.Feedable depth := by
  have sound := move_sound step h.sound
  cases step with
  | feed wanted room next taken =>
    rw [Decoder.decode_fields taken] at sound ⊢
    exact ⟨h.opened, sound, h.whole, by simp⟩
  | arrive given =>
    obtain ⟨timestamp, index, rest, -, -, rfl⟩ := Decoder.next_fields given
    rw [receive_fields] at sound ⊢
    exact ⟨h.opened, sound, h.whole, h.keyed⟩
  | flush fed first => exact ⟨h.opened, sound, h.whole, h.keyed⟩

theorem position_feedable {s : Slot} {depth : Nat} (target : Int) (opened : s.closed = false)
    (sound : s.decoder.Sound depth)
    (whole : ∀ x ∈ s.table, x.payload.length = 8 ∧ s.decoder.corrupt ≠ some (ofLowBytes x.payload))
    (keyframes : Sample.keyframes s.table ≠ []) : (s.position target).Feedable depth where
  opened := opened
  sound := sound
  whole := whole
  keyed := fun _ => Sample.mem_keyframes.mp (Sample.keyframeAtOrBefore_mem target keyframes)

theorem start_feedable (clip : String) {table : List Sample} {d : Decoder} {depth : Nat}
    (reverse : Bool) (tuning : SlotTuning) (target : Int) (sound : d.Sound depth)
    (intact : d.corrupt = none) (whole : ∀ x ∈ table, x.payload.length = 8)
    (keyframes : Sample.keyframes table ≠ []) :
    (start clip table d reverse tuning target).Feedable depth := by
  refine position_feedable target rfl sound ?_ keyframes
  intro x member
  refine ⟨whole x member, ?_⟩
  change d.corrupt ≠ _
  rw [intact]
  simp

theorem seek_feedable {s : Slot} {depth : Nat} (target : Int) (h : s.Feedable depth)
    (keyframes : Sample.keyframes s.table ≠ []) : (s.seek target).Feedable depth :=
  position_feedable target h.opened ⟨h.sound.opened, h.sound.alive, h.sound.holds⟩ h.whole keyframes

theorem pick_feedable {s : Slot} {depth : Nat} (target : Int) (h : s.Feedable depth) :
    (s.pick target).2.Feedable depth :=
  ⟨h.opened, ⟨h.sound.opened, h.sound.alive, h.sound.holds⟩, h.whole, h.keyed⟩

section Loop
variable (tuning : SlotTuning) (horizon : Int) {depth : Nat}

/-- Feeding stops when nothing more is wanted, when the decoder is full, or when as many
samples were fed as there were to be. -/
theorem feedUpTo_spec (limit n : Nat) {s : Slot} (h : s.Feedable depth) :
    ∃ after, feedUpTo horizon limit n s = (.ok (), after) ∧
      after.feedEnd = s.feedEnd ∧ s.cursor ≤ after.cursor ∧
      after.decoder.pending + s.cursor = s.decoder.pending + after.cursor ∧
      (after.wants horizon = false ∨ limit ≤ after.decoder.pending ∨ s.cursor + n ≤ after.cursor) := by
  induction n generalizing s with
  | zero => exact ⟨s, rfl, rfl, le_refl _, rfl, .inr (.inr (le_refl _))⟩
  | succ n ih =>
    rw [feedUpTo]
    by_cases wanted : s.wants horizon = true
    · by_cases room : s.decoder.pending < limit
      · obtain ⟨-, x, stands, -⟩ := wants_spec wanted
        rw [← table_get] at stands
        obtain ⟨d, taken⟩ := h.takes stands
        have again : ({ s with decoder := d, cursor := s.cursor + 1 } : Slot).Feedable depth := by
          rw [Decoder.decode_fields taken]
          exact ⟨h.opened, ⟨h.sound.opened, h.sound.alive, h.sound.holds⟩, h.whole, by simp⟩
        obtain ⟨after, eq, ends, later, balance, stop⟩ := ih again
        have more : d.pending = s.decoder.pending + 1 := by
          rw [Decoder.decode_fields taken]
          simp [Decoder.pending]
        dsimp only at ends later balance stop
        refine ⟨after, ?_, ends, by omega, by omega, ?_⟩
        · simp [wanted, room, stands, taken, eq]
        · rcases stop with sated | full | count
          · exact .inl sated
          · exact .inr (.inl full)
          · exact .inr (.inr (by omega))
      · exact ⟨s, by simp [room], rfl, le_refl _, rfl, .inr (.inl (Nat.not_lt.mp room))⟩
    · have sated : s.wants horizon = false := by simpa using wanted
      exact ⟨s, by simp [sated], rfl, le_refl _, rfl, .inl sated⟩

theorem wants_fields {s after : Slot} (same : after = { s with
    decoder := after.decoder, queue := after.queue }) : after.wants horizon = s.wants horizon := by
  rw [same]
  rfl

/-- A feeding turn ends the advance, or leaves room in the decoder, having fed a sample if
there was room before. -/
theorem feeding_turn {s : Slot} (h : s.Feedable depth) (deep : depth < max tuning.depth 1)
    (clock : Clock) :
    (∃ outcome after, turn tuning horizon .feeding s clock = (.ended (.ok outcome), after, clock)) ∨
    ∃ after, turn tuning horizon .feeding s clock = (.more .feeding, after, clock) ∧
      after.Feedable depth ∧ after.decoder.pending < max tuning.depth 1 ∧
      after.feedEnd = s.feedEnd ∧ s.cursor ≤ after.cursor ∧ after.cursor < s.feedEnd ∧
      (s.decoder.pending < max tuning.depth 1 → s.cursor < after.cursor) := by
  obtain ⟨fed, eq, ends, later, balance, stop⟩ :=
    feedUpTo_spec horizon (max tuning.depth 1) (s.feedEnd - s.cursor) h
  have feedable : fed.collect.Feedable depth := by
    have steps := feedUpTo_moves tuning horizon (s.feedEnd - s.cursor) s
    rw [eq] at steps
    exact moves_keep _ move_feedable (steps.trans (collect_moves tuning horizon fed)) h
  have few := (Decoder.next_none feedable.sound (collect_quiet fed)).1
  have fields := collect_fields fed
  have room : fed.collect.decoder.pending < max tuning.depth 1 := by omega
  have run : turn tuning horizon .feeding s clock =
      if fed.collect.wants horizon then (.more .feeding, fed.collect, clock)
      else if fed.collect.feedEnd ≤ fed.collect.cursor then
        (.ended (.ok (if fed.collect.samples.size ≤ fed.collect.feedEnd then .exhausted else .satisfied)),
          fed.collect.drain, clock)
      else (.ended (.ok .satisfied), fed.collect, clock) := by
    simp only [turn, feed, eq, room, if_true]
  rw [run]
  by_cases wanted : fed.collect.wants horizon = true
  · right
    rw [if_pos wanted]
    have same : fed.collect.cursor = fed.cursor := by rw [fields]
    have before : fed.wants horizon = true := (wants_fields horizon fields).symm.trans wanted
    have inside := (wants_spec before).1
    refine ⟨fed.collect, rfl, feedable, room, ?_, ?_, ?_, ?_⟩
    · rw [fields]
      exact ends
    · rw [same]
      exact later
    · rw [same]
      omega
    · intro roomy
      rw [same]
      rcases stop with sated | full | count
      · rw [before] at sated
        cases sated
      · omega
      · omega
  · left
    rw [if_neg wanted]
    split
    · exact ⟨_, _, rfl⟩
    · exact ⟨_, _, rfl⟩

theorem turns_succeed (n : Nat) {s : Slot} (h : s.Feedable depth)
    (deep : depth < max tuning.depth 1) (clock : Clock)
    (room : s.decoder.pending < max tuning.depth 1) (enough : s.feedEnd - s.cursor < n) :
    ∃ outcome after, turns tuning horizon n .feeding s clock = (some (.ok outcome), after, clock) := by
  induction n generalizing s with
  | zero => omega
  | succ n ih =>
    rcases feeding_turn tuning horizon h deep clock with
      ⟨outcome, after, eq⟩ | ⟨after, eq, feedable, roomy, ends, -, inside, progress⟩
    · exact ⟨outcome, after, by simp [turns, eq]⟩
    · have fed := progress room
      obtain ⟨outcome, last, rest⟩ := ih feedable roomy (by omega)
      exact ⟨outcome, last, by simp [turns, eq, rest]⟩

theorem advance_succeeds {s : Slot} (target : Int) (h : s.Feedable depth) (window : s.Window)
    (keyframes : Sample.keyframes s.table ≠ []) (deep : depth < max tuning.depth 1)
    (reckons : s.Reckons tuning target) (clock : Clock) :
    ∃ outcome after, s.advance tuning target clock = (.ok outcome, after, clock) := by
  have feedable : (s.aimed target).Feedable depth :=
    aimed_keeps (fun h => seek_feedable target h keyframes) h
  have inside : (s.aimed target).feedEnd ≤ (s.aimed target).samples.size := by
    have aimed : (s.aimed target).Window := aimed_keeps (fun _ => seek_window s target) window
    exact aimed.ends.trans (table_length _).le
  rw [advance_opened tuning target s clock h.opened reckons]
  have enough : patience tuning (s.aimed target) clock =
      (2 * (s.aimed target).samples.size +
        clock.looksUntil (clock.reading clock.looks + tuning.stallTimeout) + 2) + 1 := rfl
  rw [enough, turns]
  rcases feeding_turn tuning (target + tuning.lookahead) feedable deep clock with
    ⟨outcome, after, eq⟩ | ⟨after, eq, feedable, roomy, ends, -, -, -⟩
  · exact ⟨outcome, after, by rw [eq]⟩
  · obtain ⟨outcome, last, rest⟩ := turns_succeed tuning (target + tuning.lookahead)
      (2 * (s.aimed target).samples.size +
        clock.looksUntil (clock.reading clock.looks + tuning.stallTimeout) + 2)
      feedable deep clock roomy (by omega)
    exact ⟨outcome, last, by simp only [eq, rest]⟩

end Loop

end Montage.Slot
