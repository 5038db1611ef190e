import Montage.Proofs.Stream.Feeding
import Montage.Proofs.Stream.Presence
import Montage.Proofs.Stream.Waiting

/- When a source that is in order counts as stalled. A decoder that may hold back as many samples
   as a slot lets wait in it gives nothing before the end of what is fed; so an advance that wants
   more than there is room for comes to a wait that nothing ends. With a deeper slot, or with less
   to feed, every advance feeds what it wants. -/
namespace Montage.Slot

/-- The samples that are wanted one after another from the cursor on. -/
def wanted (s : Slot) (horizon : Int) : List Sample :=
  ((s.table.take s.feedEnd).drop s.cursor).takeWhile fun x =>
    s.reverse || decide (x.timestamp ≤ horizon)

section Wanted
variable {tuning : SlotTuning} {horizon : Int} {s after : Slot} {xs : List Sample}

theorem wanted_eq_nil (sated : s.wants horizon = false) : s.wanted horizon = [] := by
  unfold wanted
  cases part : (s.table.take s.feedEnd).drop s.cursor with
  | nil => rfl
  | cons x rest =>
    have first := congrArg List.head? part
    rw [List.head?_drop, List.getElem?_take, List.head?_cons] at first
    split at first
    · rename_i inside
      refine List.takeWhile_cons_of_neg ?_
      simpa [wants, table_get, inside, first] using sated
    · cases first

theorem wanted_cons {x : Sample} {d : Decoder} (wanted : s.wants horizon = true)
    (stands : s.table[s.cursor]? = some x) :
    s.wanted horizon =
      x :: ({ s with decoder := d, cursor := s.cursor + 1 } : Slot).wanted horizon := by
  obtain ⟨inside, y, at_cursor, near⟩ := wants_spec wanted
  rw [stands] at at_cursor
  cases at_cursor
  unfold Slot.wanted
  rw [List.drop_eq_getElem?_toList_append, List.getElem?_take_of_lt inside, stands]
  exact List.takeWhile_cons_of_pos (by simpa using near)

/-- What is taken is the first part of what is wanted. -/
theorem Takes.wanted (takes : Takes tuning horizon s xs after) :
    s.wanted horizon = xs ++ after.wanted horizon := by
  induction takes with
  | none => rfl
  | @fed middle xs x d before wanted room next taken ih =>
    rw [table_get] at next
    rw [ih, wanted_cons wanted next, List.append_assoc, List.singleton_append]
  | given before given ih =>
    rw [receive_fields]
    exact ih
  | flushed before fed first ih => exact ih

theorem wanted_pos (wanted : s.wants horizon = true) : 0 < (s.wanted horizon).length := by
  obtain ⟨-, x, stands, -⟩ := wants_spec wanted
  rw [wanted_cons (d := s.decoder) wanted stands]
  exact Nat.succ_pos _

end Wanted

/-- What holds of a slot on a source that is in order, between any two moves: no more samples wait
than its depth, the decoder is flushed at the end of what is fed only, and refuses no sample. -/
structure Steady (table : List Sample) (depth reorder : Nat) (s : Slot) : Prop where
  window : s.Window
  reads : s.table = table
  sound : s.decoder.Sound reorder
  few : s.decoder.pending ≤ depth
  done : s.flushed = true → s.feedEnd ≤ s.cursor
  feeds : table ≠ [] → s.Feedable reorder

section Steady
variable {table : List Sample} {tuning : SlotTuning} {horizon : Int} {reorder : Nat}
  {s after : Slot} {xs : List Sample}

theorem move_steady (move : Move tuning horizon s after)
    (h : s.Steady table (max tuning.depth 1) reorder) :
    after.Steady table (max tuning.depth 1) reorder := by
  have window := move_window move h.window
  have sound := move_sound move h.sound
  have feeds (full : table ≠ []) := move_feedable move (h.feeds full)
  have few := h.few
  have done := h.done
  cases move with
  | feed wanted room next taken =>
    refine ⟨window, h.reads, sound, ?_, ?_, feeds⟩
    · rw [Decoder.decode_pending taken]
      exact room
    · exact fun flushed => (done flushed).trans (Nat.le_succ _)
  | arrive given =>
    rw [receive_fields] at window sound feeds ⊢
    exact ⟨window, h.reads, sound, (Decoder.next_pending given).le.trans few, done, feeds⟩
  | flush fed first => exact ⟨window, h.reads, sound, few, fun _ => fed, feeds⟩

theorem seek_steady (keyed : table ≠ [] → Sample.keyframes table ≠ []) (target : Int)
    (h : s.Steady table (max tuning.depth 1) reorder) :
    (s.seek target).Steady table (max tuning.depth 1) reorder where
  window := seek_window s target
  reads := h.reads
  sound := ⟨h.sound.opened, h.sound.alive, h.sound.holds⟩
  few := Nat.zero_le _
  done := fun flushed => by cases flushed
  feeds := fun full => seek_feedable target (h.feeds full) (h.reads ▸ keyed full)

theorem pick_steady (target : Int) (h : s.Steady table (max tuning.depth 1) reorder) :
    (s.pick target).2.Steady table (max tuning.depth 1) reorder :=
  ⟨pick_window target h.window, h.reads, ⟨h.sound.opened, h.sound.alive, h.sound.holds⟩, h.few,
    h.done, fun full => pick_feedable target (h.feeds full)⟩

theorem start_steady {K : Type} {source : Source K} (healthy : source.stalled = false)
    (intact : source.corrupt = none) (whole : ∀ x ∈ table, x.payload.length = 8)
    (keyed : table ≠ [] → Sample.keyframes table ≠ []) (clip : String) (reverse : Bool)
    (opening : Int) :
    (start clip table (Decoder.ofSource source) reverse tuning opening).Steady table
      (max tuning.depth 1) source.reorderDepth where
  window := start_window clip table _ reverse tuning opening rfl rfl
  reads := rfl
  sound := ⟨rfl, healthy, rfl⟩
  few := Nat.zero_le _
  done := fun flushed => by cases flushed
  feeds := fun full =>
    start_feedable clip reverse tuning opening ⟨rfl, healthy, rfl⟩ intact whole (keyed full)

theorem played_steady (keyed : table ≠ [] → Sample.keyframes table ≠ []) (calls : List Call)
    (state : Slot × Clock) (h : state.1.Steady table (max tuning.depth 1) reorder) :
    (played tuning calls state).1.closed = true ∨
      (played tuning calls state).1.Steady table (max tuning.depth 1) reorder :=
  played_keeps (fun s => s.Steady table (max tuning.depth 1) reorder) move_steady pick_steady calls
    (fun target _ _ => seek_steady keyed target) state (.inr h)

/-- A decoder that holds all of its samples back has what was there and what it took, until the
end of what is fed. -/
theorem Takes.held (takes : Takes tuning horizon s xs after)
    (h : s.Steady table (max tuning.depth 1) reorder) (deep : max tuning.depth 1 ≤ reorder) :
    s.decoder.pending + xs.length ≤ max tuning.depth 1 ∧
      (after.flushed = true ∨ after.decoder.pending = s.decoder.pending + xs.length) := by
  induction takes with
  | none => exact ⟨h.few, .inr rfl⟩
  | @fed middle xs x d before wanted room next taken ih =>
    have steady := moves_keep _ move_steady before.moves h
    obtain ⟨-, flushed | count⟩ := ih
    · have inside := (wants_spec wanted).1
      exact absurd (steady.done flushed) (Nat.not_le.mpr inside)
    · rw [List.length_append, List.length_singleton, ← Nat.add_assoc, ← count]
      exact ⟨room, .inr (Decoder.decode_pending taken)⟩
  | @given middle xs f d before given ih =>
    have steady := moves_keep _ move_steady before.moves h
    refine ⟨ih.1, .inl ?_⟩
    rw [receive_fields]
    change middle.flushed = true
    -- a frame is ready only when more wait than are held back, or after the end
    by_contra unfinished
    have unflushed : middle.decoder.flushing = false :=
      steady.window.together.trans (Bool.eq_false_iff.mpr unfinished)
    have held : ¬ middle.decoder.reorderDepth < middle.decoder.pending := by
      rw [steady.sound.holds]
      exact Nat.not_lt.mpr (steady.few.trans deep)
    have idle : middle.decoder.isReady = false := by
      simp only [Decoder.isReady, unflushed, held, decide_false, Bool.or_self, Bool.and_false]
    simp [Decoder.next, idle] at given
  | flushed before fed first ih => exact ⟨ih.1, .inl rfl⟩

/-- More is wanted than there is room for, and the decoder may hold all of it back. -/
def Chokes (depth reorder : Nat) (horizon : Int) (s : Slot) : Prop :=
  depth ≤ reorder ∧ depth - s.decoder.pending < (s.wanted horizon).length

/-- An advance that ends well has taken what was wanted, which did not choke it. -/
theorem settled_steady (h : s.Steady table (max tuning.depth 1) reorder)
    (takes : Takes tuning horizon s xs after) (settled : after.Settled horizon) :
    ¬ s.Chokes (max tuning.depth 1) reorder horizon ∧ xs = s.wanted horizon ∧
      after.decoder.pending ≤ reorder ∧
        (after.feedEnd ≤ after.cursor → after.decoder.pending = 0) := by
  have steady := moves_keep _ move_steady takes.moves h
  obtain ⟨few, all⟩ := Decoder.next_none steady.sound settled.quiet
  have whole : xs = s.wanted horizon := by
    rw [takes.wanted, wanted_eq_nil settled.sated, List.append_nil]
  refine ⟨?_, whole, few, ?_⟩
  · rintro ⟨deep, much⟩
    have room := (takes.held h deep).1
    rw [← whole] at much
    omega
  · intro ends
    have empty := all (steady.window.together.trans (settled.drained ends))
    simp [Decoder.pending, empty]

/-- A wait for a decoder that is in order is for one that holds back all that there is room for,
and there was more to feed. -/
theorem waits_chokes {first : Slot} {clock : Clock} {begun n : Nat}
    (h : first.Steady table (max tuning.depth 1) reorder) (takes : Takes tuning horizon first xs s)
    (waits : Waits tuning horizon first clock begun n s) :
    first.Chokes (max tuning.depth 1) reorder horizon := by
  have steady := moves_keep _ move_steady takes.moves h
  obtain ⟨few, all⟩ := Decoder.next_none steady.sound waits.quiet
  have deep := waits.full.trans few
  refine ⟨deep, ?_⟩
  have more := wanted_pos waits.wanted
  have full := waits.full
  rw [takes.wanted, List.length_append]
  rcases (takes.held h deep).2 with flushed | count
  · have inside := (wants_spec waits.wanted).1
    exact absurd (steady.done flushed) (Nat.not_le.mpr inside)
  · omega

/-- A slot on a source that is in order is refused nothing: an advance feeds all that it wants, or
ends with a wait. -/
theorem ends_steady {first : Slot} {clock later : Clock} {n : Nat}
    {result : Except DecodeFault Advanced} (h : first.Steady table (max tuning.depth 1) reorder)
    (takes : Takes tuning horizon first xs after)
    (ends : EndsAfter tuning horizon (.feeding, first, clock) n result (after, later)) :
    (∃ outcome, result = .ok outcome) ∧ after.Settled horizon ∨
      (∃ name held, result = .error (.stalled name held)) ∧
        ∃ begun, Waits tuning horizon first clock begun n after := by
  rcases ends_cases ends with
    ⟨outcome, rfl, -, -⟩ | ⟨e, x, -, stands, refused, -, -⟩ | ⟨begun, -, waits, rfl, -, -⟩
  · obtain ⟨last, -, ended⟩ := ends
    exact .inl ⟨⟨outcome, rfl⟩, turn_settled tuning horizon last.1 ended⟩
  · have steady := moves_keep _ move_steady takes.moves h
    have full : table ≠ [] := by
      rw [← steady.reads]
      exact List.ne_nil_of_mem (List.mem_of_getElem? stands)
    rw [← table_get] at stands
    obtain ⟨d, taken⟩ := (steady.feeds full).takes stands
    rw [taken] at refused
    cases refused
  · exact .inr ⟨⟨_, _, rfl⟩, begun, waits⟩

theorem opened_keyed (opens : ∀ x, table.head? = some x → x.keyframe = true) (full : table ≠ []) :
    Sample.keyframes table ≠ [] := by
  obtain ⟨x, rest, rfl⟩ := List.exists_cons_of_ne_nil full
  have first : 0 ∈ Sample.keyframes (x :: rest) := Sample.mem_keyframes.mpr ⟨x, rfl, opens x rfl⟩
  exact List.ne_nil_of_mem first

end Steady

/-- On a source that is in order an advance in which nothing overflows counts as stalled exactly when
the decoder may hold back as many samples as may wait in it, and more are wanted than there is room
for. Any other one feeds what is wanted, and leaves no more in the decoder than that holds back. -/
theorem advance_stalls_iff {K : Type} (source : Source K) (healthy : source.stalled = false)
    (intact : source.corrupt = none) (clip : String) (table : List Sample)
    (opens : ∀ x, table.head? = some x → x.keyframe = true)
    (whole : ∀ x ∈ table, x.payload.length = 8) (reverse : Bool) (tuning : SlotTuning)
    (opening : Int) (calls : List Call) {clock : Clock} (moving : clock.Moving) (target : Int)
    {s : Slot} {between : Clock}
    (run : played tuning calls
      (start clip table (Decoder.ofSource source) reverse tuning opening, clock) = (s, between)) :
    (s.closed = true →
      s.advance tuning target between = (.error (.clipClosed s.clip), s, between)) ∧
    (s.closed = false → ∃ result after later xs,
      s.advance tuning target between = (result, after, later) ∧
      (s.aimed target).decoder.pending ≤ max tuning.depth 1 ∧
      Takes tuning (target + tuning.lookahead) (s.aimed target) xs after ∧
      (result = .error .overflow ↔ ¬ s.Reckons tuning target) ∧
      (s.Reckons tuning target →
        ((∃ name held, result = .error (.stalled name held)) ↔
          (s.aimed target).Chokes (max tuning.depth 1) source.reorderDepth
            (target + tuning.lookahead)) ∧
        (¬ (s.aimed target).Chokes (max tuning.depth 1) source.reorderDepth
            (target + tuning.lookahead) →
          (∃ outcome, result = .ok outcome) ∧
            xs = (s.aimed target).wanted (target + tuning.lookahead) ∧
            after.decoder.pending ≤ source.reorderDepth ∧
            (after.feedEnd ≤ after.cursor → after.decoder.pending = 0)))) := by
  refine ⟨fun closed => advance_closed tuning target s between closed, fun running => ?_⟩
  have keyed := opened_keyed opens
  have opened : (start clip table (Decoder.ofSource source) reverse tuning opening).Steady table
      (max tuning.depth 1) source.reorderDepth :=
    start_steady healthy intact whole keyed clip reverse opening
  have all := played_steady keyed calls
    (start clip table (Decoder.ofSource source) reverse tuning opening, clock) opened
  have still : (played tuning calls
      (start clip table (Decoder.ofSource source) reverse tuning opening, clock)).2.Moving :=
    played_moving calls moving
  rw [run] at all still
  have steady : s.Steady table (max tuning.depth 1) source.reorderDepth := by
    rcases all with closed | steady
    · simp [running] at closed
    · exact steady
  have aimed : (s.aimed target).Steady table (max tuning.depth 1) source.reorderDepth :=
    aimed_keeps (seek_steady keyed target) steady
  by_cases reckons : s.Reckons tuning target
  · obtain ⟨n, ends, -⟩ := advance_ends tuning target still running reckons
    obtain ⟨xs, takes⟩ := moves_take (advance_moves tuning target s between running)
    generalize s.advance tuning target between = reached at ends takes
    obtain ⟨result, after, later⟩ := reached
    refine ⟨result, after, later, xs, rfl, aimed.few, takes, ?_⟩
    rcases ends_steady aimed takes ends with
      ⟨⟨outcome, rfl⟩, settled⟩ | ⟨⟨name, held, rfl⟩, begun, waits⟩
    · obtain ⟨eased, rest⟩ := settled_steady aimed takes settled
      refine ⟨by simp [reckons], fun _ => ⟨?_, fun _ => ⟨⟨outcome, rfl⟩, rest⟩⟩⟩
      exact ⟨fun ⟨_, _, stalled⟩ => (nomatch stalled), fun chokes => absurd chokes eased⟩
    · have chokes := waits_chokes aimed takes waits
      refine ⟨by simp [reckons], fun _ => ⟨?_, fun eased => absurd chokes eased⟩⟩
      exact ⟨fun _ => chokes, fun _ => ⟨name, held, rfl⟩⟩
  · refine ⟨_, _, _, [], advance_overflow tuning target s between running reckons, aimed.few, .none,
      by simp [reckons], fun fits => absurd fits reckons⟩

/-- A source whose decoder holds back two frames. -/
def tardySource : Source Nat := ⟨1, 1, 10, 1, 2, 2, false, none⟩

def narrow : SlotTuning := ⟨100000, 35000, 2, 5⟩

/-- Two samples were fed, and nothing came out of the decoder yet. -/
def heldBack : Slot × Clock :=
  played narrow [.advance 0]
    (start "c1" twoGroups (Decoder.ofSource tardySource) false narrow 0, Clock.stepping 2)

/-- The first advance is well, and the next one, which wants one sample more, is not. -/
theorem advance_stalls_iff_heldBack :
    tardySource.stalled = false ∧ tardySource.corrupt = none ∧
      (∀ x, twoGroups.head? = some x → x.keyframe = true) ∧
      (∀ x ∈ twoGroups, x.payload.length = 8) ∧ (Clock.stepping 2).Moving ∧
      heldBack.1.closed = false ∧ heldBack.1.Reckons narrow 100000 ∧
      (heldBack.1.aimed 100000).decoder.pending = 2 ∧
      ((heldBack.1.aimed 100000).wanted 200000).length = 1 ∧
      ∃ name held,
        (heldBack.1.advance narrow 100000 heldBack.2).1 = .error (.stalled name held) := by
  have opens : ∀ x, twoGroups.head? = some x → x.keyframe = true := by
    rintro x ⟨⟩
    rfl
  have whole : ∀ x ∈ twoGroups, x.payload.length = 8 := by decide
  have moving : (Clock.stepping 2).Moving := stepping_moving (by decide)
  have reckons : heldBack.1.Reckons narrow 100000 := by decide
  refine ⟨rfl, rfl, opens, whole, moving, rfl, reckons, rfl, rfl, ?_⟩
  obtain ⟨result, after, later, xs, reached, -, -, -, law⟩ :=
    (advance_stalls_iff tardySource rfl rfl "c1" twoGroups opens whole false narrow 0 [.advance 0]
      moving 100000 (show _ = (heldBack.1, heldBack.2) from rfl)).2 rfl
  rw [reached]
  exact (law reckons).1.mpr ⟨by decide, by decide⟩

/-- A horizon that is no word ends the advance, where nothing could stall it. -/
theorem advance_fails_unstalled :
    start? "c1" twoGroups (Decoder.ofSource promptSource) false overlong 150000 =
        some (overlongSlot 150000) ∧
      ¬ ((overlongSlot 150000).aimed 150000).Chokes 4 promptSource.reorderDepth
        (150000 + overlong.lookahead) ∧
      ((overlongSlot 150000).advance overlong 150000 (Clock.stepping 1000)).1 = .error .overflow :=
  ⟨start?_eq_some_iff.mpr ⟨by decide, rfl⟩, fun chokes => absurd chokes.1 (by decide), rfl⟩

end Montage.Slot
