import Mathlib.Data.List.Chain
import Montage.Proofs.Stream.Intake
import Montage.Proofs.Stream.Playback

/- Forward playback that decodes each sample at most once. While the targets do not go back, and by
   no more than the lookahead forward, the front of the queue stays at most half a step after the
   target and the cursor at or past every keyframe that the target has reached; so no advance seeks.
   Only an overflow can cut such a run. -/
namespace Montage.Slot

/-- Advances to one target after another, each with its pick, none of which makes the slot seek,
and the samples that its decoder takes on the way. -/
inductive Streams (tuning : SlotTuning) : Slot → Clock → List Int → List Sample → Slot → Prop where
  | done {s : Slot} {clock : Clock} : Streams tuning s clock [] [] s
  | shown {s after last : Slot} {clock later : Clock} {target : Int} {rest : List Int}
      {xs ys : List Sample} {outcome : Advanced} (stays : s.needsSeek target = false)
      (reached : s.advance tuning target clock = (.ok outcome, after, later))
      (takes : Takes tuning (target + tuning.lookahead) s xs after)
      (reaches : after.queue.reaches target = true)
      (onward : Streams tuning (after.pick target).2 later rest ys last) :
      Streams tuning s clock (target :: rest) (xs ++ ys) last

section Streams
variable {tuning : SlotTuning} {s last : Slot} {clock : Clock} {targets : List Int}
  {fed : List Sample}

theorem Streams.resets (streams : Streams tuning s clock targets fed last) :
    last.decoder.usage.resets = s.decoder.usage.resets := by
  induction streams with
  | done => rfl
  | @shown s after last clock later target rest xs ys outcome stays reached takes reaches onward ih =>
    have same : after.decoder.usage.resets = s.decoder.usage.resets :=
      moves_keep (fun t => t.decoder.usage.resets = s.decoder.usage.resets)
        (fun move same => (move_resets move).trans same) takes.moves rfl
    exact ih.trans same

/-- What is taken continues the table from any place before the cursor. -/
theorem Streams.extends (streams : Streams tuning s clock targets fed last) {first : Nat}
    (since : first ≤ s.cursor) :
    (s.table.take last.cursor).drop first = (s.table.take s.cursor).drop first ++ fed := by
  induction streams with
  | done => exact (List.append_nil _).symm
  | @shown s after last clock later target rest xs ys outcome stays reached takes reaches onward ih =>
    obtain ⟨later, part⟩ := takes.extends since
    have more := ih later
    change (after.table.take last.cursor).drop first = (after.table.take _).drop first ++ ys at more
    rw [moves_table takes.moves] at more
    rw [more, ← List.append_assoc, ← part]
    rfl

/-- Each sample is taken at most once: those taken are a part of the table, in its order. -/
theorem Streams.slice (streams : Streams tuning s clock targets fed last) :
    fed = (s.table.take last.cursor).drop s.cursor := by
  have part := streams.extends (le_refl s.cursor)
  rw [part, take_drop_self, List.nil_append]

theorem Streams.horizons (streams : Streams tuning s clock targets fed last) :
    ∀ target ∈ targets, Fits (target + tuning.lookahead) := by
  induction streams with
  | done => simp
  | shown stays reached takes reaches onward ih =>
    exact List.forall_mem_cons.mpr ⟨(advance_begun tuning reached).2.horizon, ih⟩

end Streams

/-- A target, cut to the end of the last sample. -/
def cut (table : List Sample) (first step target : Int) : Int :=
  min target (first + table.length * step)

/-- A slot that goes forward from where it was opened, before its advance to a target. -/
structure Underway (table : List Sample) (first step : Int) (width height depth : Nat)
    (tuning : SlotTuning) (opening target : Int) (s : Slot) : Prop where
  feedable : s.Feedable depth
  placed : s.Placed table false tuning opening
  track : ∃ front, s.Track table first step width height (cut table first step target)
    (cut table first step target) front
  quiet : s.decoder.next = none
  drained : s.feedEnd ≤ s.cursor → s.flushed = true
  lead : Sample.keyframeAtOrBefore table target ≤ s.cursor

section Underway
variable {table : List Sample} {first step : Int} {width height depth front : Nat}
  {tuning : SlotTuning} {opening target horizon : Int} {s after : Slot}

/-- A slot whose decoder has nothing to give is as near to a later target. -/
theorem Track.onward {next horizon' : Int}
    (h : s.Track table first step width height target horizon front) (later : target ≤ next)
    (quiet : s.decoder.next = none) (drained : s.feedEnd ≤ s.cursor → s.flushed = true) :
    s.Track table first step width height next horizon' front := by
  have near := h.near
  refine ⟨h.toStrip, by omega, fun empty => ?_, .inr ⟨quiet, drained⟩⟩
  obtain ⟨low, passed, inside⟩ := h.blank empty
  exact ⟨by omega, by omega, inside⟩

theorem Strip.front? (spaced : Spaced table first step)
    (h : s.Strip table first step width height front) {time : Int}
    (head : s.queue.front? = some time) : time = first + front * step := by
  rw [FrameQueue.front?, h.frames, List.head?_map, Option.map_map, List.head?_drop,
    Option.map_eq_some_iff] at head
  obtain ⟨x, stands, rfl⟩ := head
  rw [List.getElem?_take] at stands
  split at stands
  · exact spaced.time stands
  · cases stands

/-- None of the three things that make a slot seek is the case. -/
theorem underway_stays (spaced : Spaced table first step)
    (h : s.Underway table first step width height depth tuning opening target)
    (late : opening ≤ target) : s.needsSeek target = false := by
  obtain ⟨front, track⟩ := h.track
  have positive := spaced.positive
  have margin : step ≤ max tuning.tolerance step := le_max_right _ _
  have floor := h.placed.drops
  rw [spaced.floor_eq] at floor
  have kept : ¬ target < s.floor := by omega
  have led : ¬ s.cursor < Sample.keyframeAtOrBefore s.table target := by
    rw [h.placed.reads]
    exact Nat.not_lt.mpr h.lead
  have near := track.near
  unfold cut at near
  cases head : s.queue.front? with
  | none => simp [needsSeek, kept, h.placed.direction, head, led]
  | some time =>
    have time_eq := track.front? spaced head
    have reached : ¬ target + s.halfFrame < time := by omega
    simp [needsSeek, kept, h.placed.direction, head, led, reached]

/-- Horizons that no sample lies between allow the same moves. -/
theorem moves_between {horizon' : Int} (reads : s.table = table)
    (same : ∀ x ∈ table, x.timestamp ≤ horizon ↔ x.timestamp ≤ horizon')
    (moves : Moves tuning horizon s after) : Moves tuning horizon' s after := by
  induction moves with
  | refl => exact .refl
  | @tail middle after before move ih =>
    refine ih.tail ?_
    cases move with
    | feed wanted room next taken =>
      refine .feed ?_ room next taken
      have reach := next
      rw [table_get, moves_table before, reads] at reach
      have near := same _ (List.mem_of_getElem? reach)
      simpa [wants, next, near] using wanted
    | arrive given => exact .arrive given
    | flush fed first => exact .flush fed first

/-- An advance goes no further than the queue can hold beside the target. -/
theorem cut_covers (spaced : Spaced table first step) (ahead : 0 ≤ tuning.lookahead)
    (window : tuning.lookahead + max tuning.tolerance step ≤ 9223372036854775807) :
    cut table first step (target + tuning.lookahead) + step ≤
      cut table first step target + (max (capacity table false tuning) 2 : Nat) * step := by
  have positive := spaced.positive
  have cover := spaced.capacity_covers ahead ⟨by omega, window⟩
  have more := spaced_le positive (Nat.le_max_left (capacity table false tuning) 2)
  have two := spaced_le positive (Nat.le_max_right (capacity table false tuning) 2)
  unfold cut
  omega

/-- After the advance to a target the slot is on its way to it, wherever the horizon came to. -/
theorem underway_track (spaced : Spaced table first step)
    (h : s.Underway table first step width height depth tuning opening target)
    (ahead : 0 ≤ tuning.lookahead)
    (window : tuning.lookahead + max tuning.tolerance step ≤ 9223372036854775807)
    (moves : Moves tuning (target + tuning.lookahead) s after) :
    after.Placed table false tuning opening ∧
      ∃ front, after.Track table first step width height (cut table first step target)
        (cut table first step (target + tuning.lookahead)) front := by
  obtain ⟨front, track⟩ := h.track
  refine moves_track spaced (min_le_right _ _) (cut_covers spaced ahead window) h.placed
    (track.onward (le_refl _) h.quiet h.drained) (moves_between h.placed.reads ?_ moves)
  intro x member
  obtain ⟨i, stands⟩ := List.mem_iff_getElem?.mp member
  have time := spaced.time stands
  have order := spaced_lt spaced.positive (List.getElem?_eq_some_iff.mp stands).1
  have positive := spaced.positive
  unfold cut
  omega

/-- The picked frame is at most half a step after the target: the one before it is further away. -/
theorem picked_near (spaced : Spaced table first step)
    (placed : s.Placed table false tuning opening)
    (h : s.Strip table first step width height front)
    (near : first + front * step ≤ cut table first step target + s.halfFrame)
    {k : Nat} {x : Sample} (found : s.queue.nearest target = some k) (early : front + k < s.emitted)
    (stands : table[front + k]? = some x) :
    first + (front + k : Nat) * step ≤ cut table first step target + s.halfFrame := by
  have positive := spaced.positive
  have half := placed_halfFrame spaced placed
  cases k with
  | zero => exact near
  | succ k =>
    unfold cut
    by_cases inRange : target ≤ first + table.length * step
    · obtain ⟨f, at_f, -, strict⟩ := FrameQueue.nearest_spec found
      rw [h.frame early, stands] at at_f
      cases at_f
      have inside := h.inside
      have earlier := h.frame (show front + k < s.emitted by omega)
      have before := List.getElem?_eq_getElem (show front + k < table.length by omega)
      rw [before] at earlier
      have closer := strict k _ (Nat.lt_succ_self k) earlier
      change (x.timestamp - target).natAbs < (table[front + k].timestamp - target).natAbs at closer
      have time := spaced.time stands
      have time' := spaced.time before
      have split := spaced_succ step (front + k)
      rw [Nat.add_assoc] at split
      rw [min_eq_left inRange]
      omega
    · have order := spaced_lt positive (List.getElem?_eq_some_iff.mp stands).1
      rw [min_eq_right (by omega)]
      omega

/-- A pick at a target leaves the slot on its way to it. -/
theorem pick_track (spaced : Spaced table first step) (placed : s.Placed table false tuning opening)
    (h : s.Track table first step width height (cut table first step target) horizon front)
    (quiet : s.decoder.next = none) (drained : s.feedEnd ≤ s.cursor → s.flushed = true) :
    ∃ front, (s.pick target).2.Track table first step width height (cut table first step target)
      horizon front := by
  by_cases shown : front < s.emitted
  · obtain ⟨k, x, found, early, stands, -, strip⟩ :=
      strip_pick spaced placed h.toStrip shown target
    have near := picked_near spaced placed h.toStrip h.near found early stands
    refine ⟨front + k, strip, near, fun empty => ?_, .inr ⟨release_quiet _ quiet, drained⟩⟩
    exact absurd empty early.ne
  · have same : front = s.emitted := Nat.le_antisymm h.ahead (Nat.not_lt.mp shown)
    have empty : s.queue.frames = [] := by
      rw [h.frames, same, take_drop_self]
      rfl
    have left : (s.pick target).2.queue.frames = s.queue.frames :=
      ((pick_empty_iff s target).2.mpr empty).trans empty.symm
    exact ⟨front, ⟨pick_window target h.window, h.reads, h.wide, h.high, h.ahead,
      left.trans h.frames, h.young⟩, h.near, h.blank, .inr ⟨release_quiet _ quiet, drained⟩⟩

/-- The cursor stays at or past the keyframe that a target leads to: all samples up to the horizon
were fed, and the next target is not beyond it. -/
theorem lead_onward (spaced : Spaced table first step) (window : s.Window)
    (placed : s.Placed table false tuning opening)
    (settled : s.Settled (target + tuning.lookahead)) {next : Int} (late : first ≤ next)
    (near : next ≤ target + tuning.lookahead) :
    Sample.keyframeAtOrBefore table next ≤ s.cursor := by
  obtain ⟨inside, reached⟩ := spaced.keyframe_before late
  rcases window.sated settled.sated with done | ⟨-, x, stands, beyond⟩
  · rw [done, placed.stops]
    exact inside.le
  · rw [placed.reads] at stands
    have time := spaced.time stands
    by_contra behind
    have order := spaced_le spaced.positive (Nat.not_le.mp behind).le
    omega

section Run
variable (spaced : Spaced table first step) (ahead : 0 ≤ tuning.lookahead)
  (window : tuning.lookahead + max tuning.tolerance step ≤ 9223372036854775807)
  (opens : first ≤ opening)
include spaced ahead window opens

/-- After an advance and its pick the slot is underway to any target that follows by no more than the
lookahead. -/
theorem underway_onward {outcome : Advanced} {clock later : Clock}
    (h : s.Underway table first step width height depth tuning opening target)
    (late : opening ≤ target) (reached : s.advance tuning target clock = (.ok outcome, after, later))
    {next : Int} (onward : target ≤ next) (near : next ≤ target + tuning.lookahead) :
    (after.pick target).2.Underway table first step width height depth tuning opening next := by
  have aims : s.aimed target = s := if_neg (by simp [underway_stays spaced h late])
  have moves := advance_moves tuning target s clock h.feedable.opened
  rw [reached, aims] at moves
  have settled := advance_settled tuning target reached
  obtain ⟨placed, front, track⟩ := underway_track spaced h ahead window moves
  obtain ⟨front, shown⟩ := pick_track spaced placed track settled.quiet settled.drained
  have picked := pick_settled target settled
  have further : cut table first step target ≤ cut table first step next :=
    min_le_min_right _ onward
  refine ⟨pick_feedable target (moves_keep _ move_feedable moves h.feedable),
    pick_placed target placed, ⟨front, shown.onward further picked.quiet picked.drained⟩,
    picked.quiet, picked.drained, ?_⟩
  exact lead_onward spaced track.window placed settled (by omega) near

/-- A run that has come so far has not sought, and will not for the target that is next. -/
theorem streams_stays {past rest : List Int} {fed : List Sample} {last : Slot} {next : Int}
    {clock : Clock} (streams : Streams tuning s clock past fed last)
    (h : ∀ target, (past ++ next :: rest).head? = some target → opening ≤ target ∧
      s.Underway table first step width height depth tuning opening target)
    (chain : (past ++ next :: rest).IsChain fun t u => t ≤ u ∧ u ≤ t + tuning.lookahead) :
    last.needsSeek next = false := by
  induction streams with
  | done =>
    obtain ⟨late, underway⟩ := h next rfl
    exact underway_stays spaced underway late
  | @shown s after last clock later target past xs ys outcome stays reached takes reaches onward ih =>
    obtain ⟨late, underway⟩ := h target rfl
    obtain ⟨onward, chain⟩ := List.isChain_cons.mp chain
    refine ih (fun following head => ?_) chain
    obtain ⟨forward, near⟩ := onward following head
    exact ⟨by omega, underway_onward spaced ahead window opens underway late reached forward near⟩

section Reaching
variable (deep : depth < max tuning.depth 1) (far : step ≤ tuning.lookahead)
include deep far

omit opens in
/-- One advance and its pick do not overflow where there is room for the target. -/
theorem underway_reaches (h : s.Underway table first step width height depth tuning opening target)
    (late : opening ≤ target) (ample : Ample step tuning opening target)
    (apart : ∀ x ∈ table, Comparable x.timestamp target) (clock : Clock) :
    ∃ outcome after xs, s.advance tuning target clock = (.ok outcome, after, clock) ∧
      Takes tuning (target + tuning.lookahead) s xs after ∧ after.queue.reaches target = true := by
  obtain ⟨_, before⟩ := h.track
  have aims : s.aimed target = s := if_neg (by simp [underway_stays spaced h late])
  have keyframes := spaced.keyframes_nonempty
  rw [← h.placed.reads] at keyframes
  obtain ⟨outcome, after, reached⟩ := advance_succeeds tuning target h.feedable before.window
    keyframes deep (ample.reckons spaced h.placed far late (le_refl _)) clock
  have moves := advance_moves tuning target s clock h.feedable.opened
  rw [reached, aims] at moves
  obtain ⟨xs, takes⟩ := moves_take moves
  obtain ⟨-, front, track⟩ := underway_track spaced h ahead window moves
  refine ⟨outcome, after, xs, reached, takes, List.all_eq_true.mpr fun f member => ?_⟩
  rw [track.frames] at member
  obtain ⟨x, taken, rfl⟩ := List.mem_map.mp member
  obtain ⟨j, -, -, stands⟩ := mem_between.mp taken
  exact decide_eq_true (apart x (List.mem_of_getElem? stands)).distance

theorem underway_streams (rest : List Int)
    (h : s.Underway table first step width height depth tuning opening target)
    (late : opening ≤ target)
    (chain : (target :: rest).IsChain fun t u => t ≤ u ∧ u ≤ t + tuning.lookahead)
    (ample : ∀ t ∈ target :: rest, Ample step tuning opening t)
    (apart : ∀ t ∈ target :: rest, ∀ x ∈ table, Comparable x.timestamp t)
    (clock : Clock) : ∃ fed last, Streams tuning s clock (target :: rest) fed last := by
  have stays := underway_stays spaced h late
  obtain ⟨outcome, after, xs, reached, takes, reaches⟩ := underway_reaches spaced ahead window
    deep far h late (ample target List.mem_cons_self) (apart target List.mem_cons_self) clock
  induction rest generalizing s target clock outcome after xs with
  | nil => exact ⟨_, _, .shown stays reached takes reaches .done⟩
  | cons next rest ih =>
    obtain ⟨⟨forward, near⟩, chain⟩ := List.isChain_cons_cons.mp chain
    have onward := underway_onward spaced ahead window opens h late reached forward near
    have ample' := fun t member => ample t (List.mem_cons_of_mem _ member)
    have apart' := fun t member => apart t (List.mem_cons_of_mem _ member)
    obtain ⟨outcome', after', xs', reached', takes', reaches'⟩ := underway_reaches spaced ahead window
      deep far onward (by omega) (ample' next List.mem_cons_self)
      (apart' next List.mem_cons_self) clock
    obtain ⟨fed, last, streams⟩ := ih onward (by omega) chain ample' apart' clock
      (underway_stays spaced onward (by omega)) outcome' after' xs' reached' takes' reaches'
    exact ⟨_, _, .shown stays reached takes reaches streams⟩

end Reaching
end Run

/-- A slot is underway from where it is opened. -/
theorem start_underway (spaced : Spaced table first step) (clip : String) {d : Decoder}
    (sound : d.Sound depth) (waits : d.waiting = []) (unflushed : d.flushing = false)
    (intact : d.corrupt = none) (late : first ≤ opening)
    (inRange : opening ≤ first + table.length * step) :
    (start clip table d false tuning opening).Underway table first step d.width d.height depth
      tuning opening opening := by
  have placed : (start clip table d false tuning opening).Placed table false tuning opening :=
    start_placed clip d
  have same : cut table first step opening = opening := min_eq_left inRange
  refine ⟨?_, placed, ⟨Sample.keyframeAtOrBefore table opening, ?_⟩, Decoder.next_empty waits,
    fun done => ?_, le_refl _⟩
  · exact spaced_feedable spaced clip tuning opening sound intact
  · rw [same]
    exact fresh_track spaced placed (start_window clip table d false tuning opening waits unflushed)
      rfl rfl late (le_refl _)
  · have inside := (spaced.keyframe_before late).1
    rw [placed.stops] at done
    exact absurd done (Nat.not_le.mpr inside)

end Underway

section Words
variable {K : Type} {source : Source K} {clip : String} {table : List Sample} {first step : Int}
  {tuning : SlotTuning} {opening : Int} {rest : List Int} {clock : Clock}

/-- A slot was opened at a target, and played so many targets, to where it is now: it never sought,
and its decoder took each sample of a part of the table once. -/
def Unbroken (source : Source K) (clip : String) (table : List Sample) (tuning : SlotTuning)
    (opening : Int) (targets : List Int) (clock : Clock) (last : Slot) : Prop :=
  ∃ s fed, start? clip table (Decoder.ofSource source) false tuning opening = some s ∧
    Streams tuning s clock targets fed last ∧ last.decoder.usage.resets = 0 ∧
    fed = (table.take last.cursor).drop (Sample.keyframeAtOrBefore table opening)

/-- Forward playback whose targets go forward by at most the lookahead never seeks, as far as it
goes. It goes to its end only if there is room for each of its targets; and if there is, it does, when
the targets are a word apart from the samples. -/
theorem forward_playback_unbroken_iff (healthy : source.stalled = false)
    (intact : source.corrupt = none) (spaced : Spaced table first step)
    (deep : source.reorderDepth < max tuning.depth 1)
    (ahead : (source.reorderDepth + 1 : Nat) * step ≤ tuning.lookahead) (late : first ≤ opening)
    (inRange : opening ≤ first + table.length * step)
    (chain : (opening :: rest).IsChain fun t u => t ≤ u ∧ u ≤ t + tuning.lookahead) :
    (∀ s past next following fed last, opening :: rest = past ++ next :: following →
      start? clip table (Decoder.ofSource source) false tuning opening = some s →
      Streams tuning s clock past fed last →
      last.needsSeek next = false ∧ Unbroken source clip table tuning opening past clock last) ∧
    ((∃ last, Unbroken source clip table tuning opening (opening :: rest) clock last) →
      ∀ target ∈ opening :: rest, Ample step tuning opening target) ∧
    ((∀ target ∈ opening :: rest, ∀ x ∈ table, Comparable x.timestamp target) →
      (∀ target ∈ opening :: rest, Ample step tuning opening target) →
      ∃ last, Unbroken source clip table tuning opening (opening :: rest) clock last) := by
  have positive := spaced.positive
  have one := spaced_le positive (Nat.le_add_left 1 source.reorderDepth)
  have far : step ≤ tuning.lookahead := by omega
  have sound : (Decoder.ofSource source).Sound source.reorderDepth := ⟨rfl, healthy, rfl⟩
  have underway : (start clip table (Decoder.ofSource source) false tuning opening).Underway table first
      step source.width source.height source.reorderDepth tuning opening opening :=
    start_underway spaced clip sound rfl rfl intact late inRange
  refine ⟨?_, ?_, ?_⟩
  · intro s past next following fed last split opened streams
    have opens := (start?_eq_some_iff.mp opened).1
    obtain rfl := (start?_eq_some_iff.mp opened).2
    have window : tuning.lookahead + max tuning.tolerance step ≤ 9223372036854775807 := by
      have wide := (opens.window rfl (by rw [spaced.nominal]; omega)).high
      rwa [spaced.window_eq] at wide
    have starts : ∀ target, (opening :: rest).head? = some target → opening ≤ target ∧
        (start clip table (Decoder.ofSource source) false tuning opening).Underway table first step
          source.width source.height source.reorderDepth tuning opening target := by
      rintro target ⟨⟩
      exact ⟨le_refl _, underway⟩
    rw [split] at chain starts
    exact ⟨streams_stays spaced (by omega) window late streams starts chain, _, fed, opened, streams,
      streams.resets, streams.slice⟩
  · rintro ⟨last, s, fed, opened, streams, -⟩ target member
    exact ample_of spaced far (start?_eq_some_iff.mp opened).1 (streams.horizons target member)
  · intro apart ample
    have room := ample opening List.mem_cons_self
    obtain ⟨fed, last, streams⟩ := underway_streams spaced (by omega) room.window late deep far rest
      underway (le_refl _) chain ample apart clock
    exact ⟨last, _, fed, start?_eq_some_iff.mpr ⟨room.opens spaced far (le_refl _) (le_refl _), rfl⟩,
      streams, streams.resets, streams.slice⟩

/-- Targets that go past a keyframe, and past the last sample. -/
theorem forward_playback_unbroken_iff_oneStep :
    promptSource.stalled = false ∧ promptSource.corrupt = none ∧ Spaced twoGroups 0 100000 ∧
      promptSource.reorderDepth < max oneStep.depth 1 ∧
      (promptSource.reorderDepth + 1 : Nat) * 100000 ≤ oneStep.lookahead ∧
      (∀ target ∈ [(50000 : Int), 50000, 150000, 200000, 300000, 400000],
        (∀ x ∈ twoGroups, Comparable x.timestamp target) ∧
          Ample 100000 oneStep 50000 target) ∧
      ∃ last, Unbroken promptSource "c1" twoGroups oneStep 50000
        [50000, 50000, 150000, 200000, 300000, 400000] (Clock.stepping 1000) last := by
  have fits : ∀ target ∈ [(50000 : Int), 50000, 150000, 200000, 300000, 400000],
      (∀ x ∈ twoGroups, Fits (x.timestamp - target) ∧ Fits (target - x.timestamp)) ∧
        50000 + oneStep.lookahead ≤ target + 100000 ∧ target + oneStep.lookahead ≤ 500000 := by
    decide
  have room : ∀ target ∈ [(50000 : Int), 50000, 150000, 200000, 300000, 400000],
      (∀ x ∈ twoGroups, Comparable x.timestamp target) ∧
        Ample 100000 oneStep 50000 target := by
    intro target member
    obtain ⟨apart, -, horizon⟩ := fits target member
    exact ⟨fun x listed => ⟨(apart x listed).1, (apart x listed).2⟩, by decide, by decide, by decide,
      by omega⟩
  refine ⟨rfl, rfl, twoGroups_spaced, by decide, by decide, room, ?_⟩
  exact (forward_playback_unbroken_iff rfl rfl twoGroups_spaced (by decide) (by decide) (by decide)
    (by decide) (by simp [oneStep])).2.2 (fun target member => (room target member).1)
    fun target member => (room target member).2

/-- A run under the longest lookahead shows one frame; the advance to the next target, which is still
within the table and by far within the lookahead, overflows. -/
theorem second_advance_overflows :
    let reached := (overlongSlot 50000).advance overlong 50000 (Clock.stepping 1000)
    let picked := reached.2.1.pick 50000
    Spaced twoGroups 0 100000 ∧ promptSource.reorderDepth < max overlong.depth 1 ∧
      (promptSource.reorderDepth + 1 : Nat) * 100000 ≤ overlong.lookahead ∧
      start? "c1" twoGroups (Decoder.ofSource promptSource) false overlong 50000 =
        some (overlongSlot 50000) ∧
      reached.1 = .ok .exhausted ∧ reached.2.1.queue.reaches 50000 = true ∧
      picked.1.map (·.timestamp) = some 0 ∧
      (picked.2.advance overlong 150000 reached.2.2).1 = .error .overflow :=
  ⟨twoGroups_spaced, by decide, by decide, start?_eq_some_iff.mpr ⟨by decide, rfl⟩, rfl, rfl, rfl, rfl⟩

end Words

end Montage.Slot
