import Montage.Proofs.Stream.Track

/- Forward playback over evenly spaced samples, whatever the order of its targets. After an
   advance the queue begins at most half a step after the target, and what is not in it yet
   lies more than a step beyond; so the nearest of all samples is in the queue. -/
namespace Montage.Slot

section Pick
variable {table : List Sample} {first step : Int} {width height : Nat} {target horizon : Int}
  {front : Nat} {s : Slot} {tuning : SlotTuning} {place : Int}

theorem track_settled {depth : Nat} (spaced : Spaced table first step)
    (placed : s.Placed table false tuning place)
    (h : s.Track table first step width height target horizon front)
    (settled : s.Settled horizon) (sound : s.decoder.Sound depth)
    (ahead : target + (depth + 1 : Nat) * step ≤ horizon) :
    front < s.emitted ∧
      (s.emitted = table.length ∨ target + step < first + s.emitted * step) := by
  have before := h.ahead
  obtain ⟨held, emptied⟩ := settled.emitted_bounds h.window sound
  rcases h.window.sated settled.sated with done | ⟨-, x, stands, beyond⟩
  · have whole : s.emitted = table.length := by
      rw [emptied done.ge, done, placed.stops]
      rfl
    refine ⟨?_, .inl whole⟩
    by_contra late
    have inside := (h.blank (by omega)).2.2
    omega
  · rw [h.reads] at stands
    have time := spaced.time stands
    have order := spaced_le spaced.positive held
    rw [spaced_add] at order
    rw [spaced_succ] at ahead
    have clear : target + step < first + s.emitted * step := by omega
    refine ⟨?_, .inr clear⟩
    by_contra late
    have same : front = s.emitted := by omega
    have passed := (h.blank same).2.1
    have positive := spaced.positive
    rw [same] at passed
    omega

/-- Within the span of the table no distance overflows. -/
theorem strip_reaches (spaced : Spaced table first step)
    (h : s.Strip table first step width height front) (late : first ≤ target)
    (inRange : target ≤ first + table.length * step)
    (span : table.length * step ≤ 9223372036854775807) : s.queue.reaches target = true := by
  rw [FrameQueue.reaches, List.all_eq_true, h.frames]
  intro f member
  obtain ⟨x, taken, rfl⟩ := List.mem_map.mp member
  obtain ⟨j, -, -, stands⟩ := mem_between.mp taken
  have time := spaced.time stands
  have order := spaced_lt spaced.positive (List.getElem?_eq_some_iff.mp stands).1
  have above := spaced_le spaced.positive (Nat.zero_le j)
  have positive := spaced.positive
  change decide (Fits ((x.timestamp - target).natAbs : Int)) = true
  exact decide_eq_true ⟨by omega, by omega⟩

/-- The nearest of the samples in the queue is the nearest of all: what is not in it any more is
further away than the front, and what is not in it yet than the back. -/
theorem track_nearest (spaced : Spaced table first step) (placed : s.Placed table false tuning place)
    (h : s.Track table first step width height target horizon front) (shown : front < s.emitted)
    (clear : s.emitted = table.length ∨ target + step < first + s.emitted * step) {x : Sample}
    (nearest : ∀ {j : Nat} {y : Sample}, front ≤ j → j < s.emitted → table[j]? = some y →
      (x.timestamp - target).natAbs ≤ (y.timestamp - target).natAbs) :
    ∀ y ∈ table, (x.timestamp - target).natAbs ≤ (y.timestamp - target).natAbs := by
  have inside := h.inside
  have positive := spaced.positive
  intro y member
  obtain ⟨j, at_j⟩ := List.mem_iff_getElem?.mp member
  have time := spaced.time at_j
  by_cases before : j < front
  · have at_front := List.getElem?_eq_getElem (show front < table.length by omega)
    have closer := nearest (le_refl front) shown at_front
    have time' := spaced.time at_front
    have order := spaced_lt positive before
    have near := h.near
    have half := (placed_half spaced placed).2
    omega
  · by_cases within : j < s.emitted
    · exact nearest (Nat.not_lt.mp before) within at_j
    · have at_back := List.getElem?_eq_getElem (show s.emitted - 1 < table.length by omega)
      have closer := nearest (by omega) (by omega) at_back
      have time' := spaced.time at_back
      have split := spaced_succ step (s.emitted - 1)
      have order := spaced_le positive (Nat.not_lt.mp within)
      have in_table := (List.getElem?_eq_some_iff.mp at_j).1
      rw [Nat.sub_add_cancel (show 1 ≤ s.emitted by omega)] at split
      omega

/-- A frame of the queue is that of its sample. -/
theorem Strip.frame (h : s.Strip table first step width height front) {k : Nat}
    (early : front + k < s.emitted) :
    s.queue.frames[k]? = (table[front + k]?).map (Sample.shot width height) := by
  rw [h.frames, List.getElem?_map, List.getElem?_drop, List.getElem?_take_of_lt early]

/-- The picked frame becomes the front. -/
theorem strip_pick (spaced : Spaced table first step) (placed : s.Placed table false tuning place)
    (h : s.Strip table first step width height front) (shown : front < s.emitted) (target : Int) :
    ∃ k x, s.queue.nearest target = some k ∧ front + k < s.emitted ∧ table[front + k]? = some x ∧
      (s.pick target).1 = some (x.shot width height) ∧
      (s.pick target).2.Strip table first step width height (front + k) := by
  have forward : s.pick target = ((s.queue.pick target).1, s.requeue (s.queue.pick target).2 0) := by
    rw [pick_eq]
    simp [placed.direction]
  have length : s.queue.frames.length = s.emitted - front := by
    rw [h.frames, List.length_map, take_drop_length h.inside]
  rcases s.queue.pick_spec target with ⟨empty, -⟩ | ⟨k, f, found, stands, eq⟩
  · rw [empty, List.length_nil] at length
    omega
  have early : front + k < s.emitted := by
    have inside := (List.getElem?_eq_some_iff.mp stands).1
    omega
  rw [h.frame early, Option.map_eq_some_iff] at stands
  obtain ⟨x, at_k, rfl⟩ := stands
  refine ⟨k, x, found, early, at_k, ?_,
    ⟨pick_window target h.window, h.reads, h.wide, h.high, early.le, ?_, fun _ => ?_⟩⟩
  · rw [forward, eq]
  · rw [forward, eq]
    change s.queue.frames.drop k = _
    rw [h.frames, ← List.map_drop, List.drop_drop]
    rfl
  · have young := h.young shown
    have order := spaced_le spaced.positive (Nat.le_add_right front k)
    change s.floor ≤ _
    omega

/-- The picked frame is that of a sample to which no other is nearer, and becomes the front. -/
theorem track_pick (spaced : Spaced table first step) (placed : s.Placed table false tuning place)
    (h : s.Track table first step width height target horizon front) (shown : front < s.emitted)
    (clear : s.emitted = table.length ∨ target + step < first + s.emitted * step) :
    ∃ i x, i < s.emitted ∧ table[i]? = some x ∧
      (s.pick target).1 = some (x.shot width height) ∧
      (s.pick target).2.Strip table first step width height i ∧
      ∀ y ∈ table, (x.timestamp - target).natAbs ≤ (y.timestamp - target).natAbs := by
  obtain ⟨k, x, found, early, at_k, picked, strip⟩ := strip_pick spaced placed h.toStrip shown target
  refine ⟨front + k, x, early, at_k, picked, strip, track_nearest spaced placed h shown clear ?_⟩
  intro j y after before at_j
  obtain ⟨f, stands, least, -⟩ := FrameQueue.nearest_spec found
  rw [h.frame early, at_k] at stands
  cases stands
  have member : y.shot width height ∈ s.queue.frames := by
    rw [h.frames]
    exact List.mem_map.mpr ⟨y, mem_between.mpr ⟨j, after, before, at_j⟩, rfl⟩
  exact least _ member

end Pick

/-- Every target is reached, and picks the frame of a sample to which no other is nearer. -/
def Follows (table : List Sample) (tuning : SlotTuning) (width height : Nat) :
    List Int → Slot → Clock → Prop
  | [], _, _ => True
  | target :: rest, s, clock =>
    ∃ outcome after later, s.advance tuning target clock = (.ok outcome, after, later) ∧
      ∃ x ∈ table, ∃ shown, after.pick? target = some (some (x.shot width height), shown) ∧
        (∀ y ∈ table, (x.timestamp - target).natAbs ≤ (y.timestamp - target).natAbs) ∧
        Follows table tuning width height rest shown later

/-- What is reckoned for targets from one to another has room: the window and the count of frames to
open a slot, the floor of the first target and the horizon of the last. -/
structure Ample (step : Int) (tuning : SlotTuning) (low high : Int) : Prop where
  window : tuning.lookahead + max tuning.tolerance step ≤ 9223372036854775807
  count : (tuning.lookahead + max tuning.tolerance step) / step + tuning.depth + 2 <
    18446744073709551616
  floor : -9223372036854775808 ≤ low - max tuning.tolerance step
  horizon : high + tuning.lookahead ≤ 9223372036854775807

section Run
variable {table : List Sample} {first step : Int} {width height depth : Nat} {tuning : SlotTuning}
  {target : Int} {s : Slot}

/-- A slot whose advance to a target begins on the way to it. -/
structure Apt (table : List Sample) (first step : Int) (width height depth : Nat)
    (tuning : SlotTuning) (target : Int) (s : Slot) : Prop where
  feedable : s.Feedable depth
  window : s.Window
  placed : ∃ place, s.Placed table false tuning place
  aims : ∃ place front, (s.aimed target).Placed table false tuning place ∧
    (s.aimed target).Track table first step width height target (target + tuning.lookahead) front

theorem sought_track (spaced : Spaced table first step) {place : Int}
    (placed : s.Placed table false tuning place) (late : first ≤ target)
    (ahead : 0 ≤ tuning.lookahead) :
    ∃ front, (s.seek target).Track table first step s.decoder.width s.decoder.height target
      (target + tuning.lookahead) front :=
  ⟨_, fresh_track spaced (seek_placed target placed) (seek_window s target) rfl rfl late (by omega)⟩

theorem spaced_feedable (spaced : Spaced table first step) (clip : String) {d : Decoder}
    (tuning : SlotTuning) (target : Int) (sound : d.Sound depth) (intact : d.corrupt = none) :
    (start clip table d false tuning target).Feedable depth := by
  refine start_feedable clip false tuning target sound intact ?_ spaced.keyframes_nonempty
  intro x member
  obtain ⟨i, stands⟩ := List.mem_iff_getElem?.mp member
  exact (spaced.regular i x stands).2.2

theorem start_apt (spaced : Spaced table first step) (clip : String) {d : Decoder}
    (sound : d.Sound depth) (waits : d.waiting = []) (unflushed : d.flushing = false)
    (intact : d.corrupt = none) (late : first ≤ target) (ahead : 0 ≤ tuning.lookahead) :
    (start clip table d false tuning target).Apt table first step d.width d.height depth tuning
      target := by
  have placed : (start clip table d false tuning target).Placed table false tuning target :=
    start_placed clip d
  have window := start_window clip table d false tuning target waits unflushed
  refine ⟨?_, window, ⟨target, placed⟩, ?_⟩
  · exact spaced_feedable spaced clip tuning target sound intact
  · unfold aimed
    split
    · obtain ⟨front, track⟩ := sought_track spaced placed late ahead
      exact ⟨target, front, seek_placed target placed, track⟩
    · exact ⟨target, _, placed, fresh_track spaced placed window rfl rfl late (by omega)⟩

/-- Between two calls the queue shows a frame and the decoder has nothing to give. -/
theorem settled_apt (spaced : Spaced table first step) {place horizon : Int} {front : Nat}
    (feedable : s.Feedable depth) (placed : s.Placed table false tuning place)
    (h : s.Strip table first step width height front) (shown : front < s.emitted)
    (settled : s.Settled horizon) (late : first ≤ target) (ahead : 0 ≤ tuning.lookahead) :
    s.Apt table first step width height depth tuning target := by
  refine ⟨feedable, h.window, ⟨place, placed⟩, ?_⟩
  unfold aimed
  split
  · obtain ⟨front, track⟩ := sought_track spaced placed late ahead
    rw [h.wide, h.high] at track
    exact ⟨target, front, seek_placed target placed, track⟩
  · rename_i stays
    refine ⟨place, front, placed, h, ?_, fun empty => by omega, .inr ⟨settled.quiet, settled.drained⟩⟩
    have inside := h.inside
    have stands := List.getElem?_eq_getElem (show front < table.length by omega)
    have head : s.queue.front? = some (first + front * step) := by
      rw [FrameQueue.front?, h.frames, List.head?_map, List.head?_drop,
        List.getElem?_take_of_lt shown, stands, ← spaced.time stands]
      rfl
    by_contra far
    apply stays
    have older : target + s.halfFrame < first + front * step := by omega
    simp [needsSeek, placed.direction, head, older]

section Ample
variable {low high : Int}

theorem Ample.reckons (ample : Ample step tuning low high) (spaced : Spaced table first step)
    {place : Int} (placed : s.Placed table false tuning place) (far : step ≤ tuning.lookahead)
    (late : low ≤ target) (inRange : target ≤ high) : s.Reckons tuning target := by
  have positive := spaced.positive
  have half := placed_half spaced placed
  have margin : step ≤ max tuning.tolerance step := le_max_right _ _
  obtain ⟨-, -, above, below⟩ := ample
  refine ⟨fun _ _ _ => ⟨by omega, by omega⟩, fun _ => ?_, ⟨by omega, by omega⟩⟩
  rw [(seek_placed target placed).drops, spaced.floor_eq]
  exact ⟨by omega, by omega⟩

theorem Ample.opens (ample : Ample step tuning low high) (spaced : Spaced table first step)
    (far : step ≤ tuning.lookahead) (late : low ≤ target) (inRange : target ≤ high) :
    Opens table false tuning target := by
  have positive := spaced.positive
  have margin : step ≤ max tuning.tolerance step := le_max_right _ _
  obtain ⟨wide, count, above, below⟩ := ample
  rw [opens_iff (by omega) (by rw [spaced.nominal]; exact positive), spaced.measured_eq,
    spaced.window_eq, room, spaced.nominal]
  refine ⟨by simp, .inr ⟨by omega, wide⟩, by simpa using count, ?_⟩
  change Fits (target - max tuning.tolerance step)
  exact ⟨by omega, by omega⟩

/-- What is opened at a target and reaches another had room for both. -/
theorem ample_of (spaced : Spaced table first step) (far : step ≤ tuning.lookahead)
    (opens : Opens table false tuning low) (horizon : Fits (high + tuning.lookahead)) :
    Ample step tuning low high := by
  have positive := spaced.positive
  have floor := opens.floor.low
  rw [opens_iff (by omega) (by rw [spaced.nominal]; exact positive), spaced.window_eq, room,
    spaced.nominal] at opens
  obtain ⟨-, wide, count, -⟩ := opens
  rw [spaced.nominal] at floor
  exact ⟨(wide.resolve_left Bool.false_ne_true).high, by simpa using count, floor, horizon.high⟩

end Ample

/-- One advance and its pick, after which the slot is apt for whatever target comes next. -/
theorem apt_step (spaced : Spaced table first step)
    (ample : Ample step tuning first (first + table.length * step))
    (span : table.length * step ≤ 9223372036854775807)
    (deep : depth < max tuning.depth 1) (ahead : (depth + 1 : Nat) * step ≤ tuning.lookahead)
    (clock : Clock) (h : s.Apt table first step width height depth tuning target)
    (late : first ≤ target) (inRange : target ≤ first + table.length * step) :
    ∃ outcome after, s.advance tuning target clock = (.ok outcome, after, clock) ∧
      ∃ x ∈ table, ∃ shown, after.pick? target = some (some (x.shot width height), shown) ∧
        (∀ y ∈ table, (x.timestamp - target).natAbs ≤ (y.timestamp - target).natAbs) ∧
        ∀ next, first ≤ next → shown.Apt table first step width height depth tuning next := by
  have positive := spaced.positive
  have far : step ≤ tuning.lookahead := by
    have one := spaced_le positive (Nat.le_add_left 1 depth)
    omega
  have margin : step ≤ max tuning.tolerance step := le_max_right _ _
  obtain ⟨_, here⟩ := h.placed
  have keyframes := spaced.keyframes_nonempty
  rw [← here.reads] at keyframes
  obtain ⟨outcome, after, reached⟩ := advance_succeeds tuning target h.feedable h.window keyframes
    deep (ample.reckons spaced here far late inRange) clock
  have moves : Moves tuning (target + tuning.lookahead) (s.aimed target) after := by
    have all := advance_moves tuning target s clock h.feedable.opened
    rwa [reached] at all
  have settled := advance_settled tuning target reached
  obtain ⟨place, front, placed, track⟩ := h.aims
  have covers : target + tuning.lookahead + step ≤
      target + (max (capacity table false tuning) 2 : Nat) * step := by
    have cover := spaced.capacity_covers (by omega) ⟨by omega, ample.window⟩
    have more := spaced_le positive (Nat.le_max_left (capacity table false tuning) 2)
    omega
  obtain ⟨placed, front, track⟩ := moves_track spaced inRange covers placed track moves
  have feedable : after.Feedable depth :=
    moves_keep _ move_feedable moves (aimed_keeps (fun h => seek_feedable target h keyframes) h.feedable)
  obtain ⟨shown, clear⟩ := track_settled spaced placed track settled feedable.sound (by omega)
  obtain ⟨i, x, early, stands, picked, strip, nearest⟩ :=
    track_pick spaced placed track shown clear
  have reaches := strip_reaches spaced track.toStrip late inRange span
  refine ⟨outcome, after, reached, x, List.mem_of_getElem? stands, (after.pick target).2,
    pick?_eq_some_iff.mpr ⟨reaches, Prod.ext picked rfl⟩, nearest, fun next late' => ?_⟩
  exact settled_apt spaced (pick_feedable target feedable) (pick_placed target placed) strip early
    (pick_settled target settled) late' (by omega)

theorem follows_apt (spaced : Spaced table first step)
    (ample : Ample step tuning first (first + table.length * step))
    (span : table.length * step ≤ 9223372036854775807)
    (deep : depth < max tuning.depth 1) (ahead : (depth + 1 : Nat) * step ≤ tuning.lookahead)
    (targets : List Int) (clock : Clock)
    (inRange : ∀ target ∈ targets, first ≤ target ∧ target ≤ first + table.length * step)
    (h : ∀ target ∈ targets.head?, s.Apt table first step width height depth tuning target) :
    Follows table tuning width height targets s clock := by
  induction targets generalizing s clock with
  | nil => exact trivial
  | cons target rest ih =>
    obtain ⟨late, within⟩ := inRange target List.mem_cons_self
    obtain ⟨outcome, after, reached, x, member, shown, picked, nearest, apt⟩ :=
      apt_step spaced ample span deep ahead clock (h target rfl) late within
    refine ⟨outcome, after, clock, reached, x, member, shown, picked, nearest, ih clock ?_ ?_⟩
    · exact fun next member => inRange next (List.mem_cons_of_mem _ member)
    · intro next head
      exact apt next (inRange next (List.mem_cons_of_mem _ (List.mem_of_mem_head? head))).1

end Run

section Words
variable {K : Type} {source : Source K} {clip : String} {table : List Sample} {first step : Int}
  {tuning : SlotTuning} {target : Int} {clock : Clock}

/-- A slot can be opened at a target, and follows it and those after it. -/
def OpensAndFollows (source : Source K) (clip : String) (table : List Sample) (tuning : SlotTuning)
    (opening : Int) (rest : List Int) (clock : Clock) : Prop :=
  ∃ s, start? clip table (Decoder.ofSource source) false tuning opening = some s ∧
    Follows table tuning source.width source.height (opening :: rest) s clock

theorem OpensAndFollows.room (h : OpensAndFollows source clip table tuning target [] clock) :
    Opens table false tuning target ∧ Fits (target + tuning.lookahead) := by
  obtain ⟨s, opened, outcome, after, later, reached, -⟩ := h
  exact ⟨(start?_eq_some_iff.mp opened).1, (advance_begun tuning reached).2.horizon⟩

/-- If forward playback follows every sequence of targets within the table, then there is ample room
for them; and with ample room it does, for a table whose span is a word. -/
theorem forward_playback_follows_iff (healthy : source.stalled = false)
    (intact : source.corrupt = none) (spaced : Spaced table first step)
    (words : ∀ x ∈ table, Fits x.timestamp) (deep : source.reorderDepth < max tuning.depth 1)
    (ahead : (source.reorderDepth + 1 : Nat) * step ≤ tuning.lookahead) :
    ((∀ opening rest, (∀ target ∈ opening :: rest, Fits target ∧
          first ≤ target ∧ target ≤ first + table.length * step) →
        OpensAndFollows source clip table tuning opening rest clock) →
      Ample step tuning first (first + table.length * step)) ∧
    (table.length * step ≤ 9223372036854775807 →
      Ample step tuning first (first + table.length * step) →
      ∀ opening rest, (∀ target ∈ opening :: rest, Fits target ∧
          first ≤ target ∧ target ≤ first + table.length * step) →
        OpensAndFollows source clip table tuning opening rest clock) := by
  have positive := spaced.positive
  have one := spaced_le positive (Nat.le_add_left 1 source.reorderDepth)
  have long := spaced_le positive spaced.nonempty
  constructor
  · intro all
    obtain ⟨x, stands, -⟩ := spaced.opens
    have word := words x (List.mem_of_getElem? stands)
    rw [spaced.time stands] at word
    obtain ⟨low, high⟩ := word
    -- the last target that is a word is the last one there is
    have last := (all (min (first + table.length * step) 9223372036854775807) []
      (by simpa using ⟨⟨by omega, by omega⟩, by omega⟩)).room.2
    have below := last.high
    rw [min_eq_left (by omega)] at last
    exact ample_of spaced (by omega)
      (all first [] (by simpa using ⟨⟨by omega, by omega⟩, by omega⟩)).room.1 last
  · intro span ample opening rest inRange
    obtain ⟨-, late, within⟩ := inRange opening List.mem_cons_self
    have sound : (Decoder.ofSource source).Sound source.reorderDepth := ⟨rfl, healthy, rfl⟩
    refine ⟨_, start?_eq_some_iff.mpr ⟨ample.opens spaced (by omega) late within, rfl⟩, ?_⟩
    refine follows_apt spaced ample span deep ahead (opening :: rest) clock
      (fun target member => (inRange target member).2) ?_
    intro target head
    cases head
    exact start_apt spaced clip sound rfl rfl intact late (by omega)

theorem twoGroups_spaced : Spaced twoGroups 0 100000 where
  positive := by decide
  opens := ⟨_, rfl, rfl⟩
  regular := by
    intro i x stands
    rcases i with _ | _ | _ | i
    · cases stands
      exact ⟨rfl, rfl, rfl⟩
    · cases stands
      exact ⟨rfl, rfl, rfl⟩
    · cases stands
      exact ⟨rfl, rfl, rfl⟩
    · cases stands

def oneStep : SlotTuning := ⟨100000, 35000, 4, 100000⟩

theorem forward_playback_follows_iff_oneStep :
    promptSource.stalled = false ∧ promptSource.corrupt = none ∧ Spaced twoGroups 0 100000 ∧
      (∀ x ∈ twoGroups, Fits x.timestamp) ∧ promptSource.reorderDepth < max oneStep.depth 1 ∧
      (promptSource.reorderDepth + 1 : Nat) * 100000 ≤ oneStep.lookahead ∧
      Ample 100000 oneStep 0 300000 ∧
      OpensAndFollows promptSource "c1" twoGroups oneStep 250000 [40000, 300000, 0]
        (Clock.stepping 1000) := by
  have words : ∀ x ∈ twoGroups, Fits x.timestamp := by decide
  have ample : Ample 100000 oneStep 0 300000 :=
    ⟨by decide, by decide, by decide, by decide⟩
  refine ⟨rfl, rfl, twoGroups_spaced, words, by decide, by decide, ample, ?_⟩
  exact (forward_playback_follows_iff rfl rfl twoGroups_spaced words (by decide) (by decide)).2
    (by decide) ample 250000 [40000, 300000, 0] (by decide)

/-- Under the longest lookahead with which a slot can be opened, the advance to the second group
overflows. -/
theorem advance_overflows_at_second_group :
    Spaced twoGroups 0 100000 ∧ promptSource.reorderDepth < max overlong.depth 1 ∧
      (promptSource.reorderDepth + 1 : Nat) * 100000 ≤ overlong.lookahead ∧
      start? "c1" twoGroups (Decoder.ofSource promptSource) false overlong 200000 =
        some (overlongSlot 200000) ∧
      ((overlongSlot 200000).advance overlong 200000 (Clock.stepping 1000)).1 = .error .overflow :=
  ⟨twoGroups_spaced, by decide, by decide, start?_eq_some_iff.mpr ⟨by decide, rfl⟩, rfl⟩

end Words

end Montage.Slot
