import Montage.Proofs.Stream.Groups
import Montage.Proofs.Stream.Track

/- What a reversed slot holds: nothing yet, what came out so far, then all of a group. What a pick
   drops from it is newer than the frame the pick gives, and no target that comes later, but is not
   later itself, is nearer to it. -/
namespace Montage.Slot

/-- Tables whose groups start with their earliest sample, the first of them at the first sample. -/
structure Grouped (table : List Sample) : Prop where
  opens : ∃ x, table.head? = some x ∧ x.keyframe = true
  earliest : ∀ k ∈ Sample.keyframes table, ∀ y, table[k]? = some y →
    ∀ x ∈ Sample.group table k, y.timestamp ≤ x.timestamp
  whole : ∀ x ∈ table, x.payload.length = 8

/-- A target not before the first sample. -/
def Late (table : List Sample) (target : Int) : Prop :=
  ∀ x, table.head? = some x → x.timestamp ≤ target

section Table
variable {table : List Sample} {tuning : SlotTuning} {place target : Int}

theorem Grouped.keyframes_nonempty (grouped : Grouped table) : Sample.keyframes table ≠ [] := by
  obtain ⟨x, opens, keyframe⟩ := grouped.opens
  rw [List.head?_eq_getElem?] at opens
  exact List.ne_nil_of_mem (Sample.mem_keyframes.mpr ⟨x, opens, keyframe⟩)

theorem Grouped.keyframe (grouped : Grouped table) (target : Int) :
    Sample.keyframeAtOrBefore table target ∈ Sample.keyframes table :=
  Sample.keyframeAtOrBefore_mem target grouped.keyframes_nonempty

theorem Grouped.reached (grouped : Grouped table) (late : Late table target) :
    ∃ y, table[Sample.keyframeAtOrBefore table target]? = some y ∧ y.timestamp ≤ target := by
  obtain ⟨x, opens, keyframe⟩ := grouped.opens
  obtain ⟨y, stands, -, before⟩ :=
    Sample.keyframeAtOrBefore_reached opens keyframe (late x opens)
  exact ⟨y, stands, before⟩

theorem mem_of_group {k : Nat} {x : Sample} (member : x ∈ Sample.group table k) : x ∈ table :=
  List.mem_of_mem_take (List.mem_of_mem_drop member)

theorem first_mem_group {k : Nat} {x : Sample} (stands : table[k]? = some x) :
    x ∈ Sample.group table k :=
  mem_between.mpr
    ⟨k, le_refl _, Sample.lt_groupEnd (List.getElem?_eq_some_iff.mp stands).1, stands⟩

/-- The floor of a slot put at a place drops no frame of the group there. -/
theorem floorAt_le_keyframe (tuning : SlotTuning) {y : Sample}
    (key : table[Sample.keyframeAtOrBefore table place]? = some y) :
    floorAt table true tuning place ≤ y.timestamp := by
  have margin : 0 ≤ max tuning.tolerance (Sample.nominalDuration table) :=
    (Sample.nominalDuration_nonneg table).trans (le_max_right _ _)
  simp only [floorAt, Sample.earliest, key, if_true]
  omega

/-- Its queue holds all of them. -/
theorem group_le_capacity (tuning : SlotTuning) {k : Nat} (member : k ∈ Sample.keyframes table) :
    (Sample.group table k).length ≤ max (capacity table true tuning) 2 := by
  have longest := Sample.group_longest member
  rw [capacity, if_pos rfl]
  omega

end Table

/-- A slot put at a place, with the size of its frames. -/
structure Ready (table : List Sample) (tuning : SlotTuning) (width height depth : Nat) (place : Int)
    (s : Slot) : Prop where
  feedable : s.Feedable depth
  window : s.Window
  placed : s.Placed table true tuning place
  wide : s.decoder.width = width
  high : s.decoder.height = height

/-- Nothing was fed yet. -/
structure Blank (table : List Sample) (tuning : SlotTuning) (width height depth : Nat) (place : Int)
    (s : Slot) : Prop extends Ready table tuning width height depth place s where
  fresh : s.cursor = s.groupStart
  empty : s.queue.frames = []

/-- Every frame that came out since the last seek is in the queue. -/
structure Filling (table : List Sample) (tuning : SlotTuning) (width height depth : Nat)
    (place : Int) (s : Slot) : Prop extends Ready table tuning width height depth place s where
  frames : s.queue.frames.Perm
    (((table.take s.emitted).drop s.groupStart).map (Sample.shot width height))
  ascending : FrameQueue.Ascending s.queue.frames

/-- The whole group came out, and what the picks of these targets dropped is no nearer to any time
that is not later than them. -/
structure Loaded (table : List Sample) (tuning : SlotTuning) (width height depth : Nat)
    (place : Int) (handled : List Int) (s : Slot) : Prop
    extends Ready table tuning width height depth place s where
  fed : s.feedEnd ≤ s.cursor
  quiet : s.decoder.next = none
  flushed : s.flushed = true
  own : ∀ f ∈ s.queue.frames,
    ∃ x ∈ Sample.group table (Sample.keyframeAtOrBefore table place), f = x.shot width height
  ascending : FrameQueue.Ascending s.queue.frames
  near : ∀ time, (∀ earlier ∈ handled, time ≤ earlier) →
    ∀ y ∈ Sample.group table (Sample.keyframeAtOrBefore table place),
      ∃ f ∈ s.queue.frames, (f.timestamp - time).natAbs ≤ (y.timestamp - time).natAbs

section Moves
variable {table : List Sample} {tuning : SlotTuning} {width height depth : Nat} {place target : Int}
  {horizon : Int} {s after : Slot}

theorem move_ready (move : Move tuning horizon s after)
    (h : s.Ready table tuning width height depth place) :
    after.Ready table tuning width height depth place := by
  have feedable := move_feedable move h.feedable
  have window := move_window move h.window
  have placed := move_placed move h.placed
  cases move with
  | feed wanted room next taken =>
    rw [Decoder.decode_fields taken] at feedable window placed ⊢
    exact ⟨feedable, window, placed, h.wide, h.high⟩
  | arrive given =>
    obtain ⟨wide, high⟩ := Decoder.next_size given
    rw [receive_fields] at feedable window placed ⊢
    exact ⟨feedable, window, placed, wide.trans h.wide, high.trans h.high⟩
  | flush fed first => exact ⟨feedable, window, placed, h.wide, h.high⟩

theorem Ready.arrival (h : s.Ready table tuning width height depth place) {f : Frame} {d : Decoder}
    (given : s.decoder.next = some (f, d)) :
    ∃ x, table[s.emitted]? = some x ∧ f = x.shot width height ∧ s.groupStart ≤ s.emitted ∧
      s.emitted < Sample.groupEnd table (Sample.keyframeAtOrBefore table place) := by
  obtain ⟨timestamp, index, rest, waits, frame, -⟩ := Decoder.next_fields given
  obtain ⟨early, x, stands, stamp⟩ := h.window.next_sample waits
  obtain ⟨rfl, rfl⟩ := Prod.mk.inj stamp
  rw [h.placed.reads] at stands
  have since := h.window.since
  have fed := h.window.fed
  have stops := h.placed.stops
  rw [if_pos rfl] at stops
  refine ⟨x, stands, ?_, ?_, by omega⟩
  · rw [frame, Decoder.frame, h.wide, h.high]
    rfl
  · unfold emitted
    omega

theorem arrive_filling {f : Frame} {d : Decoder} (grouped : Grouped table)
    (h : s.Filling table tuning width height depth place)
    (given : s.decoder.next = some (f, d)) :
    (receive { s with decoder := d } f).Filling table tuning width height depth place := by
  obtain ⟨x, stands, shown, late, early⟩ := h.toReady.arrival given
  have opens := h.placed.opens
  have inside := (List.getElem?_eq_some_iff.mp stands).1
  have member : x ∈ Sample.group table (Sample.keyframeAtOrBefore table place) :=
    mem_between.mpr ⟨s.emitted, opens ▸ late, early, stands⟩
  obtain ⟨y, key, -⟩ := Sample.mem_keyframes.mp (grouped.keyframe place)
  -- the group's keyframe is its earliest sample, and already not below the floor
  have young : ¬ f.timestamp < s.floor := by
    have floor := floorAt_le_keyframe tuning key
    have order := grouped.earliest _ (grouped.keyframe place) y key x member
    have time : f.timestamp = x.timestamp := congrArg Frame.timestamp shown
    rw [← h.placed.drops] at floor
    omega
  have size : s.queue.size = s.emitted - s.groupStart := by
    rw [FrameQueue.size, h.frames.length_eq, List.length_map, take_drop_length inside.le]
  -- the frames in the queue are those of the group before this one
  have room : s.queue.size < s.queue.capacity := by
    have count := group_le_capacity tuning (grouped.keyframe place)
    rw [Sample.group_length, ← opens] at count
    rw [← opens] at early
    rw [size, h.placed.room]
    omega
  have same : receive { s with decoder := d } f =
      ({ s with decoder := d } : Slot).requeue (s.queue.push f) 1 := if_neg young
  have arrived : Move tuning 0 s (receive { s with decoder := d } f) := .arrive given
  have ready := move_ready arrived h.toReady
  have emitted := (receive_window h.window given).2
  rw [same] at ready emitted ⊢
  refine ⟨ready, ?_, ?_⟩
  · rw [emitted]
    change (s.queue.push f).frames.Perm (((table.take (s.emitted + 1)).drop s.groupStart).map _)
    rw [FrameQueue.push_frames f room, take_drop_snoc late stands, List.map_append, shown]
    refine (FrameQueue.insert_perm _ _).trans ?_
    exact (h.frames.cons _).trans (List.perm_append_singleton _ _).symm
  · change FrameQueue.Ascending (s.queue.push f).frames
    rw [FrameQueue.push_frames f room]
    exact FrameQueue.insert_ascending f h.ascending

theorem move_filling (grouped : Grouped table)
    (move : Move tuning horizon s after) (h : s.Filling table tuning width height depth place) :
    after.Filling table tuning width height depth place := by
  have ready := move_ready move h.toReady
  cases move with
  | feed wanted room next taken =>
    refine ⟨ready, ?_, h.ascending⟩
    rw [(feed_window h.window wanted next taken).2]
    exact h.frames
  | arrive given => exact arrive_filling grouped h given
  | flush fed first => exact ⟨ready, h.frames, h.ascending⟩

theorem blank_filling (h : s.Blank table tuning width height depth place) :
    s.Filling table tuning width height depth place := by
  have since := h.window.since
  have fresh := h.fresh
  have same : s.emitted = s.groupStart := by
    unfold emitted
    omega
  refine ⟨h.toReady, ?_, ?_⟩
  · rw [h.empty, same]
    simp
  · rw [h.empty]
    exact List.Pairwise.nil

theorem Ready.settled (h : s.Ready table tuning width height depth place)
    (settled : s.Settled horizon) :
    s.feedEnd ≤ s.cursor ∧ s.flushed = true ∧
      s.emitted = Sample.groupEnd table (Sample.keyframeAtOrBefore table place) := by
  have stops := h.placed.stops
  rw [if_pos rfl] at stops
  -- a reversed slot feeds to the end of the group, whatever the horizon
  rcases h.window.sated settled.sated with done | ⟨forward, -⟩
  · have drained := settled.drained done.ge
    have emptied := (settled.emitted_bounds h.window h.feedable.sound).2 done.ge
    exact ⟨done.ge, drained, by omega⟩
  · rw [h.placed.direction] at forward
    cases forward

theorem filling_loaded
    (h : s.Filling table tuning width height depth place) (settled : s.Settled horizon) :
    s.Loaded table tuning width height depth place [] ∧
      s.queue.frames.Perm ((Sample.group table (Sample.keyframeAtOrBefore table place)).map
        (Sample.shot width height)) := by
  obtain ⟨fed, flushed, emitted⟩ := h.toReady.settled settled
  have frames := h.frames
  rw [emitted, h.placed.opens] at frames
  refine ⟨⟨h.toReady, fed, settled.quiet, flushed, ?_, h.ascending, ?_⟩, frames⟩
  · intro f member
    obtain ⟨x, listed, rfl⟩ := List.mem_map.mp (frames.mem_iff.mp member)
    exact ⟨x, listed, rfl⟩
  · intro time _ y member
    exact ⟨y.shot width height, frames.mem_iff.mpr (List.mem_map_of_mem member), le_refl _⟩

end Moves

section Calls
variable {table : List Sample} {tuning : SlotTuning} {width height depth : Nat}
  {place target : Int} {handled : List Int} {s after : Slot} {clock later : Clock} {outcome : Advanced}

theorem needsSeek_iff (h : s.Placed table true tuning place) : s.needsSeek target = true ↔
    target < floorAt table true tuning place ∨
      Sample.keyframeAtOrBefore table target ≠ Sample.keyframeAtOrBefore table place := by
  unfold needsSeek
  rw [h.reads, h.direction, h.opens, h.drops]
  split
  · simp [*]
  · simp [*]

theorem seek_blank (grouped : Grouped table) (h : s.Ready table tuning width height depth place)
    (target : Int) : (s.seek target).Blank table tuning width height depth target := by
  have keyframes := grouped.keyframes_nonempty
  rw [← h.placed.reads] at keyframes
  exact ⟨⟨seek_feedable target h.feedable keyframes, seek_window s target,
    seek_placed target h.placed, h.wide, h.high⟩, rfl, rfl⟩

theorem start_blank (grouped : Grouped table) (clip : String) {d : Decoder} {opening : Int}
    (sound : d.Sound depth) (waits : d.waiting = []) (unflushed : d.flushing = false)
    (intact : d.corrupt = none) :
    (start clip table d true tuning opening).Blank table tuning d.width d.height depth opening :=
  ⟨⟨start_feedable clip true tuning opening sound intact grouped.whole grouped.keyframes_nonempty,
    start_window clip table d true tuning opening waits unflushed, start_placed clip d, rfl, rfl⟩,
    rfl, rfl⟩

theorem advance_reaches (grouped : Grouped table) (deep : depth < max tuning.depth 1)
    (h : s.Ready table tuning width height depth place) (reckons : s.Reckons tuning target)
    (clock : Clock) :
    ∃ outcome after, s.advance tuning target clock = (.ok outcome, after, clock) := by
  have keyframes := grouped.keyframes_nonempty
  rw [← h.placed.reads] at keyframes
  exact advance_succeeds tuning target h.feedable h.window keyframes deep reckons clock

/-- An advance that begins with nothing fed brings the whole group. -/
theorem advance_loads (grouped : Grouped table) (opened : s.closed = false)
    (blank : (s.aimed target).Blank table tuning width height depth place)
    (reached : s.advance tuning target clock = (.ok outcome, after, later)) :
    after.Loaded table tuning width height depth place [] ∧
      after.queue.frames.Perm ((Sample.group table (Sample.keyframeAtOrBefore table place)).map
        (Sample.shot width height)) := by
  have moves := advance_moves tuning target s clock opened
  rw [reached] at moves
  have filling : after.Filling table tuning width height depth place :=
    moves_keep _ (move_filling grouped) moves (blank_filling blank)
  exact filling_loaded filling (advance_settled tuning target reached)

theorem advance_resets (opened : s.closed = false)
    (reached : s.advance tuning target clock = (.ok outcome, after, later)) :
    after.decoder.usage.resets = (s.aimed target).decoder.usage.resets := by
  have moves := advance_moves tuning target s clock opened
  rw [reached] at moves
  exact moves_keep (fun x => x.decoder.usage.resets = (s.aimed target).decoder.usage.resets)
    (fun move same => (move_resets move).trans same) moves rfl

theorem Loaded.still (h : s.Loaded table tuning width height depth place handled) {horizon : Int}
    (moves : Moves tuning horizon s after) : after = s := by
  rcases moves.cases_head with same | ⟨next, move, -⟩
  · exact same.symm
  · cases move with
    | feed wanted room next taken =>
      have early := (wants_spec wanted).1
      have fed := h.fed
      omega
    | arrive given =>
      rw [h.quiet] at given
      cases given
    | flush fed first =>
      rw [h.flushed] at first
      cases first

/-- The floor is before the group, so that only a target in another group needs a seek. -/
theorem needsSeek_late_iff (grouped : Grouped table) (late : Late table target)
    (placed : s.Placed table true tuning place) : s.needsSeek target = true ↔
      Sample.keyframeAtOrBefore table target ≠ Sample.keyframeAtOrBefore table place := by
  refine (needsSeek_iff placed).trans (or_iff_right_of_imp fun old same => ?_)
  obtain ⟨y, stands, before⟩ := grouped.reached late
  have floor := floorAt_le_keyframe tuning (same ▸ stands)
  omega

theorem aimed_stays (grouped : Grouped table) (late : Late table target)
    (placed : s.Placed table true tuning place)
    (same : Sample.keyframeAtOrBefore table target = Sample.keyframeAtOrBefore table place) :
    s.aimed target = s :=
  if_neg fun seeks => (needsSeek_late_iff grouped late placed).mp seeks same

/-- What is reckoned for a target: its horizon, and its floor if it is in another group. -/
theorem reckons_late_iff (grouped : Grouped table) (late : Late table target)
    (placed : s.Placed table true tuning place) : s.Reckons tuning target ↔
      Fits (target + tuning.lookahead) ∧
      (Sample.keyframeAtOrBefore table target ≠ Sample.keyframeAtOrBefore table place →
        Fits (floorAt table true tuning target)) := by
  have floor : (s.seek target).floor = floorAt table true tuning target :=
    (seek_placed target placed).drops
  have seeks := needsSeek_late_iff grouped late placed
  constructor
  · exact fun h => ⟨h.horizon, fun other => floor ▸ h.floor (seeks.mpr other)⟩
  · rintro ⟨horizon, word⟩
    refine ⟨fun _ forward => ?_, fun left => floor ▸ word (seeks.mp left), horizon⟩
    rw [placed.direction] at forward
    cases forward

theorem advance_stays (grouped : Grouped table) (late : Late table target)
    (h : s.Loaded table tuning width height depth place handled)
    (same : Sample.keyframeAtOrBefore table target = Sample.keyframeAtOrBefore table place)
    (reached : s.advance tuning target clock = (.ok outcome, after, later)) : after = s := by
  have moves := advance_moves tuning target s clock h.feedable.opened
  rw [aimed_stays grouped late h.placed same, reached] at moves
  exact h.still moves

end Calls

section Picks
variable {table : List Sample} {tuning : SlotTuning} {width height depth : Nat}
  {place target : Int} {handled : List Int} {s after : Slot} {clock later : Clock} {outcome : Advanced}

/-- A frame that is not nearer to a target, and newer, is not nearer to any time before it. -/
theorem nearer_before {older newer target time : Int} (order : older ≤ newer)
    (near : (older - target).natAbs ≤ (newer - target).natAbs) (early : time ≤ target) :
    (older - time).natAbs ≤ (newer - time).natAbs := by
  omega

theorem pick_ready (h : s.Ready table tuning width height depth place) (target : Int) :
    (s.pick target).2.Ready table tuning width height depth place :=
  ⟨pick_feedable target h.feedable, pick_window target h.window, pick_placed target h.placed, h.wide,
    h.high⟩

/-- Cutting a queue behind its frame nearest to a target loses nothing for the times before it. -/
theorem near_cut {frames : List Frame} {i : Nat} {f g : Frame} {time : Int}
    (ascending : FrameQueue.Ascending frames) (stands : frames[i]? = some f)
    (nearest : ∀ g ∈ frames, (f.timestamp - target).natAbs ≤ (g.timestamp - target).natAbs)
    (early : time ≤ target) (listed : g ∈ frames) :
    ∃ h ∈ frames.take (i + 1), (h.timestamp - time).natAbs ≤ (g.timestamp - time).natAbs := by
  obtain ⟨j, at_j⟩ := List.mem_iff_getElem?.mp listed
  rcases Nat.lt_or_ge i j with later | earlier
  · -- the frame is cut, and the nearest one takes its place
    obtain ⟨inside, rfl⟩ := List.getElem?_eq_some_iff.mp stands
    obtain ⟨inside', rfl⟩ := List.getElem?_eq_some_iff.mp at_j
    have order := List.pairwise_iff_getElem.mp ascending i j inside inside' later
    refine ⟨frames[i], List.mem_iff_getElem?.mpr ⟨i, ?_⟩, ?_⟩
    · rw [List.getElem?_take_of_lt (Nat.lt_succ_self i)]
      exact stands
    · exact nearer_before order (nearest _ listed) early
  · refine ⟨g, List.mem_iff_getElem?.mpr ⟨j, ?_⟩, le_refl _⟩
    rw [List.getElem?_take_of_lt (by omega)]
    exact at_j

/-- A pick finds the queue empty, or gives its nearest frame and drops what is newer. -/
theorem Loaded.pick_cases
    (h : s.Loaded table tuning width height depth place handled) :
    s.queue.frames = [] ∧ (s.pick target).2.queue.frames = [] ∨
      ∃ i f, s.queue.frames[i]? = some f ∧ (s.pick target).1 = some f ∧
        (s.pick target).2.queue.frames = s.queue.frames.take (i + 1) ∧
        ∀ g ∈ s.queue.frames,
          (f.timestamp - target).natAbs ≤ (g.timestamp - target).natAbs := by
  have given : (s.pick target).1 = (s.queue.pickDescending target).1 := by
    rw [pick_eq, h.placed.direction]
    rfl
  have left : (s.pick target).2.queue = (s.queue.pickDescending target).2 := by
    rw [pick_eq, h.placed.direction]
    rfl
  rcases s.queue.pickDescending_spec target with ⟨empty, eq⟩ | ⟨i, f, found, stands, eq⟩
  · exact .inl ⟨empty, by rw [left, eq, empty]⟩
  · obtain ⟨f', at_i, least, -⟩ := FrameQueue.nearest_spec found
    rw [stands] at at_i
    cases at_i
    exact .inr ⟨i, f, stands, by rw [given, eq], by rw [left, eq], least⟩

theorem pick_loaded
    (h : s.Loaded table tuning width height depth place handled) :
    (s.pick target).2.Loaded table tuning width height depth place (target :: handled) := by
  have ready := pick_ready h.toReady target
  have quiet : (s.pick target).2.decoder.next = none := release_quiet _ h.quiet
  rcases h.pick_cases with ⟨empty, left⟩ | ⟨i, f, stands, -, left, nearest⟩
  · rw [← empty] at left
    refine ⟨ready, h.fed, quiet, h.flushed, ?_, ?_, ?_⟩
    · rw [left]
      exact h.own
    · rw [left]
      exact h.ascending
    · rw [left]
      exact fun time early => h.near time fun e member => early e (List.mem_cons_of_mem _ member)
  · refine ⟨ready, h.fed, quiet, h.flushed, ?_, ?_, ?_⟩
    · rw [left]
      exact fun g member => h.own g (List.mem_of_mem_take member)
    · rw [left]
      exact h.ascending.sublist (List.take_sublist _ _)
    · rw [left]
      intro time early y member
      obtain ⟨g, listed, close⟩ :=
        h.near time (fun e inside => early e (List.mem_cons_of_mem _ inside)) y member
      obtain ⟨kept, inside, closer⟩ :=
        near_cut h.ascending stands nearest (early target List.mem_cons_self) listed
      exact ⟨kept, inside, closer.trans close⟩

/-- The pick of a target that is not later than those before it is the nearest of the group. -/
theorem pick_nearest (grouped : Grouped table)
    (h : s.Loaded table tuning width height depth place handled)
    (descends : ∀ earlier ∈ handled, target ≤ earlier) :
    ∃ x ∈ Sample.group table (Sample.keyframeAtOrBefore table place),
      (s.pick target).1 = some (x.shot width height) ∧
      ∀ y ∈ Sample.group table (Sample.keyframeAtOrBefore table place),
        (x.timestamp - target).natAbs ≤ (y.timestamp - target).natAbs := by
  obtain ⟨y, key, -⟩ := Sample.mem_keyframes.mp (grouped.keyframe place)
  rcases h.pick_cases with ⟨empty, -⟩ | ⟨i, f, stands, given, -, nearest⟩
  · obtain ⟨g, listed, -⟩ := h.near target descends y (first_mem_group key)
    rw [empty] at listed
    cases listed
  · obtain ⟨x, listed, rfl⟩ := h.own f (List.mem_of_getElem? stands)
    refine ⟨x, listed, given, ?_⟩
    intro z member
    obtain ⟨g, inside, close⟩ := h.near target descends z member
    exact (nearest g inside).trans close

end Picks

end Montage.Slot
