import Montage.Proofs.Stream.Feeding
import Montage.Proofs.Stream.Presence
import Montage.Proofs.Stream.Spacing

/- A forward slot over evenly spaced samples on its way to a target. Its queue is a run of
   neighbouring frames that ends where the decoder's begins, and whose first one is at most half
   a step after the target: frames are dropped only when the target has passed them. -/
namespace Montage

/-- The frame that decoding a sample gives. -/
def Sample.shot (width height : Nat) (x : Sample) : Frame :=
  ⟨Image.filled width height (Source.color (ofLowBytes x.payload)), x.timestamp⟩

namespace Slot

/-- The queue holds the frames from its front up to where the decoder's begin. -/
structure Strip (table : List Sample) (first step : Int) (width height front : Nat) (s : Slot) :
    Prop where
  window : s.Window
  reads : s.table = table
  wide : s.decoder.width = width
  high : s.decoder.height = height
  ahead : front ≤ s.emitted
  frames : s.queue.frames = ((table.take s.emitted).drop front).map (Sample.shot width height)
  young : front < s.emitted → s.floor ≤ first + front * step

/-- A slot on its way to a target: no frame that could be the nearest was dropped. -/
structure Track (table : List Sample) (first step : Int) (width height : Nat)
    (target horizon : Int) (front : Nat) (s : Slot) : Prop extends
    Strip table first step width height front s where
  near : first + front * step ≤ target + s.halfFrame
  blank : front = s.emitted →
    s.floor + step ≤ target ∧ first + front * step ≤ target ∧ front < table.length
  fed : first + s.cursor * step ≤ horizon + step ∨
    s.decoder.next = none ∧ (s.feedEnd ≤ s.cursor → s.flushed = true)

section Track
variable {table : List Sample} {first step : Int} {width height : Nat} {target horizon : Int}
  {front : Nat} {s : Slot}

theorem feed_track {x : Sample} {d : Decoder} (spaced : Spaced table first step)
    (h : s.Track table first step width height target horizon front) (forward : s.reverse = false)
    (wanted : s.wants horizon = true) (next : s.samples[s.cursor]? = some x)
    (taken : s.decoder.decode x = .ok d) :
    ({ s with decoder := d, cursor := s.cursor + 1 } : Slot).Track table first step width height target
      horizon front := by
  obtain ⟨window, emitted⟩ := feed_window h.window wanted next taken
  have near : x.timestamp ≤ horizon := by
    obtain ⟨-, y, stands, reach⟩ := wants_spec wanted
    rw [← table_get, next] at stands
    cases stands
    simpa [forward] using reach
  rw [table_get, h.reads] at next
  have time := spaced.time next
  refine ⟨⟨window, h.reads, ?_, ?_, ?_, ?_, ?_⟩, h.near, ?_, .inl ?_⟩
  · rw [Decoder.decode_fields taken]
    exact h.wide
  · rw [Decoder.decode_fields taken]
    exact h.high
  · rw [emitted]
    exact h.ahead
  · rw [emitted]
    exact h.frames
  · rw [emitted]
    exact h.young
  · rw [emitted]
    exact h.blank
  · have split := spaced_succ step s.cursor
    change first + ((s.cursor + 1 : Nat) : Int) * step ≤ horizon + step
    omega

theorem Strip.inside (h : s.Strip table first step width height front) : s.emitted ≤ table.length := by
  have ends := h.window.fed.trans h.window.ends
  rw [h.reads] at ends
  unfold emitted
  omega

/-- A frame that arrives is the next sample's, and this sample is not beyond the horizon. -/
theorem Track.arrival {f : Frame} {d : Decoder} (spaced : Spaced table first step)
    (h : s.Track table first step width height target horizon front)
    (given : s.decoder.next = some (f, d)) :
    ∃ x, table[s.emitted]? = some x ∧ f = x.shot width height ∧
      f.timestamp = first + s.emitted * step ∧ first + s.emitted * step ≤ horizon := by
  obtain ⟨timestamp, index, rest, waits, frame, -⟩ := Decoder.next_fields given
  obtain ⟨early, x, stands, stamp⟩ := h.window.next_sample waits
  rw [h.reads] at stands
  obtain ⟨rfl, rfl⟩ := Prod.mk.inj stamp
  have time := spaced.time stands
  refine ⟨x, stands, ?_, ?_, ?_⟩
  · rw [frame, Decoder.frame, h.wide, h.high]
    rfl
  · rw [frame]
    exact time
  · have later := spaced_lt spaced.positive early
    rcases h.fed with fed | ⟨quiet, -⟩
    · omega
    · rw [quiet] at given
      cases given

theorem Track.still_fed {f : Frame} {d : Decoder}
    (h : s.Track table first step width height target horizon front)
    (given : s.decoder.next = some (f, d)) : first + s.cursor * step ≤ horizon + step := by
  rcases h.fed with fed | ⟨quiet, -⟩
  · exact fed
  · rw [quiet] at given
    cases given

/-- A frame older than the floor finds the queue empty, and the front passes it. -/
theorem skip_track {f : Frame} {d : Decoder} (spaced : Spaced table first step)
    (h : s.Track table first step width height target horizon front)
    (inRange : target ≤ first + table.length * step) (half : 0 ≤ s.halfFrame)
    (given : s.decoder.next = some (f, d)) (old : f.timestamp < s.floor) :
    (receive { s with decoder := d } f).Track table first step width height target horizon
      (s.emitted + 1) := by
  obtain ⟨x, stands, -, time, reach⟩ := h.arrival spaced given
  obtain ⟨window, emitted⟩ := receive_window h.window given
  obtain ⟨wide, high⟩ := Decoder.next_size given
  have still := h.still_fed given
  have positive := spaced.positive
  have ahead := h.ahead
  have empty : front = s.emitted := by
    by_contra other
    have young := h.young (by omega)
    have order := spaced_le positive ahead
    omega
  obtain ⟨low, -, -⟩ := h.blank empty
  have split := spaced_succ step s.emitted
  have gone : s.queue.frames = [] := by
    rw [h.frames, empty]
    simp
  have inside : s.emitted + 1 < table.length := by
    by_contra late
    have order := spaced_le positive (Nat.not_lt.mp late)
    omega
  have same : receive { s with decoder := d } f =
      ({ s with decoder := d } : Slot).requeue s.queue 1 := if_pos old
  rw [same] at window emitted ⊢
  refine ⟨⟨window, h.reads, wide.trans h.wide, high.trans h.high, emitted.ge, ?_, ?_⟩, ?_, ?_,
    .inl still⟩
  · rw [emitted]
    change s.queue.frames = _
    rw [gone]
    simp
  · intro before
    omega
  · change first + ((s.emitted + 1 : Nat) : Int) * step ≤ target + s.halfFrame
    omega
  · intro _
    exact ⟨low, by omega, inside⟩

/-- A frame that is kept goes to the back of the queue. -/
theorem push_strip {x : Sample} (spaced : Spaced table first step)
    (h : s.Strip table first step width height front) (stands : table[s.emitted]? = some x) :
    (s.queue.push (x.shot width height)).frames =
      ((table.take (s.emitted + 1)).drop (front + (s.emitted - front + 1 - s.queue.capacity))).map
        (Sample.shot width height) := by
  have older : ∀ g ∈ s.queue.frames, g.timestamp ≤ (x.shot width height).timestamp := by
    intro g member
    rw [h.frames, List.mem_map] at member
    obtain ⟨y, member, rfl⟩ := member
    obtain ⟨i, -, early, at_i⟩ := mem_between.mp member
    have order := spaced_le spaced.positive early.le
    have time := spaced.time stands
    have time' := spaced.time at_i
    change y.timestamp ≤ x.timestamp
    omega
  have size : s.queue.size = s.emitted - front := by
    rw [FrameQueue.size, h.frames, List.length_map, take_drop_length h.inside]
  rw [FrameQueue.push_last s.queue _ older, size, h.frames, ← List.drop_drop,
    take_drop_snoc h.ahead stands]
  simp only [List.map_drop, List.map_append, List.map_cons, List.map_nil]

/-- The target has passed the frames that a full queue drops. -/
theorem dropped_near (ahead : front ≤ s.emitted) (near : first + front * step ≤ target + s.halfFrame)
    (half : 0 ≤ s.halfFrame) (reach : first + s.emitted * step ≤ horizon)
    (covers : horizon + step ≤ target + s.queue.capacity * step) :
    first + ((front + (s.emitted - front + 1 - s.queue.capacity) : Nat) : Int) * step ≤
      target + s.halfFrame := by
  by_cases full : s.queue.capacity ≤ s.emitted - front + 1
  · have split := spaced_add step (front + (s.emitted - front + 1 - s.queue.capacity))
      s.queue.capacity
    have sum : front + (s.emitted - front + 1 - s.queue.capacity) + s.queue.capacity =
        s.emitted + 1 := by omega
    have next := spaced_succ step s.emitted
    rw [sum] at split
    omega
  · have none : s.emitted - front + 1 - s.queue.capacity = 0 := by omega
    rw [none]
    exact near

/-- A frame that is kept goes to the back, and a full queue loses frames that the target has
passed. -/
theorem keep_track {f : Frame} {d : Decoder} (spaced : Spaced table first step)
    (h : s.Track table first step width height target horizon front)
    (half : 0 ≤ s.halfFrame) (roomy : 1 ≤ s.queue.capacity)
    (covers : horizon + step ≤ target + s.queue.capacity * step)
    (given : s.decoder.next = some (f, d)) (young : ¬ f.timestamp < s.floor) :
    (receive { s with decoder := d } f).Track table first step width height target horizon
      (front + (s.emitted - front + 1 - s.queue.capacity)) := by
  obtain ⟨x, stands, shown, time, reach⟩ := h.arrival spaced given
  obtain ⟨window, emitted⟩ := receive_window h.window given
  obtain ⟨wide, high⟩ := Decoder.next_size given
  have still := h.still_fed given
  have positive := spaced.positive
  have ahead := h.ahead
  have inside := (List.getElem?_eq_some_iff.mp stands).1
  have same : receive { s with decoder := d } f =
      ({ s with decoder := d } : Slot).requeue (s.queue.push f) 1 := if_neg young
  rw [same] at window emitted ⊢
  refine ⟨⟨window, h.reads, wide.trans h.wide, high.trans h.high, ?_, ?_, ?_⟩, ?_, ?_, .inl still⟩
  · rw [emitted]
    omega
  · rw [emitted, shown]
    exact push_strip spaced h.toStrip stands
  · intro _
    have order := spaced_le positive (Nat.le_add_right front (s.emitted - front + 1 - s.queue.capacity))
    change s.floor ≤ _
    by_cases empty : front = s.emitted
    · have none : s.emitted - front + 1 - s.queue.capacity = 0 := by omega
      rw [none, Nat.add_zero, empty]
      omega
    · have kept := h.young (by omega)
      omega
  · exact dropped_near h.ahead h.near half reach covers
  · intro empty
    rw [emitted] at empty
    omega

variable {tuning : SlotTuning} {place : Int}

theorem placed_halfFrame (spaced : Spaced table first step)
    (placed : s.Placed table false tuning place) : s.halfFrame = step / 2 := by
  rw [placed.half, spaced.nominal, Int.tdiv_eq_ediv_of_nonneg spaced.positive.le]

theorem placed_half (spaced : Spaced table first step)
    (placed : s.Placed table false tuning place) : 0 ≤ s.halfFrame ∧ 2 * s.halfFrame ≤ step := by
  have positive := spaced.positive
  rw [placed_halfFrame spaced placed]
  omega

theorem move_track {after : Slot} (spaced : Spaced table first step)
    (placed : s.Placed table false tuning place)
    (inRange : target ≤ first + table.length * step)
    (covers : horizon + step ≤ target + s.queue.capacity * step)
    (h : s.Track table first step width height target horizon front)
    (move : Move tuning horizon s after) :
    ∃ front, after.Track table first step width height target horizon front := by
  have half := (placed_half spaced placed).1
  have roomy : 1 ≤ s.queue.capacity := by
    rw [placed.room]
    omega
  cases move with
  | feed wanted room next taken =>
    exact ⟨front, feed_track spaced h placed.direction wanted next taken⟩
  | arrive given =>
    rename_i f d
    by_cases old : f.timestamp < s.floor
    · exact ⟨_, skip_track spaced h inRange half given old⟩
    · exact ⟨_, keep_track spaced h half roomy covers given old⟩
  | flush fed unflushed =>
    have flushed : Move tuning horizon s { s with decoder := s.decoder.flush, flushed := true } :=
      .flush fed unflushed
    refine ⟨front, ⟨⟨move_window flushed h.window, h.reads, h.wide, h.high, h.ahead, h.frames,
      h.young⟩, h.near, h.blank, .inl ?_⟩⟩
    rcases h.fed with fed' | ⟨-, drained⟩
    · exact fed'
    · have done := drained fed
      rw [unflushed] at done
      cases done

theorem moves_track {after : Slot} (spaced : Spaced table first step)
    (inRange : target ≤ first + table.length * step)
    (covers : horizon + step ≤ target + (max (capacity table false tuning) 2 : Nat) * step)
    (placed : s.Placed table false tuning place)
    (h : s.Track table first step width height target horizon front)
    (moves : Moves tuning horizon s after) :
    after.Placed table false tuning place ∧
      ∃ front, after.Track table first step width height target horizon front := by
  induction moves with
  | refl => exact ⟨placed, front, h⟩
  | tail _ move ih =>
    obtain ⟨placed, front, track⟩ := ih
    refine ⟨move_placed move placed, move_track spaced placed inRange ?_ track move⟩
    rw [placed.room]
    exact covers

/-- A slot just put at a target that is not before the first sample. -/
theorem fresh_track (spaced : Spaced table first step) (placed : s.Placed table false tuning target)
    (window : s.Window) (fresh : s.cursor = s.groupStart) (empty : s.queue.frames = [])
    (late : first ≤ target) (beyond : target ≤ horizon) :
    s.Track table first step s.decoder.width s.decoder.height target horizon s.groupStart := by
  have positive := spaced.positive
  obtain ⟨inside, before⟩ := spaced.keyframe_before late
  rw [← placed.opens] at inside before
  have since := window.since
  have same : s.emitted = s.groupStart := by
    unfold emitted
    omega
  have floor := placed.drops
  rw [spaced.floor_eq] at floor
  have margin : step ≤ max tuning.tolerance step := le_max_right _ _
  have half := (placed_half spaced placed).1
  refine ⟨⟨window, placed.reads, rfl, rfl, same.ge, ?_, ?_⟩, by omega, ?_, .inl ?_⟩
  · rw [empty, same]
    simp
  · intro ahead
    omega
  · intro _
    exact ⟨by omega, before, inside⟩
  · rw [fresh]
    omega

end Track

end Slot
end Montage
