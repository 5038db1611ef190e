import Montage.Proofs.Stream.Calls

/- When a pick finds a frame. The queue is empty exactly as long as every frame that came out
   since the last seek was older than that seek's floor: a queue drops frames for others only,
   and a pick keeps the one it gives. -/
namespace Montage.Slot

/-- A frame that came out since the last seek was kept. -/
def Shows (s : Slot) : Prop :=
  ∃ i x, s.groupStart ≤ i ∧ i < s.emitted ∧ s.table[i]? = some x ∧ s.floor ≤ x.timestamp

structure Presence (depth : Nat) (s : Slot) : Prop where
  window : s.Window
  sound : s.decoder.Sound depth
  roomy : 2 ≤ s.queue.capacity
  kept : s.queue.frames ≠ [] ↔ s.Shows

theorem not_shows_fresh {s : Slot} (fresh : s.emitted ≤ s.groupStart) : ¬ s.Shows := by
  rintro ⟨i, x, late, early, -, -⟩
  omega

theorem start_presence (clip : String) (samples : List Sample) (d : Decoder) (reverse : Bool)
    (tuning : SlotTuning) (target : Int) {depth : Nat} (sound : d.Sound depth)
    (fresh : d.waiting = []) (unflushed : d.flushing = false) :
    (start clip samples d reverse tuning target).Presence depth where
  window := start_window clip samples d reverse tuning target fresh unflushed
  sound := sound
  roomy := Nat.le_max_right _ 2
  kept := ⟨fun busy => absurd rfl busy, fun shows => absurd shows (not_shows_fresh (Nat.sub_le _ _))⟩

theorem seek_presence {s : Slot} {depth : Nat} (target : Int) (h : s.Presence depth) :
    (s.seek target).Presence depth where
  window := seek_window s target
  sound := ⟨h.sound.opened, h.sound.alive, h.sound.holds⟩
  roomy := h.roomy
  kept := ⟨fun busy => absurd rfl busy, fun shows => absurd shows (not_shows_fresh (Nat.sub_le _ _))⟩

theorem push_nonempty {q : FrameQueue} (f : Frame) (roomy : 2 ≤ q.capacity) :
    (q.push f).frames ≠ [] := by
  have size := FrameQueue.push_size q f
  intro empty
  simp only [FrameQueue.size, empty, List.length_nil] at size
  omega

/-- A frame that arrives is kept unless it is older than the floor. -/
theorem receive_kept (s : Slot) (f : Frame) (roomy : 2 ≤ s.queue.capacity) :
    (receive s f).queue.frames ≠ [] ↔ s.queue.frames ≠ [] ∨ s.floor ≤ f.timestamp := by
  unfold receive
  split
  · rename_i old
    have young : ¬ s.floor ≤ f.timestamp := by omega
    simp [requeue, young]
  · rename_i old
    have young : s.floor ≤ f.timestamp := by omega
    simp [requeue, young, push_nonempty f roomy]

theorem arrive_shows {s : Slot} {f : Frame} {d : Decoder} (h : s.Window)
    (given : s.decoder.next = some (f, d)) :
    (receive { s with decoder := d } f).Shows ↔ s.Shows ∨ s.floor ≤ f.timestamp := by
  obtain ⟨timestamp, index, rest, waits, frame, -⟩ := Decoder.next_fields given
  obtain ⟨-, x, stands, stamp⟩ := h.next_sample waits
  have time : x.timestamp = f.timestamp := by
    rw [frame]
    exact congrArg Prod.fst stamp
  have since := h.since
  have start : s.groupStart ≤ s.emitted := by
    unfold Slot.emitted
    omega
  have emitted := (receive_window h given).2
  rw [Shows, emitted, receive_fields]
  change (∃ i x, s.groupStart ≤ i ∧ i < s.emitted + 1 ∧ s.table[i]? = some x ∧
    s.floor ≤ x.timestamp) ↔ _
  constructor
  · rintro ⟨i, y, late, early, at_i, young⟩
    rcases Nat.lt_or_eq_of_le (Nat.le_of_lt_succ early) with early | rfl
    · exact .inl ⟨i, y, late, early, at_i, young⟩
    · rw [stands] at at_i
      cases at_i
      exact .inr (time ▸ young)
  · rintro (⟨i, y, late, early, at_i, young⟩ | young)
    · exact ⟨i, y, late, by omega, at_i, young⟩
    · exact ⟨s.emitted, x, start, by omega, stands, time ▸ young⟩

theorem move_presence {tuning : SlotTuning} {horizon : Int} {s after : Slot} {depth : Nat}
    (step : Move tuning horizon s after) (h : s.Presence depth) : after.Presence depth := by
  have window := move_window step h.window
  have sound := move_sound step h.sound
  cases step with
  | feed wanted room next taken =>
    refine ⟨window, sound, h.roomy, ?_⟩
    have same := (feed_window h.window wanted next taken).2
    rw [Shows, same]
    exact h.kept
  | arrive given =>
    rename_i f d
    refine ⟨window, sound, ?_, ?_⟩
    · rw [receive_capacity]
      exact h.roomy
    · rw [arrive_shows h.window given]
      exact (receive_kept { s with decoder := d } f h.roomy).trans (or_congr_left h.kept)
  | flush fed first => exact ⟨window, sound, h.roomy, h.kept⟩

theorem pick_empty_iff (s : Slot) (target : Int) :
    ((s.pick target).1 = none ↔ s.queue.frames = []) ∧
      ((s.pick target).2.queue.frames = [] ↔ s.queue.frames = []) := by
  rw [pick_eq]
  dsimp only [requeue]
  split
  · rcases s.queue.pickDescending_spec target with ⟨empty, eq⟩ | ⟨i, f, _, stands, eq⟩
    · simp [eq, empty]
    · have busy : s.queue.frames ≠ [] := by
        intro empty
        simp [empty] at stands
      simp [eq, busy]
  · rcases s.queue.pick_spec target with ⟨empty, eq⟩ | ⟨i, f, _, stands, eq⟩
    · simp [eq, empty]
    · have inside := (List.getElem?_eq_some_iff.mp stands).1
      have busy : s.queue.frames ≠ [] := by
        intro empty
        simp [empty] at stands
      simp [eq, busy, inside]

theorem pick_presence {s : Slot} {depth : Nat} (target : Int) (h : s.Presence depth) :
    (s.pick target).2.Presence depth where
  window := pick_window target h.window
  sound := ⟨h.sound.opened, h.sound.alive, h.sound.holds⟩
  roomy := by
    rw [(pick_part s target).2]
    exact h.roomy
  kept := (not_congr (pick_empty_iff s target).2).trans h.kept

theorem played_presence (tuning : SlotTuning) {table : List Sample} {reverse : Bool} {opening : Int}
    {depth : Nat} (calls : List Call) (state : Slot × Clock) (h : state.1.Presence depth)
    (placed : state.1.Placed table reverse tuning opening) :
    (played tuning calls state).1.closed = true ∨
      (played tuning calls state).1.Presence depth ∧
        ∃ target ∈ opening :: sought calls,
          (played tuning calls state).1.Placed table reverse tuning target := by
  refine played_keeps (fun s => s.Presence depth ∧
    ∃ target ∈ opening :: sought calls, s.Placed table reverse tuning target) ?_ ?_ calls ?_ state
    (.inr ⟨h, opening, List.mem_cons_self, placed⟩)
  · rintro horizon s after step ⟨present, target, member, placed⟩
    exact ⟨move_presence step present, target, member, move_placed step placed⟩
  · rintro s next ⟨present, target, member, placed⟩
    exact ⟨pick_presence next present, target, member, pick_placed next placed⟩
  · rintro next called s ⟨present, target, -, placed⟩
    exact ⟨seek_presence next present, next, List.mem_cons_of_mem _ called,
      seek_placed next placed⟩

theorem mem_between {α : Type} {xs : List α} {first last : Nat} {x : α} :
    x ∈ (xs.take last).drop first ↔ ∃ i, first ≤ i ∧ i < last ∧ xs[i]? = some x := by
  rw [List.mem_iff_getElem?]
  constructor
  · rintro ⟨i, stands⟩
    rw [List.getElem?_drop, List.getElem?_take] at stands
    split at stands
    · rename_i early
      exact ⟨first + i, Nat.le_add_right _ _, early, stands⟩
    · cases stands
  · rintro ⟨i, late, early, stands⟩
    refine ⟨i - first, ?_⟩
    rw [List.getElem?_drop, List.getElem?_take, Nat.add_sub_cancel' late, if_pos early]
    exact stands

/-- After a successful advance a pick finds a frame exactly when one of the frames that came
out since the last seek, which was to one of the targets so far, is not older than that seek's
floor. The frames that came out end at most the decoder's hold before the cursor; the cursor is
at the end of what is fed or, forwards, at a sample beyond the horizon. -/
theorem pick_finds_frame_iff {K : Type} (source : Source K) (healthy : source.stalled = false)
    (clip : String) (table : List Sample) (reverse : Bool) (tuning : SlotTuning) (opening : Int)
    (calls : List Call) (clock : Clock) (target : Int) {before after : Slot} {between later : Clock}
    {outcome : Advanced}
    (past : played tuning calls
      (start clip table (Decoder.ofSource source) reverse tuning opening, clock) = (before, between))
    (reached : before.advance tuning target between = (.ok outcome, after, later)) :
    ∃ place ∈ opening :: sought (calls ++ [.advance target]),
      after.groupStart = Sample.keyframeAtOrBefore table place ∧
      after.floor = floorAt table reverse tuning place ∧
      ((after.pick target).1.isSome = true ↔
        ∃ x ∈ (table.take after.emitted).drop (Sample.keyframeAtOrBefore table place),
          floorAt table reverse tuning place ≤ x.timestamp) ∧
      after.cursor ≤ after.emitted + source.reorderDepth ∧
      (after.cursor = (if reverse then
            Sample.groupEnd table (Sample.keyframeAtOrBefore table place) else table.length) ∧
          after.emitted = after.cursor ∨
        reverse = false ∧ ∃ x, table[after.cursor]? = some x ∧
          target + tuning.lookahead < x.timestamp) := by
  have sound : (Decoder.ofSource source).Sound source.reorderDepth := ⟨rfl, healthy, rfl⟩
  have all := played_presence tuning (calls ++ [.advance target])
    (start clip table (Decoder.ofSource source) reverse tuning opening, clock)
    (start_presence clip table _ reverse tuning opening sound rfl rfl) (start_placed clip _)
  have last : played tuning (calls ++ [.advance target])
      (start clip table (Decoder.ofSource source) reverse tuning opening, clock) =
        (after, later) := by
    rw [played, List.foldl_append]
    change perform tuning (.advance target) (played tuning calls _) = _
    rw [past]
    exact congrArg Prod.snd reached
  have running : after.closed = false := by
    have same := advance_closed_eq tuning target before between
    rw [reached] at same
    cases closed : before.closed with
    | false => exact same.trans closed
    | true =>
      rw [advance_closed tuning target before between closed] at reached
      simp at reached
  rw [last] at all
  rcases all with closed | ⟨present, place, member, placed⟩
  · simp [running] at closed
  have settled := advance_settled tuning target reached
  obtain ⟨held, emptied⟩ := settled.emitted_bounds present.window present.sound
  refine ⟨place, member, placed.opens, placed.drops, ?_, held, ?_⟩
  · rw [Option.isSome_iff_ne_none, Ne, (pick_empty_iff after target).1]
    refine present.kept.trans ?_
    rw [Shows, placed.reads, placed.opens, placed.drops]
    simp only [mem_between]
    constructor
    · rintro ⟨i, x, late, early, stands, young⟩
      exact ⟨x, ⟨i, late, early, stands⟩, young⟩
    · rintro ⟨x, ⟨i, late, early, stands⟩, young⟩
      exact ⟨i, x, late, early, stands, young⟩
  · rcases present.window.sated settled.sated with done | ⟨forward, beyond⟩
    · exact .inl ⟨done.trans placed.stops, emptied done.ge⟩
    · right
      rw [placed.direction] at forward
      rw [placed.reads] at beyond
      exact ⟨forward, beyond⟩

/-- Two groups, of which the second has one sample. -/
def twoGroups : List Sample :=
  [⟨lowBytes 8 0, 0, 100000, true⟩, ⟨lowBytes 8 1, 100000, 100000, false⟩,
    ⟨lowBytes 8 2, 200000, 100000, true⟩]

def promptSource : Source Nat := ⟨1, 1, 10, 1, 2, 0, false, none⟩

def shortSighted : SlotTuning := ⟨0, 35000, 4, 100000⟩

/-- A tuning under which a slot on the two groups can just be opened. -/
def overlong : SlotTuning := ⟨9223372036854675000, 35000, 4, 100⟩

def overlongSlot (target : Int) : Slot :=
  start "c1" twoGroups (Decoder.ofSource promptSource) false overlong target

def afterFirst : Slot × Clock :=
  played shortSighted [.advance 0, .pick 0]
    (start "c1" twoGroups (Decoder.ofSource promptSource) false shortSighted 0, Clock.stepping 1000)

theorem pick_finds_frame_iff_past_the_end :
    promptSource.stalled = false ∧
      (afterFirst.1.advance shortSighted 10000000 afterFirst.2).1 = .ok .exhausted ∧
      ∃ place ∈ [(0 : Int), 0, 10000000],
        let after := (afterFirst.1.advance shortSighted 10000000 afterFirst.2).2.1
        after.floor = floorAt twoGroups false shortSighted place ∧
        ((after.pick 10000000).1.isSome = true ↔
          ∃ x ∈ (twoGroups.take after.emitted).drop (Sample.keyframeAtOrBefore twoGroups place),
            floorAt twoGroups false shortSighted place ≤ x.timestamp) := by
  refine ⟨rfl, rfl, ?_⟩
  obtain ⟨place, member, -, floor, found, -⟩ := pick_finds_frame_iff promptSource rfl "c1"
    twoGroups false shortSighted 0 [.advance 0, .pick 0] (Clock.stepping 1000) 10000000 rfl rfl
  exact ⟨place, member, floor, found⟩

/-- A frame was shown, the next advance succeeds, and its pick finds none. -/
theorem frame_lost_past_the_end :
    let opened := start "c1" twoGroups (Decoder.ofSource promptSource) false shortSighted 0
    let first := opened.advance shortSighted 0 (Clock.stepping 1000)
    let shown := first.2.1.pick 0
    let second := shown.2.advance shortSighted 10000000 first.2.2
    first.1 = .ok .satisfied ∧ shown.1.isSome = true ∧ second.1 = .ok .exhausted ∧
      (second.2.1.pick 10000000).1 = none :=
  ⟨rfl, rfl, rfl, rfl⟩

end Montage.Slot
