import Montage.Codec.Decoder
import Montage.Stream.FrameQueue

/- Decoding for one clip: samples are fed up to a horizon beyond the target, waiting while
   the decoder is full, and the decoder seeks when the target leaves what was decoded. A
   reversed slot decodes a whole group of pictures at a time. -/
namespace Montage

structure SlotTuning where
  lookahead : Int
  tolerance : Int
  /-- Samples pending in the decoder before feeding pauses. -/
  depth : Nat
  /-- Microseconds a wait may last. -/
  stallTimeout : Nat

inductive Advanced where
  /-- Everything up to the horizon was fed. -/
  | satisfied
  /-- The table is at its end and the decoder drained. -/
  | exhausted
  deriving DecidableEq, Repr

structure Slot where
  clip : String
  samples : Array Sample
  decoder : Decoder
  /-- Next sample to feed. -/
  cursor : Nat
  /-- Keyframe that the cursor was last put at. -/
  groupStart : Nat
  /-- Feeding stops here. -/
  feedEnd : Nat
  reverse : Bool
  queue : FrameQueue
  /-- Frames older than this are dropped when they arrive. -/
  floor : Int
  tolerance : Int
  halfFrame : Int
  flushed : Bool
  closed : Bool

/-- What an advance is doing. -/
inductive Phase where
  | feeding
  | waiting (deadline : Deadline)

/-- What follows one turn of an advance. -/
inductive Turn where
  | more (phase : Phase)
  | ended (result : Except DecodeFault Advanced)

namespace Slot

def table (s : Slot) : List Sample := s.samples.toList

/-- Puts the cursor at the keyframe before the target. -/
def position (s : Slot) (target : Int) : Slot :=
  let cursor := Sample.keyframeAtOrBefore s.table target
  { s with
    cursor
    groupStart := cursor
    flushed := false
    feedEnd := if s.reverse then Sample.groupEnd s.table cursor else s.samples.size
    floor := Sample.earliest s.table s.reverse target - s.tolerance }

/-- What a queue has to span going forward. -/
def window (samples : List Sample) (tuning : SlotTuning) : Int :=
  tuning.lookahead + max tuning.tolerance (Sample.nominalDuration samples)

/-- Frames that the queue of a slot holds at most. -/
def capacity (samples : List Sample) (reverse : Bool) (tuning : SlotTuning) : Nat :=
  let frame := Sample.nominalDuration samples
  if reverse then Sample.longestGroup samples + tuning.depth + 2
  else if frame = 0 then 64
  else asUnsigned (Int.tdiv (window samples tuning) frame) + tuning.depth + 2

/-- A slot on a fresh decoder, at the keyframe before the start. -/
def start (clip : String) (samples : List Sample) (decoder : Decoder) (reverse : Bool)
    (tuning : SlotTuning) (target : Int) : Slot :=
  let frame := Sample.nominalDuration samples
  let blank : Slot :=
    { clip
      samples := samples.toArray
      decoder
      cursor := 0
      groupStart := 0
      feedEnd := 0
      reverse
      queue := FrameQueue.withCapacity (capacity samples reverse tuning)
      floor := 0
      tolerance := max tuning.tolerance frame
      halfFrame := Int.tdiv frame 2
      flushed := false
      closed := false }
  blank.position target

/-- Everything that is reckoned to open a slot has room in its word. -/
structure Opens (samples : List Sample) (reverse : Bool) (tuning : SlotTuning) (target : Int) :
    Prop where
  steps : ∀ step ∈ Sample.measured samples, Fits step
  window : reverse = false → Sample.nominalDuration samples ≠ 0 → Fits (window samples tuning)
  capacity : capacity samples reverse tuning < twoTo 64
  floor : Fits (Sample.earliest samples reverse target -
    max tuning.tolerance (Sample.nominalDuration samples))

instance (samples : List Sample) (reverse : Bool) (tuning : SlotTuning) (target : Int) :
    Decidable (Opens samples reverse tuning target) :=
  decidable_of_iff ((∀ step ∈ Sample.measured samples, Fits step) ∧
      (reverse = false → Sample.nominalDuration samples ≠ 0 → Fits (window samples tuning)) ∧
      capacity samples reverse tuning < twoTo 64 ∧
      Fits (Sample.earliest samples reverse target -
        max tuning.tolerance (Sample.nominalDuration samples)))
    ⟨fun ⟨a, b, c, d⟩ => ⟨a, b, c, d⟩, fun h => ⟨h.steps, h.window, h.capacity, h.floor⟩⟩

/-- None where something overflows. -/
def start? (clip : String) (samples : List Sample) (decoder : Decoder) (reverse : Bool)
    (tuning : SlotTuning) (target : Int) : Option Slot :=
  if Opens samples reverse tuning target then
    some (start clip samples decoder reverse tuning target)
  else none

def wants (s : Slot) (horizon : Int) : Bool :=
  decide (s.cursor < s.feedEnd) &&
    match s.samples[s.cursor]? with
    | some x => s.reverse || decide (x.timestamp ≤ horizon)
    | none => false

/-- Whether a target has left what was decoded. -/
def needsSeek (s : Slot) (target : Int) : Bool :=
  if target < s.floor then true
  else
    let keyframe := Sample.keyframeAtOrBefore s.table target
    if s.reverse then keyframe != s.groupStart
    else
      (match s.queue.front? with
        | some front => decide (target + s.halfFrame < front)
        | none => false) || decide (s.cursor < keyframe)

/-- Another queue takes the place of the present one, and frames that are no longer in it are
let go. -/
def requeue (s : Slot) (queue : FrameQueue) (arrived : Nat) : Slot :=
  { s with queue, decoder := s.decoder.release (s.queue.size + arrived - queue.size) }

def seek (s : Slot) (target : Int) : Slot :=
  let s := { s with decoder := s.decoder.reset }
  (s.requeue s.queue.clear 0).position target

/-- The slot with which an advance begins to feed. -/
def aimed (s : Slot) (target : Int) : Slot := if s.needsSeek target then s.seek target else s

/-- Everything that is reckoned before an advance begins to feed has room in its word. The half frame
is added only to compare the target with the oldest frame. -/
structure Reckons (s : Slot) (tuning : SlotTuning) (target : Int) : Prop where
  half : s.floor ≤ target → s.reverse = false → s.queue.frames ≠ [] → Fits (target + s.halfFrame)
  floor : s.needsSeek target = true → Fits (s.seek target).floor
  horizon : Fits (target + tuning.lookahead)

instance (s : Slot) (tuning : SlotTuning) (target : Int) : Decidable (s.Reckons tuning target) :=
  decidable_of_iff ((s.floor ≤ target → s.reverse = false → s.queue.frames.isEmpty = false →
        Fits (target + s.halfFrame)) ∧
      (s.needsSeek target = true → Fits (s.seek target).floor) ∧
      Fits (target + tuning.lookahead))
    ⟨fun ⟨a, b, c⟩ => ⟨by simpa using a, b, c⟩, fun h => ⟨by simpa using h.half, h.floor, h.horizon⟩⟩

/-- Takes a frame that the decoder gave. -/
def receive (s : Slot) (f : Frame) : Slot :=
  if f.timestamp < s.floor then s.requeue s.queue 1 else s.requeue (s.queue.push f) 1

/-- Takes up to so many frames that are ready. -/
def collectUpTo : Nat → Slot → Slot
  | 0, s => s
  | n + 1, s =>
    match s.decoder.next with
    | none => s
    | some (f, decoder) => collectUpTo n (receive { s with decoder } f)

def collect (s : Slot) : Slot := collectUpTo s.decoder.pending s

/-- Feeds up to so many samples. -/
def feedUpTo (horizon : Int) (depth : Nat) : Nat → Slot → Except DecodeFault Unit × Slot
  | 0, s => (.ok (), s)
  | n + 1, s =>
    if s.wants horizon && decide (s.decoder.pending < depth) then
      match s.samples[s.cursor]? with
      | none => (.ok (), s)
      | some x =>
        match s.decoder.decode x with
        | .error e => (.error e, s)
        | .ok decoder => feedUpTo horizon depth n { s with decoder, cursor := s.cursor + 1 }
    else (.ok (), s)

/-- Feeds until the horizon or a full decoder. -/
def feed (horizon : Int) (depth : Nat) (s : Slot) : Except DecodeFault Unit × Slot :=
  feedUpTo horizon depth (s.feedEnd - s.cursor) s

/-- Nothing more is fed after the last sample: the decoder gives all it has. -/
def drain (s : Slot) : Slot :=
  collect (if s.flushed then s else { s with decoder := s.decoder.flush, flushed := true })

def turn (tuning : SlotTuning) (horizon : Int) (phase : Phase) (s : Slot) (clock : Clock) :
    Turn × Slot × Clock :=
  let depth := max tuning.depth 1
  match phase with
  | .feeding =>
    match s.feed horizon depth with
    | (.error e, s) => (.ended (.error e), s, clock)
    | (.ok (), s) =>
      let s := s.collect
      if s.wants horizon then
        if s.decoder.pending < depth then (.more .feeding, s, clock)
        else
          let (deadline, clock) := Deadline.after clock tuning.stallTimeout
          (.more (.waiting deadline), s, clock)
      else if s.feedEnd ≤ s.cursor then
        (.ended (.ok (if s.samples.size ≤ s.feedEnd then .exhausted else .satisfied)), s.drain, clock)
      else (.ended (.ok .satisfied), s, clock)
  | .waiting deadline =>
    let s := s.collect
    if s.decoder.pending < depth then (.more .feeding, s, clock)
    else
      match deadline.expired clock with
      | (true, clock) => (.ended (.error (.stalled s.clip s.decoder.pending)), s, clock)
      | (false, clock) => (.more (.waiting deadline), s, clock)

/-- At most so many turns, without a result when they do not suffice. -/
def turns (tuning : SlotTuning) (horizon : Int) :
    Nat → Phase → Slot → Clock → Option (Except DecodeFault Advanced) × Slot × Clock
  | 0, _, s, clock => (none, s, clock)
  | n + 1, phase, s, clock =>
    match turn tuning horizon phase s clock with
    | (.ended result, s, clock) => (some result, s, clock)
    | (.more phase, s, clock) => turns tuning horizon n phase s clock

/-- Turns that suffice under a clock that moves on: a feeding turn that goes on has fed, and a
wait ends at its deadline. -/
def patience (tuning : SlotTuning) (s : Slot) (clock : Clock) : Nat :=
  2 * s.samples.size + clock.looksUntil (clock.reading clock.looks + tuning.stallTimeout) + 3

/-- Makes the frames around a target available, or ends in an overflow. A wait under a clock that
stands still counts as stalled. -/
def advance (tuning : SlotTuning) (target : Int) (s : Slot) (clock : Clock) :
    Except DecodeFault Advanced × Slot × Clock :=
  if s.closed then (.error (.clipClosed s.clip), s, clock)
  else
    let aim := s.aimed target
    if s.Reckons tuning target then
      match turns tuning (target + tuning.lookahead) (patience tuning aim clock) .feeding aim clock with
      | (some result, s, clock) => (result, s, clock)
      | (none, s, clock) => (.error (.stalled s.clip s.decoder.pending), s, clock)
    else (.error .overflow, aim, clock)

def pick (s : Slot) (target : Int) : Option Frame × Slot :=
  let (f, queue) := if s.reverse then s.queue.pickDescending target else s.queue.pick target
  (f, s.requeue queue 0)

/-- None where a distance overflows. -/
def pick? (s : Slot) (target : Int) : Option (Option Frame × Slot) :=
  if s.queue.reaches target then some (s.pick target) else none

/-- Hands the books of the backend to the decoder. -/
def booked (s : Slot) (books : Usage) : Slot := { s with decoder := s.decoder.booked books }

/-- Gives the decoder and every frame back. Later calls change nothing. -/
def close (s : Slot) : Slot :=
  if s.closed then s
  else
    let s := s.requeue s.queue.clear 0
    { s with decoder := s.decoder.reset.close, closed := true }

end Slot
end Montage
