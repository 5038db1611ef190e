import Montage.Render.Session
import Montage.Stream.Layers
import Montage.Stream.Slot

/- The streaming pipeline: frame by frame, the clips that show are decoded, composited and
   handed to the encoder; then the mixed sound follows. However a render ends, every
   decoder is closed and the writer is either finished or aborted. -/
namespace Montage

/-- Where a layer stands with its decoder. -/
inductive SeatState where
  | idle
  | running (slot : Slot)
  | done

structure Seat where
  state : SeatState
  /-- Decoders that were opened for the layer. -/
  opens : Nat

namespace Seat

def vacant : Seat := ⟨.idle, 0⟩

/-- Closes the decoder that has the seat, if there is one, and gives the books back. -/
def close (seat : Seat) (books : Usage) : Seat × Usage :=
  match seat.state with
  | .running slot => ({ seat with state := .done }, (slot.booked books).close.decoder.usage)
  | _ => ({ seat with state := .done }, books)

def closeAll : List Seat → Usage → List Seat × Usage
  | [], books => ([], books)
  | seat :: rest, books =>
    let (seat, books) := seat.close books
    let (rest, books) := closeAll rest books
    (seat :: rest, books)

end Seat

structure Reel where
  session : Session
  seats : List Seat
  writer : Option Writer

/-- Closes every decoder. -/
def Reel.closeSeats (reel : Reel) : Reel :=
  let (seats, books) := Seat.closeAll reel.seats reel.session.books
  { reel with seats, session := { reel.session with books } }

abbrev Shoot := ExceptT RenderFault (StateM Reel)

namespace Shoot

/-- A step that knows nothing of decoders and writers. -/
def lift {α : Type} (step : Run α) : Shoot α := fun reel =>
  let (result, session) := step reel.session
  (result, { reel with session })

def writer : Shoot Writer := do
  match (← get).writer with
  | some w => return w
  | none => throw (.encode .writerClosed)

end Shoot

/-- Source microsecond that a layer shows at a time. -/
def Scheduled.targetAt (s : Scheduled Float) (t : Float) : Int := toMicros (s.timing.sourceTime t)

/-- The slot of a layer from a time on, on a decoder that is opened for it. -/
def openSeat (backend : Backend) (tuning : SlotTuning) (layer : Scheduled Float) (t : Float)
    (books : Usage) : Except RenderFault Slot × Usage :=
  match backend.openVideo layer.media books with
  | .error e => (.error e, books)
  | .ok (samples, decoder) =>
    match Slot.start? layer.clip.id samples decoder layer.timing.reverse tuning (layer.targetAt t) with
    | none => (.error .overflow, decoder.usage)
    | some slot => (.ok slot, decoder.usage)

def DecodeFault.inRender : DecodeFault → RenderFault
  | .overflow => .overflow
  | e => .decode e

/-- Draws the frame of a slot, if there is one. -/
def drawSlot (tuning : SlotTuning) (layer : Scheduled Float) (t : Float) (slot : Slot)
    (canvas : Image) (clock : Clock) : Except RenderFault Image × Slot × Clock :=
  let target := layer.targetAt t
  match slot.advance tuning target clock with
  | (.error e, slot, clock) => (.error e.inRender, slot, clock)
  | (.ok _, slot, clock) =>
    match slot.pick? target with
    | none => (.error .overflow, slot, clock)
    | some (some f, slot) => (.ok (canvas.draw Float32 f.image (layer.layerAt t)), slot, clock)
    | some (none, slot) => (.ok canvas, slot, clock)

/-- Hands the books to a slot while it draws. -/
def drawSeat (tuning : SlotTuning) (layer : Scheduled Float) (t : Float) (opens : Nat) (slot : Slot)
    (canvas : Image) (books : Usage) (clock : Clock) :
    Except RenderFault Image × Seat × Usage × Clock :=
  let (result, slot, clock) := drawSlot tuning layer t (slot.booked books) canvas clock
  (result, ⟨.running slot, opens⟩, slot.decoder.usage, clock)

/-- One layer at one time: closed after its end, opened when it first shows. -/
def composeLayer (backend : Backend) (tuning : SlotTuning) (layer : Scheduled Float) (t : Float)
    (seat : Seat) (canvas : Image) (books : Usage) (clock : Clock) :
    Except RenderFault Image × Seat × Usage × Clock :=
  if layer.timing.stop ≤ t then
    let (seat, books) := seat.close books
    (.ok canvas, seat, books, clock)
  else if !layer.timing.contains t then (.ok canvas, seat, books, clock)
  else
    match seat.state with
    | .done => (.ok canvas, seat, books, clock)
    | .running slot => drawSeat tuning layer t seat.opens slot canvas books clock
    | .idle =>
      match openSeat backend tuning layer t books with
      | (.error e, books) => (.error e, seat, books, clock)
      | (.ok slot, books) => drawSeat tuning layer t (seat.opens + 1) slot canvas books clock

/-- Every layer at one time, from the bottom to the top; the rest stays as it is after a
failure. -/
def composeLayers (backend : Backend) (tuning : SlotTuning) (t : Float) :
    List (Scheduled Float × Seat) → Image → Usage → Clock →
      Except RenderFault Image × List Seat × Usage × Clock
  | [], canvas, books, clock => (.ok canvas, [], books, clock)
  | (layer, seat) :: rest, canvas, books, clock =>
    match composeLayer backend tuning layer t seat canvas books clock with
    | (.error e, seat, books, clock) => (.error e, seat :: rest.map (·.2), books, clock)
    | (.ok canvas, seat, books, clock) =>
      let (result, seats, books, clock) := composeLayers backend tuning t rest canvas books clock
      (result, seat :: seats, books, clock)

/-- Lets the encoder work until few enough pictures are pending, at most so many times. -/
def drainUpTo (depth : Nat) (deadline : Deadline) :
    Nat → Writer → Clock → Except RenderFault Unit × Writer × Clock
  | 0, w, clock => (.error (.encode (.stalled w.pending)), w, clock)
  | n + 1, w, clock =>
    if w.pending ≤ depth then (.ok (), w, clock)
    else
      match w.poll with
      | (0, w) =>
        match deadline.expired clock with
        | (true, clock) => (.error (.encode (.stalled w.pending)), w, clock)
        | (false, clock) => drainUpTo depth deadline n w clock
      | (_, w) => drainUpTo depth deadline n w clock

/-- Waits for the encoder. Under a clock that stands still an encoder that does nothing counts as
stalled. -/
def drain (depth timeout : Nat) (w : Writer) (clock : Clock) :
    Except RenderFault Unit × Writer × Clock :=
  if w.pending ≤ depth then (.ok (), w, clock)
  else
    let (deadline, clock) := Deadline.after clock timeout
    drainUpTo depth deadline (w.pending + clock.looksUntil deadline.limit + 2) w clock

/-- What stays the same over a streaming render. -/
structure Production where
  host : Host
  project : Project Float
  layers : List (Scheduled Float)
  spec : OutputSpec
  tuning : SlotTuning
  frameCount : Nat

namespace Production

def engine (p : Production) : EngineConfig := p.host.config.render

def compose (p : Production) (t : Float) : Shoot Image := do
  let reel ← get
  let blank := Image.blank p.spec.width p.spec.height
  let (result, seats, books, clock) := composeLayers p.host.backend p.tuning t
    (p.layers.zip reel.seats) blank reel.session.books reel.session.clock
  set { reel with seats, session := { reel.session with books, clock } }
  match result with
  | .error e => throw e
  | .ok canvas =>
    return canvas.drawTexts Float32 (p.host.font.map (·.face)) (textsAt p.layers t)

/-- Hands a picture to the encoder and waits until it has caught up. -/
def encodeFrame (p : Production) (index : Nat) (canvas : Image) : Shoot Unit := do
  let w ← Shoot.writer
  Shoot.lift (Run.pass (.videoFrame index))
  let keyframe := index % max p.spec.keyframeInterval 1 == 0
  match w.encodeVideo canvas (frameTimestamp index p.spec.fps) keyframe with
  | .error e => throw (.encode e)
  | .ok w =>
    let reel ← get
    let (result, w, clock) :=
      drain p.engine.encoderQueueDepth p.engine.stallTimeout w reel.session.clock
    set { reel with writer := some w, session := { reel.session with clock } }
    match result with
    | .error e => throw e
    | .ok () => return

/-- Frames from an index on. -/
def frames (p : Production) : Nat → Nat → Shoot Unit
  | 0, _ => return
  | n + 1, index => do
    Shoot.lift Run.check
    let canvas ← p.compose (Scalar.ofNat index / p.spec.fps)
    p.encodeFrame index canvas
    Shoot.lift <| Run.fraction .rendering (index + 1) p.frameCount
      ("Rendered frame " ++ toString (index + 1) ++ "/" ++ toString p.frameCount)
    p.frames n (index + 1)

def block (shape : StreamShape) (mix : Mix Float32) (start stop : Nat) : AudioBlock :=
  let channels := max shape.channels 1
  { samples := Sound.limited (mix.samples.extract (start * channels) (stop * channels)).toList
    shape
    timestamp := toMicros ((Scalar.ofNat start : Float) / Scalar.ofNat shape.sampleRate) }

/-- Blocks from a frame of the mix on, at most so many. -/
def blocks (shape : StreamShape) (mix : Mix Float32) (size : Nat) : Nat → Nat → Shoot Unit
  | 0, _ => return
  | n + 1, start => do
    if mix.frames ≤ start then return
    Shoot.lift Run.check
    let stop := min (start + size) mix.frames
    let w ← Shoot.writer
    Shoot.lift (Run.pass (.audioBlock w.blocks.size))
    match w.encodeAudio (block shape mix start stop) with
    | .error e => throw (.encode e)
    | .ok w => modify fun reel => { reel with writer := some w }
    Shoot.lift (Run.fraction .encoding stop mix.frames "Encoding audio")
    blocks shape mix size n stop

/-- Mixes the project's sound and encodes it block by block. -/
def encodeSound (p : Production) (audio : AudioSpec) : Shoot Unit := do
  let w ← Shoot.writer
  Shoot.lift (Run.report .encoding 0 "Mixing audio")
  let reel ← get
  let (result, cancel) := p.project.mix p.host.sounds audio.shape reel.session.cancel
  set { reel with session := { reel.session with cancel } }
  match result with
  | .error e => throw e
  | .ok mix => blocks audio.shape mix (max w.traits.frameSize 1) mix.frames 0

/-- Ends the file; the writer is used up. -/
def finish : Shoot Bytes := do
  let w ← Shoot.writer
  modify fun reel => { reel with
    writer := none
    session := { reel.session with writers := reel.session.writers ++ [⟨w, true⟩] } }
  return w.finish

/-- All frames, the sound, and the end of the file. -/
def shoot (p : Production) : Shoot Bytes := do
  Shoot.lift (Run.report .rendering 0 "Rendering frames")
  p.frames p.frameCount 0
  modify Reel.closeSeats
  match p.spec.audio with
  | some audio => p.encodeSound audio
  | none => pure ()
  Shoot.lift Run.check
  Shoot.lift (Run.report .finalizing 0 "Finalizing container")
  let bytes ← finish
  Shoot.lift (Run.report .finalizing 100 "Container finalized")
  return bytes

end Production

/-- Closes every decoder and aborts a writer that is still in use. -/
def Reel.teardown (reel : Reel) : Session :=
  let reel := reel.closeSeats
  { reel.session with
    opens := reel.session.opens ++ reel.seats.map (·.opens)
    writers := reel.session.writers ++ (reel.writer.map fun w => ⟨w, false⟩).toList }

/-- The container that settings and configuration ask for. -/
def outputSpec (engine : EngineConfig) (p : Project Float) (settings : RenderSettings Float) :
    OutputSpec :=
  { width := settings.width
    height := settings.height
    fps := settings.framerate
    bitrateKbps := settings.bitrate
    format := settings.format
    keyframeInterval := engine.keyframeInterval settings.framerate
    audio := if (Features.detect p).hasAudio then
        some ⟨⟨engine.audioChannels, engine.audioSampleRate⟩, engine.audioBitrateKbps⟩
      else none }

def slotTuning (engine : EngineConfig) : SlotTuning :=
  ⟨engine.lookahead, engine.pickTolerance, engine.decoderQueueDepth, engine.stallTimeout⟩

/-- The lookahead and the tolerance are reckoned before anything is opened. -/
def renderByStreaming (h : Host) (p : Project Float) (settings : RenderSettings Float) :
    Run Bytes := fun session =>
  let engine := h.config.render
  let spec := outputSpec engine p settings
  if engine.Timed then
    match h.backend.openWriter spec with
    | .error e => (.error e, session)
    | .ok writer =>
      let layers := p.layers
      let production : Production :=
        ⟨h, p, layers, spec, slotTuning engine, totalFrames p.duration settings.framerate⟩
      let session := { session with writersOpened := session.writersOpened + 1 }
      let (result, reel) := production.shoot ⟨session, layers.map fun _ => .vacant, some writer⟩
      (result, reel.teardown)
  else (.error .overflow, session)

end Montage
