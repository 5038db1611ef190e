import Montage.Codec.Recording
import Montage.Fault
import Montage.Number.Scalar
import Montage.Picture.Image

/- Writers: pictures and sound go in, an encoder works through the pictures at its own pace,
   and in the end there is a finished file or none. -/
namespace Montage

structure AudioSpec where
  shape : StreamShape
  bitrateKbps : Nat
  deriving DecidableEq, Repr

structure OutputSpec where
  width : Nat
  height : Nat
  fps : Float
  bitrateKbps : Nat
  format : Container
  keyframeInterval : Nat
  audio : Option AudioSpec

/-- Interleaved samples with the presentation time of the first. -/
structure AudioBlock where
  samples : List Float32
  shape : StreamShape
  timestamp : Int

/-- Samples a channel. -/
def AudioBlock.frames (b : AudioBlock) : Nat := b.samples.length / max b.shape.channels 1

structure Submission where
  image : Image
  timestamp : Int
  keyframe : Bool

/-- What an encoder does with the n-th picture or block, and how it ends. -/
structure EncoderTraits where
  /-- Samples a channel that it wants in a block. -/
  frameSize : Nat
  refusesFrame : Nat → Bool
  refusesBlock : Nat → Bool
  /-- Completes nothing until the end. -/
  stuck : Bool
  /-- Finishes without a byte. -/
  silent : Bool

def EncoderTraits.sound : EncoderTraits := ⟨1024, fun _ => false, fun _ => false, false, false⟩

structure Writer where
  spec : OutputSpec
  traits : EncoderTraits
  /-- Pictures accepted so far. -/
  frames : Array Submission
  /-- Of those, the ones that wait for the encoder. -/
  waiting : List RecordedFrame
  /-- And the ones that it has completed. -/
  done : List RecordedFrame
  lastTimestamp : Option Int
  /-- Blocks accepted so far. -/
  blocks : Array AudioBlock
  audio : Option RecordedSound
  /-- Most pictures that waited right after one was accepted. -/
  mostPending : Nat

/-- What an encoder makes of a picture. -/
def Submission.recorded (f : Submission) : RecordedFrame := ⟨f.timestamp, f.keyframe, f.image.centre⟩

namespace Writer

def new (spec : OutputSpec) (traits : EncoderTraits) : Writer :=
  { spec
    traits
    frames := #[]
    waiting := []
    done := []
    lastTimestamp := none
    blocks := #[]
    audio := spec.audio.map fun a => ⟨a.shape.sampleRate, a.shape.channels, 0, 0, 0⟩
    mostPending := 0 }

def pending (w : Writer) : Nat := w.waiting.length

/-- Pictures have the size of the output, and their times increase. -/
def encodeVideo (w : Writer) (image : Image) (timestamp : Int) (keyframe : Bool) :
    Except EncodeFault Writer :=
  if w.traits.refusesFrame w.frames.size then .error .refusedFrame
  else if image.width ≠ w.spec.width ∨ image.height ≠ w.spec.height then
    .error (.frameSize image.width image.height w.spec.width w.spec.height)
  else if w.lastTimestamp.any fun last => decide (timestamp ≤ last) then
    .error (.timestampOrder timestamp)
  else
    let submission : Submission := ⟨image, timestamp, keyframe⟩
    let w := { w with
      frames := w.frames.push submission
      waiting := w.waiting ++ [submission.recorded]
      lastTimestamp := some timestamp }
    .ok { w with mostPending := max w.mostPending w.pending }

/-- Completes the picture that has waited longest: how many were completed. -/
def complete (w : Writer) : Nat × Writer :=
  match w.waiting with
  | [] => (0, w)
  | f :: rest => (1, { w with waiting := rest, done := w.done ++ [f] })

/-- Lets the encoder work. -/
def poll (w : Writer) : Nat × Writer := if w.traits.stuck then (0, w) else w.complete

/-- Blocks have the shape of the stream. -/
def encodeAudio (w : Writer) (block : AudioBlock) : Except EncodeFault Writer :=
  if w.traits.refusesBlock w.blocks.size then .error .refusedBlock
  else
    match w.audio with
    | none => .error .noAudioStream
    | some track =>
      let stream : StreamShape := ⟨track.channels, track.sampleRate⟩
      if block.shape ≠ stream then .error (.blockShape block.shape stream)
      else
        let peak := block.samples.foldl (fun peak x => Scalar.max peak (Scalar.abs x)) track.peak
        .ok { w with
          blocks := w.blocks.push block
          audio := some { track with
            frames := track.frames + block.frames
            blocks := track.blocks + 1
            peak } }

/-- Completes what waits, at most so many pictures. -/
def completeUpTo : Nat → Writer → Writer
  | 0, w => w
  | n + 1, w =>
    match w.complete with
    | (0, w) => w
    | (_, w) => completeUpTo n w

/-- Everything completed, in order. -/
def recording (w : Writer) : Recording :=
  { mime := w.spec.format.mime
    width := w.spec.width
    height := w.spec.height
    fps := w.spec.fps
    video := w.done
    audio := w.audio }

/-- The file, once nothing waits. -/
def finish (w : Writer) : Bytes :=
  if w.traits.silent then [] else (w.completeUpTo w.pending).recording.bytes

end Writer
end Montage
