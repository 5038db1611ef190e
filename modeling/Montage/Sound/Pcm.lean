import Montage.Fault
import Montage.Number.Scalar

/- Decoded sound: interleaved samples at a rate. -/
namespace Montage
variable {K S : Type} [Scalar K] [Scalar S] [Narrowing K S]

structure Sound (S : Type) where
  samples : Array S
  shape : StreamShape

namespace Sound

/-- Samples a channel. -/
def frames (s : Sound S) : Nat := s.samples.size / max s.shape.channels 1

def rate (s : Sound S) : K := Scalar.ofNat s.shape.sampleRate

def duration (s : Sound S) : K :=
  if s.shape.sampleRate = 0 then 0 else Scalar.ofNat s.frames / s.rate

/-- The same value in every sample. -/
def constant (value : S) (seconds : K) (shape : StreamShape) : Sound S :=
  let frames := Scalar.toCount (Scalar.round (seconds * Scalar.ofNat shape.sampleRate))
  ⟨Array.replicate (frames * shape.channels) value, shape⟩

def sample (s : Sound S) (frame channel : Nat) : S :=
  s.samples[frame * s.shape.channels + channel]?.getD 0

/-- One sample of a frame under another number of channels: a single channel goes to all, all
go to a single one as their mean, else the last channel stands for those that are missing. -/
def remixed (frame : List S) (channels c : Nat) : S :=
  if frame.length = 1 then frame.headD 0
  else if channels = 1 then Scalar.sum frame / Scalar.ofNat frame.length
  else frame[min c (frame.length - 1)]?.getD 0

/-- The same sound in so many channels; a frame that is not whole is dropped. -/
def remix (s : Sound S) (channels : Nat) : Sound S :=
  let own := s.shape.channels
  if own = channels ∨ own = 0 then s
  else
    let frame (n : Nat) : List S := (List.range own).map fun c => s.sample n c
    { samples := ((List.range s.frames).flatMap fun n =>
        (List.range channels).map fun c => remixed (frame n) channels c).toArray
      shape := { s.shape with channels } }

/-- Between two frames the samples change evenly; there is silence outside. -/
def sampleAt (s : Sound S) (pos : K) (channel : Nat) : S :=
  if s.frames = 0 ∨ pos < 0 ∨ Scalar.ofNat s.frames ≤ pos then 0
  else
    let first := Scalar.toCount (Scalar.floor pos)
    let next := min (first + 1) (s.frames - 1)
    let share : S := Narrowing.narrow (pos - Scalar.ofNat first)
    let a := s.sample first channel
    let b := s.sample next channel
    a + (b - a) * share

/-- Limited to what an encoder takes. -/
def limited (samples : List S) : List S := samples.map (Scalar.clamp (-1) 1)

end Sound
end Montage
