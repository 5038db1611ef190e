import Montage.Cancel
import Montage.Number.Power
import Montage.Sound.Pcm
import Montage.Timeline.Schedule

/- Everything audible mixed into one buffer of the project's length. Speed is a rate of
   reading, reverse reads backwards, and where clips overlap they add up. -/
namespace Montage
variable {K S : Type} [Scalar K] [Scalar S] [Narrowing K S]

/-- Gives the whole sound of a media file. -/
abbrev SoundLibrary (K S : Type) := MediaFile K → Except RenderFault (Sound S)

structure Voice (K S : Type) where
  timing : Timing K
  transitions : List (Transition K)
  sound : Sound S
  /-- Frames before the first declared one. -/
  skip : K
  /-- Output frames it plays in; the last one is not part of it. -/
  first : Nat
  last : Nat

namespace Voice

/-- What was decoded beyond the declared length comes before it. -/
def priming (sound : Sound S) (declared : K) : K :=
  Scalar.round (Scalar.max (sound.duration - declared) 0 * sound.rate)

/-- Output frame nearest to a time. -/
def frameOf (rate time : K) : Nat := Scalar.toCount (Scalar.max (Scalar.round (time * rate)) 0)

def ofClip (rate : K) (total : Nat) (clip : Scheduled K) (sound : Sound S) : Voice K S :=
  { timing := clip.timing
    transitions := clip.transitions
    sound
    skip := priming sound clip.media.duration
    first := frameOf rate clip.timing.start
    last := min (frameOf rate clip.timing.stop) total }

def gain (v : Voice K S) (time : K) : S :=
  if v.transitions.isEmpty then 1
  else
    Narrowing.narrow
      (clipEnvelope v.transitions (time - v.timing.start) v.timing.timelineDuration)

/-- What it adds to an output sample; nothing where it does not play. -/
def sample? (v : Voice K S) (rate : K) (frame channel : Nat) : Option S :=
  if v.first ≤ frame ∧ frame < v.last then
    let time := Scalar.ofNat frame / rate
    let pos := v.skip + v.timing.sourceTime time * v.sound.rate
    some (v.sound.sampleAt pos channel * v.gain time)
  else none

end Voice

structure Mix (S : Type) where
  samples : Array S
  shape : StreamShape

namespace Mix

def frames (m : Mix S) : Nat := m.samples.size / max m.shape.channels 1

def duration (m : Mix S) : K := Scalar.ofNat m.frames / Scalar.ofNat m.shape.sampleRate

/-- Silence where there is no such sample; none where its place has no room in a 64-bit word. -/
def sampleAtTime? (m : Mix S) (time : K) (channel : Nat) : Option S :=
  let frame := Scalar.toCount (Scalar.floor (time * Scalar.ofNat m.shape.sampleRate))
  let place := frame * m.shape.channels + channel
  if place < twoTo 64 then some (m.samples[place]?.getD 0) else none

/-- Sum of the voices, sample by sample. -/
def ofVoices (rate : K) (total : Nat) (shape : StreamShape) (voices : List (Voice K S)) : Mix S :=
  let ch := shape.channels
  { samples := Array.ofFn (n := total * ch) fun i =>
      (voices.filterMap fun v => v.sample? rate (i.val / ch) (i.val % ch)).foldl (· + ·) 0
    shape }

end Mix

/-- Sounds decoded so far by media identifier, how many times decoding began, and the voices. -/
structure Gathered (K S : Type) where
  sounds : List (String × Sound S)
  decodes : Nat
  voices : List (Voice K S)

/-- The sound of a media file in so many channels, decoded once. -/
def Gathered.sound (library : SoundLibrary K S) (channels : Nat) (media : MediaFile K)
    (g : Gathered K S) (cancel : Cancel) :
    Except RenderFault (Sound S × Gathered K S) × Cancel :=
  match g.sounds.find? fun s => s.1 == media.id with
  | some s => (.ok (s.2, g), cancel)
  | none =>
    let cancel := cancel.pass (.audioDecode g.decodes)
    match library media with
    | .error e => (.error e, cancel)
    | .ok sound =>
      let sound := sound.remix channels
      (.ok (sound, { g with sounds := (media.id, sound) :: g.sounds, decodes := g.decodes + 1 }),
        cancel)

/-- Decodes what the clips need, looking at the flag before each. -/
def gather (library : SoundLibrary K S) (shape : StreamShape) (total : Nat) :
    List (Scheduled K) → Gathered K S → Cancel → Except RenderFault (List (Voice K S)) × Cancel
  | [], g, cancel => (.ok g.voices.reverse, cancel)
  | clip :: rest, g, cancel =>
    match cancel.check with
    | (.error e, cancel) => (.error e, cancel)
    | (.ok (), cancel) =>
      match g.sound library shape.channels clip.media cancel with
      | (.error e, cancel) => (.error e, cancel)
      | (.ok (sound, g), cancel) =>
        let rate : K := Scalar.ofNat shape.sampleRate
        let g := if !clip.isPlayed || sound.shape.sampleRate == 0 then g
          else { g with voices := Voice.ofClip rate total clip sound :: g.voices }
        gather library shape total rest g cancel

def Project.soundFrames (p : Project K) (rate : K) : Nat :=
  Scalar.toCount (Scalar.ceil (p.duration * rate))

def Project.mix (p : Project K) (library : SoundLibrary K S) (shape : StreamShape)
    (cancel : Cancel) : Except RenderFault (Mix S) × Cancel :=
  let rate : K := Scalar.ofNat shape.sampleRate
  let total := p.soundFrames rate
  let clips := (p.unmuted.filter fun c => c.track.isAudio).map p.schedule
  match gather library shape total clips ⟨[], 0, []⟩ cancel with
  | (.error e, cancel) => (.error e, cancel)
  | (.ok voices, cancel) => (.ok (Mix.ofVoices rate total shape voices), cancel)

end Montage
