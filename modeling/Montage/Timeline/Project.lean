import Montage.Timeline.Clip
import Montage.Text.Path

/- Media, tracks, transitions and the project that holds them. -/
namespace Montage

inductive MediaKind where
  | video
  | audio
  deriving DecidableEq, Repr

structure MediaFile (K : Type) where
  id : String
  name : String
  kind : MediaKind
  path : String
  /-- Declared length in seconds. -/
  duration : K
  framerate : Option K
  width : Option Nat
  height : Option Nat
  thumbnail : Option String
  waveform : Option (List Float32)
  deriving Repr

namespace MediaFile
variable {K : Type}

def displayName (path : String) : String := (Path.fileName? path).getD path

def ofVideo (id path : String) (duration : K) (width height : Nat) (framerate : K) : MediaFile K :=
  { id, path, duration
    name := displayName path
    kind := .video
    framerate := some framerate
    width := some width
    height := some height
    thumbnail := none
    waveform := none }

def ofAudio (id path : String) (duration : K) : MediaFile K :=
  { id, path, duration
    name := displayName path
    kind := .audio
    framerate := none
    width := none
    height := none
    thumbnail := none
    waveform := none }

/-- Known only when both sides are positive. -/
def dimensions (m : MediaFile K) : Option (Nat × Nat) :=
  match m.width, m.height with
  | some w, some h => if 0 < w ∧ 0 < h then some (w, h) else none
  | _, _ => none

end MediaFile

structure Track (K : Type) where
  id : String
  kind : MediaKind
  clips : List (Clip K)
  muted : Bool
  deriving Repr

namespace Track
variable {K : Type}

def isVideo (t : Track K) : Bool := t.kind == .video
def isAudio (t : Track K) : Bool := t.kind == .audio

end Track

inductive TransitionKind where
  | fadeIn
  | fadeOut
  | crossfade
  deriving DecidableEq, Repr

structure Transition (K : Type) where
  id : String
  clipId : String
  kind : TransitionKind
  duration : K
  deriving Repr

/-- Track 0 lies on top. -/
structure Project (K : Type) where
  id : String
  name : String
  mediaFiles : List (MediaFile K)
  tracks : List (Track K)
  transitions : List (Transition K)
  framerate : K
  deriving Repr

/-- A clip with the index of its track, the track, and the media it uses. -/
structure Placed (K : Type) where
  trackIndex : Nat
  track : Track K
  clip : Clip K
  media : MediaFile K

namespace Project
variable {K : Type}

def media? (p : Project K) (id : String) : Option (MediaFile K) :=
  p.mediaFiles.find? fun m => m.id == id

def transitionsFor (p : Project K) (clipId : String) : List (Transition K) :=
  p.transitions.filter fun t => t.clipId == clipId

def indexedTracks (p : Project K) : List (Nat × Track K) := p.tracks.zipIdx.map fun e => (e.2, e.1)

/-- Clips whose media is known, in track order. -/
def placedClips (p : Project K) : List (Placed K) :=
  p.indexedTracks.flatMap fun (i, track) =>
    track.clips.filterMap fun clip =>
      (p.media? clip.mediaId).map fun media => ⟨i, track, clip, media⟩

end Project

structure Features where
  hasAudio : Bool
  hasText : Bool
  hasFraming : Bool
  deriving DecidableEq, Repr

def Features.detect {K : Type} [Scalar K] (p : Project K) : Features :=
  let placed := p.placedClips
  { hasAudio := placed.any fun c => c.track.isAudio && !c.track.muted
    hasText := placed.any fun c => c.track.isVideo && c.clip.textOverlay.isSome
    hasFraming := placed.any fun c => c.track.isVideo && c.clip.hasFraming }

end Montage
