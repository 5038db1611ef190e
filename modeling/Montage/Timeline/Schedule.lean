import Montage.Timeline.Timing

/- Clips with their timing resolved, as every backend schedules them. -/
namespace Montage
variable {K : Type} [Scalar K]

/-- A clip on a track with everything that decides when and how it plays. -/
structure Scheduled (K : Type) where
  trackIndex : Nat
  clip : Clip K
  media : MediaFile K
  timing : Timing K
  transitions : List (Transition K)

def Project.schedule (p : Project K) (c : Placed K) : Scheduled K :=
  { trackIndex := c.trackIndex
    clip := c.clip
    media := c.media
    timing := c.clip.timing c.media
    transitions := p.transitionsFor c.clip.id }

def Scheduled.isPlayed (s : Scheduled K) : Bool := !decide (s.timing.timelineDuration ≤ 0)

def Project.unmuted (p : Project K) : List (Placed K) := p.placedClips.filter fun c => !c.track.muted

/-- Clips on unmuted video tracks that take time, in track order. -/
def Project.playedVideo (p : Project K) : List (Scheduled K) :=
  ((p.unmuted.filter fun c => c.track.isVideo).map p.schedule).filter (·.isPlayed)

/-- Clips on unmuted audio tracks that take time, in track order. -/
def Project.playedAudio (p : Project K) : List (Scheduled K) :=
  ((p.unmuted.filter fun c => !c.track.isVideo).map p.schedule).filter (·.isPlayed)

/-- The audio clips of each track that has any. -/
def Project.playedAudioTracks (p : Project K) : List (List (Scheduled K)) :=
  ((List.range p.tracks.length).map fun i => p.playedAudio.filter fun s => s.trackIndex == i).filter
    fun clips => !clips.isEmpty

end Montage
