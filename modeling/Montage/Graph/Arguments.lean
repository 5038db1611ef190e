import Montage.Graph.Compile
import Montage.Graph.Text

/- What a transcoder is told to do. -/
namespace Montage.Graph

def videoArguments : Container → List String
  | .mp4 => ["-c:v", "libx264", "-preset", "ultrafast", "-tune", "fastdecode", "-pix_fmt", "yuv420p",
      "-movflags", "+faststart"]
  | .webm => ["-c:v", "libvpx-vp9", "-speed", "4", "-row-mt", "1", "-pix_fmt", "yuv420p"]

def audioCodec : Container → String
  | .mp4 => "aac"
  | .webm => "libopus"

def kilobits (n : Nat) : String := toString n ++ "k"

/-- Codec arguments of a container; audio only when it has a bitrate. -/
def codecArguments (settings : RenderSettings Float) (keyframeInterval : Nat)
    (audioBitrateKbps : Option Nat) : List String :=
  videoArguments settings.format ++
  ["-b:v", kilobits settings.bitrate, "-r", plain settings.framerate,
    "-g", toString (max keyframeInterval 1)] ++
  match audioBitrateKbps with
  | some n => ["-c:a", audioCodec settings.format, "-b:a", kilobits n]
  | none => []

def arguments (c : Compiled Float) (settings : RenderSettings Float) (options : Options)
    (output : String) : List String :=
  ["-y", "-hide_banner", "-nostats", "-progress", "pipe:1"] ++
  c.inputs.flatMap (fun path => ["-i", path]) ++
  ["-filter_complex", text c.chains, "-map", "[vout]"] ++
  (if c.hasAudio then ["-map", "[aout]"] else []) ++
  codecArguments settings options.keyframeInterval
    (if c.hasAudio then some options.audioBitrateKbps else none) ++
  ["-t", sixPlaces c.duration, output]

end Montage.Graph
