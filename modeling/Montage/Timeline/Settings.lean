import Montage.Number.Scalar
import Montage.Number.Style
import Montage.Text.Blank

/- What the finished file should be. -/
namespace Montage

inductive Container where
  | mp4
  | webm
  deriving DecidableEq, Repr

namespace Container

def name : Container → String
  | .mp4 => "mp4"
  | .webm => "webm"

def mime : Container → String
  | .mp4 => "video/mp4"
  | .webm => "video/webm"

def fileExtension (c : Container) : String := c.name

def all : List (String × Container) := [("mp4", .mp4), ("webm", .webm)]

/-- Letter case does not matter. -/
def ofName (s : String) : Except String Container :=
  let low := Text.lowered s
  match all.find? fun e => e.1 == low with
  | some e => .ok e.2
  | none => .error ("unknown container format: " ++ low)

end Container

inductive Engine where
  /-- Each usable one in turn. -/
  | automatic
  /-- The render service only. -/
  | service
  /-- The streaming pipeline only. -/
  | streaming
  /-- The filter graph only. -/
  | compatibility
  deriving DecidableEq, Repr

namespace Engine

def name : Engine → String
  | .automatic => "auto"
  | .service => "python"
  | .streaming => "gpu"
  | .compatibility => "compatibility"

def all : List (String × Engine) :=
  [("auto", .automatic), ("python", .service), ("gpu", .streaming),
    ("compatibility", .compatibility)]

def aliases : List (String × Engine) :=
  [("native", .service), ("streaming", .streaming), ("ffmpeg", .compatibility)]

def ofName (s : String) : Except String Engine :=
  let low := Text.lowered s
  match (all ++ aliases).find? fun e => e.1 == low with
  | some e => .ok e.2
  | none => .error ("unknown engine: " ++ low)

end Engine

structure RenderSettings (K : Type) where
  width : Nat
  height : Nat
  /-- Kilobits a second. -/
  bitrate : Nat
  framerate : K
  format : Container
  engine : Engine
  deriving Repr

inductive SettingsFault (K : Type) where
  | emptySize (width height : Nat)
  | oddSize (width height : Nat)
  | framerate (value : K)
  | noBitrate
  deriving Repr

namespace RenderSettings
variable {K : Type} [Scalar K]

def standard : RenderSettings K :=
  { width := 1920
    height := 1080
    bitrate := 8000
    framerate := 30
    format := .mp4
    engine := .automatic }

/-- The first reason no backend could render this. -/
def fault? (s : RenderSettings K) : Option (SettingsFault K) :=
  if s.width = 0 ∨ s.height = 0 then some (.emptySize s.width s.height)
  else if s.width % 2 ≠ 0 ∨ s.height % 2 ≠ 0 then some (.oddSize s.width s.height)
  else if ¬ (Scalar.isFinite s.framerate = true ∧ 0 < s.framerate) then some (.framerate s.framerate)
  else if s.bitrate = 0 then some .noBitrate
  else none

end RenderSettings

def sizeText (width height : Nat) : String := toString width ++ "x" ++ toString height

def SettingsFault.message : SettingsFault Float → String
  | .emptySize w h => "invalid output size " ++ sizeText w h
  | .oddSize w h => "output size " ++ sizeText w h ++ " must be even for 4:2:0 encoding"
  | .framerate x => "invalid framerate " ++ NumberStyle.plain.double x
  | .noBitrate => "bitrate must be positive"

end Montage
