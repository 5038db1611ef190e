import Montage.Json.Codec
import Montage.Files
import Montage.Number.Scalar
import Montage.Number.Word

/- Application settings: what they are, what absence means, and where they are kept. -/
namespace Montage
open Json Json.Codec Json.Fields

def serviceVersion : String := "2026-02-19-concat-v1"

structure EngineConfig where
  lookaheadMs : Nat
  pickToleranceMs : Nat
  decoderQueueDepth : Nat
  encoderQueueDepth : Nat
  keyframeIntervalSecs : Float
  stallTimeoutMs : Nat
  audioSampleRate : Nat
  audioChannels : Nat
  audioBitrateKbps : Nat
  transcoderPath : String
  fontPath : Option String

def EngineConfig.standard : EngineConfig :=
  { lookaheadMs := 500
    pickToleranceMs := 35
    decoderQueueDepth := 8
    encoderQueueDepth := 8
    keyframeIntervalSecs := 2
    stallTimeoutMs := 5000
    audioSampleRate := 48000
    audioChannels := 2
    audioBitrateKbps := 128
    transcoderPath := "ffmpeg"
    fontPath := none }

/-- The product has to have room in a word. -/
def microsOfMillis (ms : Nat) : Int := asSigned ms * 1000

/-- Frames between two keyframes, at least one. -/
def keyframeFrames {K : Type} [Scalar K] (seconds fps : K) : Nat :=
  max (Scalar.toCount (Scalar.round (seconds * fps))) 1

namespace EngineConfig

def lookahead (c : EngineConfig) : Int := microsOfMillis c.lookaheadMs
def pickTolerance (c : EngineConfig) : Int := microsOfMillis c.pickToleranceMs

/-- Both times can be told in microseconds. -/
def Timed (c : EngineConfig) : Prop := Fits c.lookahead ∧ Fits c.pickTolerance

instance (c : EngineConfig) : Decidable c.Timed := inferInstanceAs (Decidable (_ ∧ _))

def keyframeInterval (c : EngineConfig) (fps : Float) : Nat :=
  keyframeFrames c.keyframeIntervalSecs fps
def stallTimeout (c : EngineConfig) : Nat := c.stallTimeoutMs * 1000

end EngineConfig

structure ServiceConfig where
  baseUrl : String
  requiredVersion : String
  healthTimeoutMs : Nat
  renderTimeoutSecs : Nat

def ServiceConfig.standard : ServiceConfig :=
  { baseUrl := "http://127.0.0.1:8765"
    requiredVersion := serviceVersion
    healthTimeoutMs := 1500
    renderTimeoutSecs := 600 }

structure LoggingConfig where
  level : String
  json : Bool
  file : Option String

def LoggingConfig.standard : LoggingConfig := ⟨"info", false, none⟩

structure Config where
  render : EngineConfig
  service : ServiceConfig
  logging : LoggingConfig

def Config.standard : Config :=
  ⟨EngineConfig.standard, ServiceConfig.standard, LoggingConfig.standard⟩

/-- Null or absent, and always written. -/
def pathField {β : Type} (name : String) (rest : Fields β) : Fields (Option String × β) :=
  defaulted name (textAs "path string").option none rest

def engineConfigDocument : Codec EngineConfig :=
  let d := EngineConfig.standard
  (record "RenderEngineConfig" <|
    defaulted "lookahead_ms" (natural 64 "u64") d.lookaheadMs <|
    defaulted "pick_tolerance_ms" (natural 64 "u64") d.pickToleranceMs <|
    defaulted "decoder_queue_depth" (natural 64 "usize") d.decoderQueueDepth <|
    defaulted "encoder_queue_depth" (natural 64 "usize") d.encoderQueueDepth <|
    defaulted "keyframe_interval_secs" double d.keyframeIntervalSecs <|
    defaulted "stall_timeout_ms" (natural 64 "u64") d.stallTimeoutMs <|
    defaulted "audio_sample_rate" (natural 32 "u32") d.audioSampleRate <|
    defaulted "audio_channels" (natural 16 "u16") d.audioChannels <|
    defaulted "audio_bitrate_kbps" (natural 32 "u32") d.audioBitrateKbps <|
    defaulted "ffmpeg_path" text d.transcoderPath <|
    pathField "font_path" done).imap
    (fun (a, b, c, d, e, f, g, h, i, j, k, _) => ⟨a, b, c, d, e, f, g, h, i, j, k⟩)
    (fun c => (c.lookaheadMs, c.pickToleranceMs, c.decoderQueueDepth, c.encoderQueueDepth,
      c.keyframeIntervalSecs, c.stallTimeoutMs, c.audioSampleRate, c.audioChannels,
      c.audioBitrateKbps, c.transcoderPath, c.fontPath, ()))

def serviceConfigDocument : Codec ServiceConfig :=
  let d := ServiceConfig.standard
  (record "NativeServiceConfig" <|
    defaulted "base_url" text d.baseUrl <|
    defaulted "required_version" text d.requiredVersion <|
    defaulted "health_timeout_ms" (natural 64 "u64") d.healthTimeoutMs <|
    defaulted "render_timeout_secs" (natural 64 "u64") d.renderTimeoutSecs done).imap
    (fun (a, b, c, d, _) => ⟨a, b, c, d⟩)
    (fun c => (c.baseUrl, c.requiredVersion, c.healthTimeoutMs, c.renderTimeoutSecs, ()))

def loggingConfigDocument : Codec LoggingConfig :=
  let d := LoggingConfig.standard
  (record "LoggingConfig" <|
    defaulted "level" text d.level <| defaulted "json" boolean d.json <|
    pathField "file" done).imap
    (fun (a, b, c, _) => ⟨a, b, c⟩)
    (fun c => (c.level, c.json, c.file, ()))

def configDocument : Codec Config :=
  (record "AppConfig" <|
    defaulted "render" engineConfigDocument EngineConfig.standard <|
    defaulted "native_service" serviceConfigDocument ServiceConfig.standard <|
    defaulted "logging" loggingConfigDocument LoggingConfig.standard done).imap
    (fun (a, b, c, _) => ⟨a, b, c⟩)
    (fun c => (c.render, c.service, c.logging, ()))

namespace Config

/-- Whatever cannot be read leaves the standard settings. -/
def parse (text : String) : Config := (configDocument.parse text).toOption.getD standard

def load (files : FileTree) (path : String) : Config :=
  match files.readText path with
  | .ok text => parse text
  | .error _ => standard

def savedText (c : Config) : String := (configDocument.toValue c).indented

/-- Where settings are kept, from the two variables that say so. -/
def path (configHome home : Option String) : String :=
  let base := match configHome with
    | some dir => dir
    | none => Path.join (home.getD "/tmp") ".config"
  Path.join (Path.join base "cutroom") "config.json"

end Config
end Montage
