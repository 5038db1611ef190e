import Montage.Service.Client
import Montage.Text.Aligned

/- Which strategies of a render a host can run. -/
namespace Montage.Console

structure HostReport where
  configPath : String
  serviceRoot : String
  service : Except RenderFault Health
  backend : Backend
  fontPath : Option String
  transcoder : String
  hasTranscoder : Bool

namespace HostReport

def verdictMark (good : Bool) : String := if good then "[OK] " else "[WARN] "

def serviceLine (r : HostReport) : String :=
  match r.service with
  | .ok h =>
    verdictMark true ++ "Native service: " ++ r.serviceRoot ++ " (version " ++ h.version ++ ", " ++
      h.status ++ ")"
  | .error e => verdictMark false ++ "Native service: " ++ e.message

def backendLine (r : HostReport) : String :=
  let support := r.backend.support
  verdictMark support.hardware ++ "Codec backend: " ++ r.backend.name ++
    (if support.hardware then " (encoder: " ++ support.encoder.getD "unknown" ++ ")"
      else " (streaming render disabled)")

def fontLine (r : HostReport) : String :=
  verdictMark r.fontPath.isSome ++ "Font: " ++
    r.fontPath.getD "none found (text overlays need the transcoder)"

def transcoderLine (r : HostReport) : String :=
  verdictMark r.hasTranscoder ++ "Transcoder: " ++
    (if r.hasTranscoder then r.transcoder else "'" ++ r.transcoder ++ "' not found")

def isReady (r : HostReport) : Bool :=
  r.service.isOk || r.backend.support.hardware || r.hasTranscoder

def verdict (r : HostReport) : String :=
  if r.isReady then "At least one render strategy is available. Cutroom is ready."
  else "No render strategy is available. Install ffmpeg or start the native service."

def lines (r : HostReport) : List String :=
  ["Cutroom Render Check", String.ofList (List.replicate 50 '='), "Config: " ++ r.configPath, "",
    r.serviceLine, r.backendLine, r.fontLine, r.transcoderLine, "", r.verdict]

end HostReport
end Montage.Console
