import Montage.Fault
import Montage.Timeline.Project

/- Which backends to try, and in which order. -/
namespace Montage

inductive Strategy where
  /-- A render service reached over a network. -/
  | nativeService
  /-- Decoding, compositing and encoding in this program. -/
  | streaming
  /-- A filter graph run by a separate transcoder. -/
  | filterGraph
  deriving DecidableEq, Repr

def Strategy.name : Strategy → String
  | .nativeService => "native-service"
  | .streaming => "streaming"
  | .filterGraph => "filter-graph"

structure Capabilities where
  hardwareCodecs : Bool
  textRendering : Bool
  deriving DecidableEq, Repr

/-- Strategies in the order of attempts, for the requested engine. -/
def strategies (engine : Engine) (features : Features) (host : Capabilities) (format : Container) :
    Except RenderFault (List Strategy) :=
  match engine with
  | .service =>
    if features.hasFraming then .error (.configuration .framedForService)
    else .ok [.nativeService]
  | .streaming =>
    if host.hardwareCodecs then .ok [.streaming] else .error (.unavailable .noHardwareCodecs)
  | .compatibility => .ok [.filterGraph]
  | .automatic =>
    let service := !features.hasFraming && !features.hasText
    let stream := host.hardwareCodecs && !(format == .mp4 && features.hasAudio) &&
      (!features.hasText || host.textRendering)
    .ok ((if service then [Strategy.nativeService] else []) ++
      (if stream then [Strategy.streaming] else []) ++ [Strategy.filterGraph])

end Montage
