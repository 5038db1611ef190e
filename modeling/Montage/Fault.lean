import Montage.Files
import Montage.Json.Fault
import Montage.Timeline.Settings

/- Everything that can stop a render, by cause, and how the choice of backends reacts. -/
namespace Montage

inductive ConfigurationFault where
  | settings (fault : SettingsFault Float)
  | framedForService
  | other (message : String)

def ConfigurationFault.message : ConfigurationFault → String
  | .settings f => f.message
  | .framedForService =>
    "The native render service does not support transform or crop; choose the auto, gpu, or " ++
      "compatibility engine"
  | .other m => m

inductive UnavailableFault where
  | noHardwareCodecs
  | noStrategy
  | noDecoder (media : String)
  | noEncoder
  | transcoderMissing (program : String)
  | serviceUnreachable (baseUrl reason : String)
  | serviceUnhealthy (status : String)
  | healthMalformed (reason : String)
  | other (message : String)

def UnavailableFault.message : UnavailableFault → String
  | .noHardwareCodecs => "No hardware codec backend is available on this host"
  | .noStrategy => "No render strategy available"
  | .noDecoder media => "No codec backend to decode " ++ media
  | .noEncoder => "No codec backend to encode output"
  | .transcoderMissing program => "Transcoder '" ++ program ++ "' not found"
  | .serviceUnreachable url reason => "Native render service unreachable at " ++ url ++ ": " ++ reason
  | .serviceUnhealthy status => "Native render service health check returned " ++ status
  | .healthMalformed reason => "Malformed health response: " ++ reason
  | .other m => m

/-- What is told when a sum or a product has no room in its word. -/
def overflowText : String := "arithmetic overflow"

inductive DecodeFault where
  | decoderClosed
  | notKeyframe (timestamp : Int)
  | malformedSample
  | corruptSample (index : Nat)
  | clipClosed (clip : String)
  | stalled (clip : String) (pending : Nat)
  /-- Something that was reckoned has no room in its word. -/
  | overflow
  | other (message : String)
  deriving DecidableEq, Repr

def DecodeFault.message : DecodeFault → String
  | .decoderClosed => "decoder is closed"
  | .notKeyframe t => "sample at " ++ toString t ++ "us is not a keyframe"
  | .malformedSample => "malformed synthetic sample"
  | .corruptSample i => "corrupt sample " ++ toString i
  | .clipClosed clip => "clip " ++ clip ++ " decoder already closed"
  | .stalled clip n =>
    "decoder stalled on clip " ++ clip ++ " with " ++ toString n ++ " samples pending"
  | .overflow => overflowText
  | .other m => m

/-- Channels and samples a second. -/
structure StreamShape where
  channels : Nat
  sampleRate : Nat
  deriving DecidableEq, Repr

def StreamShape.text (s : StreamShape) : String :=
  toString s.channels ++ "ch@" ++ toString s.sampleRate ++ "Hz"

inductive EncodeFault where
  | frameSize (width height expectedWidth expectedHeight : Nat)
  | timestampOrder (timestamp : Int)
  | noAudioStream
  | blockShape (block stream : StreamShape)
  | stalled (pending : Nat)
  | writerClosed
  | refusedFrame
  | refusedBlock
  | other (message : String)

def EncodeFault.message : EncodeFault → String
  | .frameSize w h ew eh => "frame is " ++ sizeText w h ++ ", encoder expects " ++ sizeText ew eh
  | .timestampOrder t => "timestamp " ++ toString t ++ "us is not after the previous frame"
  | .noAudioStream => "output has no audio stream"
  | .blockShape b s => "audio block is " ++ b.text ++ ", stream is " ++ s.text
  | .stalled n => "encoder stalled with " ++ toString n ++ " frames pending"
  | .writerClosed => "output writer already closed"
  | .refusedFrame => "encoder refused the frame"
  | .refusedBlock => "encoder refused the block"
  | .other m => m

inductive BackendFault where
  | emptyOutput (strategy : String)
  | transcoderStart (program reason : String)
  | transcoderProgress (reason : String)
  | transcoderFailed (status tail : String)
  | outputUnread (path reason : String)
  | serviceFailed (status reason : String)
  | serviceEmpty
  | other (message : String)

def BackendFault.message : BackendFault → String
  | .emptyOutput strategy => strategy ++ " produced an empty output"
  | .transcoderStart program reason => "Failed to start " ++ program ++ ": " ++ reason
  | .transcoderProgress reason => "Failed reading transcoder progress: " ++ reason
  | .transcoderFailed status tail => "Transcoder failed (" ++ status ++ "): " ++ tail
  | .outputUnread path reason => "Transcoder produced no output at " ++ path ++ ": " ++ reason
  | .serviceFailed status reason => "Native render service failed (" ++ status ++ "): " ++ reason
  | .serviceEmpty => "Native render service returned no data"
  | .other m => m

inductive ProjectRefusal where
  | noClips
  | invalid (issues : List String)
  | other (message : String)

def ProjectRefusal.message : ProjectRefusal → String
  | .noClips => "Project has no clips to render"
  | .invalid issues => "Invalid project: " ++ "; ".intercalate issues
  | .other m => m

inductive RenderFault where
  | configuration (cause : ConfigurationFault)
  | unavailable (cause : UnavailableFault)
  | versionMismatch (expected found : String)
  | decode (cause : DecodeFault)
  | encode (cause : EncodeFault)
  | backend (cause : BackendFault)
  | audio (message : String)
  | project (cause : ProjectRefusal)
  | network (message : String)
  | cancelled
  /-- Something that was reckoned has no room in its word, and the program is over. -/
  | overflow
  | fileNotFound (path : String)
  | files (message : String)
  | document (message : String)
  | other (message : String)

/-- How the choice of backends reacts. -/
inductive FaultClass where
  /-- Stop, whatever comes next. -/
  | configuration
  /-- Try the next backend. -/
  | unavailable
  /-- The end of this backend. -/
  | fatal
  /-- A silent end. -/
  | cancelled
  /-- The end of the program. -/
  | halted
  deriving DecidableEq, Repr

namespace RenderFault

def faultClass : RenderFault → FaultClass
  | .configuration _ | .project _ => .configuration
  | .unavailable _ | .versionMismatch .. | .network _ => .unavailable
  | .cancelled => .cancelled
  | .overflow => .halted
  | _ => .fatal

def isCancelled : RenderFault → Bool
  | .cancelled => true
  | _ => false

def message : RenderFault → String
  | .configuration c => "Configuration error: " ++ c.message
  | .unavailable c => "Unavailable: " ++ c.message
  | .versionMismatch expected found =>
    "Render service version mismatch: expected " ++ expected ++ ", found " ++ found
  | .decode c => "Decode error: " ++ c.message
  | .encode c => "Encode error: " ++ c.message
  | .backend c => "Render error: " ++ c.message
  | .audio m => "Audio error: " ++ m
  | .project c => "Project error: " ++ c.message
  | .network m => "Network error: " ++ m
  | .cancelled => "Render cancelled"
  | .overflow => overflowText
  | .fileNotFound path => "File not found: " ++ path
  | .files m | .document m | .other m => m

end RenderFault
end Montage
