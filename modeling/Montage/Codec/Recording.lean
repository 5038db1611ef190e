import Montage.Json.Codec
import Montage.Picture.Color
import Montage.Text.Utf8

/- The finished file of the streaming pipeline: what was encoded, and its document. -/
namespace Montage
open Json Json.Codec Json.Fields

structure RecordedFrame where
  timestamp : Int
  keyframe : Bool
  /-- The pixel in the middle. -/
  color : Color
  deriving DecidableEq, Repr

structure RecordedSound where
  sampleRate : Nat
  channels : Nat
  /-- Samples a channel. -/
  frames : Nat
  blocks : Nat
  peak : Float32

structure Recording where
  mime : String
  width : Nat
  height : Nat
  fps : Float
  video : List RecordedFrame
  audio : Option RecordedSound

def colorDocument : Codec Color :=
  (list (natural 8 "u8")).refine
    (fun cs => match cs with
      | [r, g, b, a] => .ok ⟨r.toUInt8, g.toUInt8, b.toUInt8, a.toUInt8⟩
      | cs => .error (.invalidLength cs.length "an array of length 4"))
    (fun c => c.channels.map (·.toNat))

def recordedFrameDocument : Codec RecordedFrame :=
  (record "RecordedFrame" <|
    required "timestamp_us" (signed 64 "i64") <|
    required "keyframe" boolean <|
    required "color" colorDocument done).imap
    (fun (t, k, c, _) => ⟨t, k, c⟩)
    (fun f => (f.timestamp, f.keyframe, f.color, ()))

def recordedSoundDocument : Codec RecordedSound :=
  (record "RecordedSound" <|
    required "sample_rate" (natural 32 "u32") <|
    required "channels" (natural 16 "u16") <|
    required "frames" (natural 64 "u64") <|
    required "blocks" (natural 64 "u64") <|
    required "peak" single done).imap
    (fun (r, c, f, b, p, _) => ⟨r, c, f, b, p⟩)
    (fun s => (s.sampleRate, s.channels, s.frames, s.blocks, s.peak, ()))

def recordingDocument : Codec Recording :=
  (record "Recording" <|
    required "mime" text <|
    required "width" (natural 32 "u32") <|
    required "height" (natural 32 "u32") <|
    required "fps" double <|
    required "video" (list recordedFrameDocument) <|
    nullable "audio" recordedSoundDocument done).imap
    (fun (m, w, h, f, v, a, _) => ⟨m, w, h, f, v, a⟩)
    (fun r => (r.mime, r.width, r.height, r.fps, r.video, r.audio, ()))

def Recording.bytes (r : Recording) : Bytes := Utf8.encode (recordingDocument.toValue r).compact

/-- Fails where a number was not finite when it was written. -/
def Recording.ofBytes (b : Bytes) : Except Fault Recording := recordingDocument.parseBytes b

end Montage
