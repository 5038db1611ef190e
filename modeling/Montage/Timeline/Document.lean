import Montage.Timeline.EffectDocument
import Montage.Timeline.Timing
import Montage.Timeline.Settings

/- The document form of projects and settings: field names, what may be left out, and
   what absence means. -/
namespace Montage
open Json Json.Codec Json.Fields

def cropDocument : Codec (Crop Float) :=
  (record "Crop" <|
    required "left" double <| required "right" double <|
    required "top" double <| required "bottom" double done).imap
    (fun (l, r, t, b, _) => ⟨l, r, t, b⟩)
    (fun c => (c.left, c.right, c.top, c.bottom, ()))

def transformDocument : Codec (Transform Float) :=
  (record "Transform" <|
    defaulted "x" double 0 <| defaulted "y" double 0 <|
    defaulted "scaleX" double 1 <| defaulted "scaleY" double 1 <|
    defaulted "rotation" double 0 done).imap
    (fun (x, y, sx, sy, r, _) => ⟨x, y, sx, sy, r⟩)
    (fun t => (t.x, t.y, t.scaleX, t.scaleY, t.rotation, ()))

def textOverlayDocument : Codec (TextOverlay Float) :=
  (record "TextOverlay" <|
    required "text" text <| defaulted "x" double 0.5 <| defaulted "y" double 0.5 <|
    defaulted "fontSize" double 48 <| defaulted "color" text "#ffffff" <|
    defaulted "start" double 0 <| optional "duration" double done).imap
    (fun (s, x, y, size, color, start, duration, _) => ⟨s, x, y, size, color, start, duration⟩)
    (fun o => (o.text, o.x, o.y, o.fontSize, o.color, o.start, o.duration, ()))

def clipDocument : Codec (Clip Float) :=
  (record "Clip" <|
    required "id" text <| required "mediaId" text <| required "startTime" double <|
    defaulted "trimStart" double 0 <| defaulted "trimEnd" double 0 <|
    defaulted "speed" double 1 <| defaulted "reverse" boolean false <|
    defaulted "opacity" double 1 <| optional "transform" transformDocument <|
    optional "crop" cropDocument <| optional "textOverlay" textOverlayDocument <|
    listing "effects" EffectDocument.codec <| optional "linkedClipId" text done).imap
    (fun (id, mediaId, startTime, trimStart, trimEnd, speed, reverse, opacity, transform, crop,
        textOverlay, effects, linkedClipId, _) =>
      { id, mediaId, startTime, trimStart, trimEnd, speed, reverse, opacity, transform, crop,
        textOverlay, effects, linkedClipId })
    (fun c => (c.id, c.mediaId, c.startTime, c.trimStart, c.trimEnd, c.speed, c.reverse, c.opacity,
      c.transform, c.crop, c.textOverlay, c.effects, c.linkedClipId, ()))

def mediaKindDocument : Codec MediaKind := choice [("video", .video), ("audio", .audio)]

def mediaFileDocument : Codec (MediaFile Float) :=
  (record "MediaFile" <|
    required "id" text <| required "name" text <| required "type" mediaKindDocument <|
    required "url" text <| required "duration" double <| optional "framerate" double <|
    optional "width" (natural 32 "u32") <| optional "height" (natural 32 "u32") <|
    optional "thumbnail" text <| optional "waveform" (list single) done).imap
    (fun (id, name, kind, path, duration, framerate, width, height, thumbnail, waveform, _) =>
      { id, name, kind, path, duration, framerate, width, height, thumbnail, waveform })
    (fun m => (m.id, m.name, m.kind, m.path, m.duration, m.framerate, m.width, m.height,
      m.thumbnail, m.waveform, ()))

def trackDocument : Codec (Track Float) :=
  (record "Track" <|
    required "id" text <| required "type" mediaKindDocument <|
    defaulted "clips" (list clipDocument) [] <| defaulted "muted" boolean false done).imap
    (fun (id, kind, clips, muted, _) => { id, kind, clips, muted })
    (fun t => (t.id, t.kind, t.clips, t.muted, ()))

def transitionKindDocument : Codec TransitionKind :=
  choice [("fadeIn", .fadeIn), ("fadeOut", .fadeOut), ("crossfade", .crossfade)]

def transitionDocument : Codec (Transition Float) :=
  (record "Transition" <|
    required "id" text <| required "clipId" text <| required "kind" transitionKindDocument <|
    required "duration" double done).imap
    (fun (id, clipId, kind, duration, _) => { id, clipId, kind, duration })
    (fun t => (t.id, t.clipId, t.kind, t.duration, ()))

def projectFields : Fields (String × String × List (MediaFile Float) × List (Track Float) ×
    List (Transition Float) × Float × Unit) :=
  required "id" text <| required "name" text <|
  defaulted "mediaFiles" (list mediaFileDocument) [] <|
  defaulted "tracks" (list trackDocument) [] <|
  defaulted "transitions" (list transitionDocument) [] <|
  defaulted "framerate" double 30 done

def projectDocument : Codec (Project Float) :=
  (record "Project" projectFields).imap
    (fun (id, name, mediaFiles, tracks, transitions, framerate, _) =>
      { id, name, mediaFiles, tracks, transitions, framerate })
    (fun p => (p.id, p.name, p.mediaFiles, p.tracks, p.transitions, p.framerate, ()))

def containerDocument : Codec Container := choice Container.all
def engineDocument : Codec Engine := choice Engine.all

def settingsDocument : Codec (RenderSettings Float) :=
  (record "RenderSettings" <|
    required "width" (natural 32 "u32") <| required "height" (natural 32 "u32") <|
    required "bitrate" (natural 32 "u32") <| required "framerate" double <|
    required "format" containerDocument <| defaulted "engine" engineDocument .automatic done).imap
    (fun (width, height, bitrate, framerate, format, engine, _) =>
      { width, height, bitrate, framerate, format, engine })
    (fun s => (s.width, s.height, s.bitrate, s.framerate, s.format, s.engine, ()))

/-- A project as it is sent to a service: its fields, then its length. -/
def Project.toWire (p : Project Float) : Value :=
  match projectDocument.toValue p with
  | .object fields => .object (fields ++ [("duration", .number p.duration)])
  | v => v

end Montage
