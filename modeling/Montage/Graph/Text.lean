import Montage.Graph.Filter
import Montage.Number.Style

/- The written form of a filter graph. -/
namespace Montage

/-- Six places; what would print as a signed zero is zero. -/
def sixPlaces (v : Float) : String := fixedPlaces 6 (if v.abs < 5e-7 then 0 else v)

def Gain.text : Gain Float → String
  | .rising o r => "min(1,max(0,(t+" ++ sixPlaces o ++ ")/" ++ sixPlaces r ++ "))"
  | .falling c o r =>
    "min(1,max(0,(" ++ sixPlaces c ++ "-t-" ++ sixPlaces o ++ ")/" ++ sixPlaces r ++ "))"
  | .least a b => "min(" ++ a.text ++ "," ++ b.text ++ ")"

namespace Graph

def plain (v : Float) : String := NumberStyle.plain.double v

def Label.text : Label → String
  | .source i .video => toString i ++ ":v"
  | .source i .audio => toString i ++ ":a"
  | .videoSpan n => "v" ++ toString n
  | .backdrop n => "b" ++ toString n
  | .foreground n => "b" ++ toString n ++ "fg"
  | .audioSpan n => "a" ++ toString n
  | .audioTrack n => "t" ++ toString n
  | .untitled => "vcat"
  | .videoOut => "vout"
  | .audioOut => "aout"

def Label.bracketed (l : Label) : String := "[" ++ l.text ++ "]"

/-- A file name as the value of a filter option. -/
def quotedPath (path : String) : String :=
  let inner := path.toList.flatMap fun c =>
    if c = '\\' then ['/'] else if c = '\'' then ['\'', '\\', '\'', '\''] else [c]
  String.ofList ('\'' :: (inner ++ ['\'']))

def colorText (c : Color) : String :=
  String.ofList ('0' :: 'x' :: (Color.hexByte c.red ++ Color.hexByte c.green ++ Color.hexByte c.blue)) ++
    "@" ++ fixedPlaces 3 (Float.ofNat c.alpha.toNat / 255)

def Titling.text (t : Titling Float) : String :=
  "drawtext=" ++ (match t.fontPath with
    | some font => "fontfile=" ++ quotedPath font ++ ":"
    | none => "") ++
  "textfile=" ++ quotedPath t.textPath ++ ":fontcolor=" ++ colorText t.color ++
  ":fontsize=" ++ plain t.size ++
  ":x=" ++ sixPlaces t.x ++ "*w-text_w/2:y=" ++ sixPlaces t.y ++ "*h-text_h/2:enable='between(t," ++
  sixPlaces t.start ++ "," ++ sixPlaces t.stop ++ ")'"

def AudioShape.layout (s : AudioShape) : String := if s.mono then "mono" else "stereo"

def sized (w h : Nat) (mark : String) : String := toString w ++ mark ++ toString h

def Filter.text : Filter Float → String
  | .trim a d => "trim=start=" ++ sixPlaces a ++ ":duration=" ++ sixPlaces d
  | .trimTo d => "trim=duration=" ++ sixPlaces d
  | .restartTime => "setpts=PTS-STARTPTS"
  | .reverse => "reverse"
  | .changeSpeed s => "setpts=PTS/" ++ sixPlaces s
  | .frameRate f => "fps=" ++ plain f
  | .brightness v => "eq=brightness=" ++ sixPlaces v
  | .contrast v => "eq=contrast=" ++ sixPlaces v
  | .saturation v => "eq=saturation=" ++ sixPlaces v
  | .grayscale => "hue=s=0"
  | .fadeIn d => "fade=t=in:st=0:d=" ++ sixPlaces d
  | .fadeOut a d => "fade=t=out:st=" ++ sixPlaces a ++ ":d=" ++ sixPlaces d
  | .planarColor => "format=gbrp"
  | .dim a =>
    let a := sixPlaces a
    "colorchannelmixer=rr=" ++ a ++ ":gg=" ++ a ++ ":bb=" ++ a
  | .fitInside w h => "scale=" ++ sized w h ":" ++ ":force_original_aspect_ratio=decrease"
  | .padTo w h => "pad=" ++ sized w h ":" ++ ":(ow-iw)/2:(oh-ih)/2"
  | .encodable => "format=yuv420p"
  | .squarePixels => "setsar=1"
  | .holdLast d => "tpad=stop_mode=clone:stop_duration=" ++ sixPlaces d
  | .crop w h x y =>
    "crop=w=iw*" ++ sixPlaces w ++ ":h=ih*" ++ sixPlaces h ++ ":x=iw*" ++ sixPlaces x ++
      ":y=ih*" ++ sixPlaces y
  | .stretch x y =>
    "scale=w='max(2,trunc(iw*" ++ sixPlaces x ++ "/2)*2)':h='max(2,trunc(ih*" ++ sixPlaces y ++
      "/2)*2)'"
  | .flipHorizontal => "hflip"
  | .flipVertical => "vflip"
  | .withAlpha => "format=rgba"
  | .fadeAlpha a => "colorchannelmixer=aa=" ++ sixPlaces a
  | .rotate degrees =>
    let r := sixPlaces (degrees * radiansPerDegree)
    "rotate=a=" ++ r ++ ":ow=rotw(" ++ r ++ "):oh=roth(" ++ r ++ "):c=black@0"
  | .black w h f d =>
    "color=c=black:s=" ++ sized w h "x" ++ ":r=" ++ plain f ++ ":d=" ++ sixPlaces d
  | .overlay x y => "overlay=x=(W-w)/2+" ++ sixPlaces x ++ ":y=(H-h)/2+" ++ sixPlaces y
  | .titling t => t.text
  | .joinVideo n => "concat=n=" ++ toString n ++ ":v=1:a=0"
  | .audioTrim a d => "atrim=start=" ++ sixPlaces a ++ ":duration=" ++ sixPlaces d
  | .audioTrimTo d => "atrim=duration=" ++ sixPlaces d
  | .audioRestartTime => "asetpts=PTS-STARTPTS"
  | .audioReverse => "areverse"
  | .tempo x => "atempo=" ++ sixPlaces x
  | .audioFormat s =>
    "aformat=sample_fmts=fltp:sample_rates=" ++ toString s.sampleRate ++
      ":channel_layouts=" ++ s.layout
  | .volume g => "volume='" ++ g.text ++ "':eval=frame"
  | .padSilence d => "apad=whole_dur=" ++ sixPlaces d
  | .silence s d =>
    "anullsrc=r=" ++ toString s.sampleRate ++ ":cl=" ++ s.layout ++ ":d=" ++ sixPlaces d
  | .joinAudio n => "concat=n=" ++ toString n ++ ":v=0:a=1"
  | .mix n => "amix=inputs=" ++ toString n ++ ":duration=longest:normalize=0"
  | .passAudio => "anull"

def Chain.text (c : Chain Float) : String :=
  String.join (c.consumes.map Label.bracketed) ++ ",".intercalate (c.filters.map Filter.text) ++
    c.produces.bracketed

def text (chains : List (Chain Float)) : String := ";".intercalate (chains.map Chain.text)

end Graph
end Montage
