import Montage.Codec.Decoder
import Montage.Codec.Writer
import Montage.Timeline.Project

/- Where decoders and writers come from, and which encoder is chosen. -/
namespace Montage

/-- What is reported to the choice of strategies. -/
structure CodecSupport where
  hardware : Bool
  /-- The encoder that would be used. -/
  encoder : Option String
  deriving DecidableEq, Repr

inductive Backend where
  /-- No codecs at all. -/
  | none
  /-- Made-up sources by media identifier, and a writer in memory. -/
  | synthetic (sources : List (String × Source Float)) (hardware : Bool) (traits : EncoderTraits)

namespace Backend

def standard : Backend := .none

def name : Backend → String
  | .none => "none"
  | .synthetic .. => "synthetic"

def support : Backend → CodecSupport
  | .none => ⟨false, Option.none⟩
  | .synthetic _ hardware _ => ⟨hardware, some "synthetic"⟩

/-- The samples of a file and a decoder for them, which takes the books. -/
def openVideo (b : Backend) (media : MediaFile Float) (books : Usage) :
    Except RenderFault (List Sample × Decoder) :=
  match b with
  | .none => .error (.unavailable (.noDecoder media.name))
  | .synthetic sources _ _ =>
    match sources.find? fun s => s.1 == media.id with
    | some (_, source) => .ok (source.samples, Decoder.opened source books)
    | Option.none => .error (.fileNotFound media.path)

def openWriter (b : Backend) (spec : OutputSpec) : Except RenderFault Writer :=
  match b with
  | .none => .error (.unavailable .noEncoder)
  | .synthetic _ _ traits => .ok (Writer.new spec traits)

end Backend

structure EncoderChoice where
  name : String
  hardware : Bool
  deriving DecidableEq, Repr

/-- The first hardware encoder that opens, else the software one; and the names tried. -/
def chooseEncoder (opens : String → Bool) (software : String) :
    List String → Option EncoderChoice × List String
  | [] => (if opens software then some ⟨software, false⟩ else none, [software])
  | name :: rest =>
    if opens name then (some ⟨name, true⟩, [name])
    else
      let (choice, tried) := chooseEncoder opens software rest
      (choice, name :: tried)

end Montage
