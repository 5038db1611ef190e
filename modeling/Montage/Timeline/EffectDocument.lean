import Montage.Json.Codec
import Montage.Timeline.Clip

/- Effects in documents. The kind is named by a tag that may stand anywhere in an
   object, or first in a list; everything else is kept until the kind is known. -/
namespace Montage.EffectDocument
open Json

inductive Kind where
  | brightness
  | contrast
  | saturation
  | grayscale
  deriving DecidableEq, Repr

def kinds : List (String × Kind) :=
  [("brightness", .brightness), ("contrast", .contrast), ("saturation", .saturation),
    ("grayscale", .grayscale)]

def tagName : String := "type"
def valueName : String := "value"

/-- What stands beside the tag. -/
inductive Content where
  | fields (entries : List (String × Value))
  | items (values : List Value)

def strength (title : String) : Content → Except Fault Float
  | .fields entries =>
    match entries.filter fun e => e.1 == valueName with
    | [] => .error (.missingField valueName)
    | [e] => Codec.double.ofValue e.2
    | e :: _ => do
      let _ ← Codec.double.ofValue e.2
      .error (.duplicateField valueName)
  | .items [] => .error (.invalidLength 0 ("struct variant Effect::" ++ title ++ " with 1 element"))
  | .items [v] => Codec.double.ofValue v
  | .items (v :: vs) => do
    let _ ← Codec.double.ofValue v
    .error (.invalidLength (vs.length + 1) "1 element in sequence")

def build (kind : Kind) (content : Content) : Except Fault (Effect Float) :=
  match kind with
  | .brightness => .brightness <$> strength "Brightness" content
  | .contrast => .contrast <$> strength "Contrast" content
  | .saturation => .saturation <$> strength "Saturation" content
  | .grayscale =>
    match content with
    | .items (v :: vs) => .error (.invalidLength (v :: vs).length "0 elements in sequence")
    | _ => .ok .grayscale

/-- Fields of a tagged object after its opening brace: the tag, and the others in order. -/
def readFieldsFuel (depth : Nat) :
    Nat → Bool → Option Kind → List Char → Except Fault ((Option Kind × List (String × Value)) × List Char)
  | 0, _, _, _ => .error .endedInObject
  | fuel + 1, first, tag, cs => do
    match ← nextKey first cs with
    | (false, r) => return ((tag, []), r)
    | (true, r) =>
      let (key, r) ← readString r
      if key = tagName then
        if tag.isSome then .error (.duplicateField tagName)
        else
          let (_, r) ← colon r
          let (kind, r) ← Codec.readName kinds depth r
          readFieldsFuel depth fuel false (some kind) r
      else
        let (_, r) ← colon r
        let (v, r) ← readValue depth r
        let ((tag, others), r) ← readFieldsFuel depth fuel false tag r
        return ((tag, (key, v) :: others), r)

def read : Reader (Effect Float) := fun depth cs =>
  match skipBlanks cs with
  | [] => .error .endedInValue
  | '\x7b' :: r =>
    if depth ≤ 1 then .error .tooDeep
    else do
      let ((tag, others), r) ← readFieldsFuel (depth - 1) (r.length + 1) true none r
      match tag with
      | none => .error (.missingField tagName)
      | some kind => return (← build kind (.fields others), r)
  | '[' :: r =>
    if depth ≤ 1 then .error .tooDeep
    else do
      match ← nextItem true r with
      | (false, _) => .error (.missingField tagName)
      | (true, r) =>
        let (kind, r) ← Codec.readName kinds (depth - 1) r
        let (vs, r) ← readItemsFuel (readValue (depth - 1)) (r.length + 1) false r
        return (← build kind (.items vs), r)
  | cs => mismatch "internally tagged enum Effect" cs

def tagOf : Value → Except Fault Kind
  | .text s => Codec.nameIndex kinds s
  | v => Codec.wrongType "variant identifier" v

def ofValue : Value → Except Fault (Effect Float)
  | .object entries =>
    match entries.filter fun e => e.1 == tagName with
    | [] => .error (.missingField tagName)
    | [e] => do build (← tagOf e.2) (.fields (entries.filter fun e => e.1 != tagName))
    | _ => .error (.duplicateField tagName)
  | .list [] => .error (.missingField tagName)
  | .list (v :: vs) => do build (← tagOf v) (.items vs)
  | v => Codec.wrongType "internally tagged enum Effect" v

def tagged (name : String) (rest : List (String × Value)) : Value :=
  .object ((tagName, .text name) :: rest)

def toValue : Effect Float → Value
  | .brightness x => tagged "brightness" [(valueName, .number x)]
  | .contrast x => tagged "contrast" [(valueName, .number x)]
  | .saturation x => tagged "saturation" [(valueName, .number x)]
  | .grayscale => tagged "grayscale" []

def codec : Codec (Effect Float) := ⟨read, ofValue, toValue⟩

end Montage.EffectDocument
