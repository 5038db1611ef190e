import Montage.Json.Value
import Montage.Text.Quoted

/- Why a document could not be read: it is not well formed, it stops early, or it is
   well formed but holds the wrong thing. -/
namespace Montage.Json

inductive Category where
  | syntactic
  | data
  | ended
  deriving DecidableEq, Repr

/-- What stood where something else was expected. -/
inductive Found where
  | null
  | boolean (b : Bool)
  | integer (n : Int)
  | number (x : Float)
  | text (s : String)
  | sequence
  | map

def Found.describe : Found → String
  | .null => "null"
  | .boolean b => "boolean `" ++ (if b then "true" else "false") ++ "`"
  | .integer n => "integer `" ++ toString n ++ "`"
  | .number x => "floating point `" ++ NumberStyle.document.double x ++ "`"
  | .text s => "string " ++ Text.diagnosticQuote s
  | .sequence => "sequence"
  | .map => "map"

def Found.ofValue : Value → Found
  | .null => .null
  | .boolean b => .boolean b
  | .integer n => .integer n
  | .number x => .number x
  | .sample x => .number x.toFloat
  | .text s => .text s
  | .list _ => .sequence
  | .object _ => .map

inductive Fault where
  | endedInValue
  | endedInList
  | endedInObject
  | endedInString
  | expectedValue
  | expectedIdentifier
  | expectedColon
  | expectedCommaOrBracket
  | expectedCommaOrBrace
  | trailingComma
  | trailingCharacters
  | keyNotString
  | invalidNumber
  | numberOutOfRange
  | invalidEscape
  | loneSurrogate
  | cutSurrogate
  | controlCharacter
  | notText
  | tooDeep
  | invalidType (found : Found) (expected : String)
  | invalidValue (found : Found) (expected : String)
  | invalidLength (length : Nat) (expected : String)
  | unknownVariant (name : String) (known : List String)
  | missingField (name : String)
  | duplicateField (name : String)

namespace Fault

def ticked (s : String) : String := "`" ++ s ++ "`"

def choices : List String → String
  | [] => "there are no variants"
  | [a] => "expected " ++ ticked a
  | [a, b] => "expected " ++ ticked a ++ " or " ++ ticked b
  | names => "expected one of " ++ ", ".intercalate (names.map ticked)

def message : Fault → String
  | .endedInValue => "EOF while parsing a value"
  | .endedInList => "EOF while parsing a list"
  | .endedInObject => "EOF while parsing an object"
  | .endedInString => "EOF while parsing a string"
  | .expectedValue => "expected value"
  | .expectedIdentifier => "expected ident"
  | .expectedColon => "expected `:`"
  | .expectedCommaOrBracket => "expected `,` or `]`"
  | .expectedCommaOrBrace => "expected `,` or `\x7d`"
  | .trailingComma => "trailing comma"
  | .trailingCharacters => "trailing characters"
  | .keyNotString => "key must be a string"
  | .invalidNumber => "invalid number"
  | .numberOutOfRange => "number out of range"
  | .invalidEscape => "invalid escape"
  | .loneSurrogate => "lone leading surrogate in hex escape"
  | .cutSurrogate => "unexpected end of hex escape"
  | .controlCharacter => "control character (\\u0000-\\u001F) found while parsing a string"
  | .notText => "invalid unicode code point"
  | .tooDeep => "recursion limit exceeded"
  | .invalidType f e => "invalid type: " ++ f.describe ++ ", expected " ++ e
  | .invalidValue f e => "invalid value: " ++ f.describe ++ ", expected " ++ e
  | .invalidLength n e => "invalid length " ++ toString n ++ ", expected " ++ e
  | .unknownVariant n known => "unknown variant " ++ ticked n ++ ", " ++ choices known
  | .missingField n => "missing field " ++ ticked n
  | .duplicateField n => "duplicate field " ++ ticked n

def category : Fault → Category
  | .endedInValue | .endedInList | .endedInObject | .endedInString => .ended
  | .invalidType .. | .invalidValue .. | .invalidLength .. | .unknownVariant ..
  | .missingField .. | .duplicateField .. => .data
  | _ => .syntactic

end Fault
end Montage.Json
