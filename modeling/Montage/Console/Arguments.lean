/- The words of a command line: options with and without values, long, short and in
   clusters, and what is left between them. -/
namespace Montage.Console

structure OptionSpec where
  name : String
  letter : Option Char
  takesValue : Bool
  deriving DecidableEq, Repr

namespace OptionSpec

def flag (name : String) (letter : Option Char) : OptionSpec := ⟨name, letter, false⟩
def value (name : String) (letter : Option Char) : OptionSpec := ⟨name, letter, true⟩

end OptionSpec

inductive Item where
  | flag (name : String)
  | option (name value : String)
  | positional (text : String)
  deriving DecidableEq, Repr

def Item.name? : Item → Option String
  | .flag name | .option name _ => some name
  | .positional _ => none

/-- What one word says, and the option whose value is still to come. -/
structure Word where
  items : List Item
  pending : Option String
  deriving DecidableEq, Repr

namespace Word

def ofItem (i : Item) : Word := ⟨[i], none⟩

/-- A name, and a value after an equals sign. -/
def splitValue (cs : List Char) : String × Option String :=
  (String.ofList (cs.takeWhile (· != '=')),
    match cs.dropWhile (· != '=') with
    | _ :: value => some (String.ofList value)
    | [] => none)

def ofLong (specs : List OptionSpec) (cs : List Char) : Option Word := do
  let (name, value) := splitValue cs
  let spec ← specs.find? fun s => s.name == name
  match spec.takesValue, value with
  | false, none => some (ofItem (.flag name))
  | false, some _ => none
  | true, some v => some (ofItem (.option name v))
  | true, none => some ⟨[], some name⟩

/-- Letters in a row; the first that takes a value has the rest for it. -/
def ofLetters (specs : List OptionSpec) : List Char → Option Word
  | [] => some ⟨[], none⟩
  | c :: rest => do
    let spec ← specs.find? fun s => s.letter == some c
    if spec.takesValue then
      match rest with
      | [] => some ⟨[], some spec.name⟩
      | '=' :: value | value => some (ofItem (.option spec.name (String.ofList value)))
    else
      let word ← ofLetters specs rest
      some ⟨.flag spec.name :: word.items, word.pending⟩

def read (specs : List OptionSpec) (text : String) : Option Word :=
  match text.toList with
  | ['-'] => some (ofItem (.positional text))
  | '-' :: '-' :: cs => ofLong specs cs
  | '-' :: cs => ofLetters specs cs
  | _ => some (ofItem (.positional text))

end Word

/-- A lone hyphen is a value like any other. -/
def isOption (text : String) : Bool := text != "-" && text.toList.head? == some '-'

/-- Reads a whole line. After two hyphens nothing is an option, and nothing that looks like an
option is the value of another. -/
def readLine (specs : List OptionSpec) : List String → Option (List Item)
  | [] => some []
  | text :: rest =>
    if text = "--" then some (rest.map .positional)
    else
      match Word.read specs text with
      | none => none
      | some ⟨items, none⟩ => (readLine specs rest).map (items ++ ·)
      | some ⟨items, some name⟩ =>
        match rest with
        | [] => none
        | value :: rest =>
          if isOption value then none
          else (readLine specs rest).map (items ++ .option name value :: ·)

/-- No option is set twice. -/
def setOnce (items : List Item) : Bool := decide (items.filterMap Item.name?).Nodup

/-- Options of a line, each at most once, and the positions. -/
structure Line where
  items : List Item

namespace Line

def read (specs : List OptionSpec) (words : List String) : Option Line := do
  let items ← readLine specs words
  if setOnce items then some ⟨items⟩ else none

def has (l : Line) (name : String) : Bool := l.items.contains (.flag name)

def value? (l : Line) (name : String) : Option String :=
  l.items.findSome? fun i =>
    match i with
    | .option n v => if n = name then some v else none
    | _ => none

def positions (l : Line) : List String :=
  l.items.filterMap fun i =>
    match i with
    | .positional text => some text
    | _ => none

end Line
end Montage.Console
