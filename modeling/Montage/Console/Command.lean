import Montage.Console.Arguments
import Montage.Number.Numeral
import Montage.Number.Power
import Montage.Timeline.Settings

/- What a user may ask of the program, and how a command line says it. -/
namespace Montage.Console

structure RenderOrder where
  project : String
  output : Option String
  width : Nat
  height : Nat
  /-- Else the framerate of the project. -/
  framerate : Option Float
  bitrate : Nat
  format : Container
  engine : Engine

structure PlanOrder where
  project : String
  width : Nat
  height : Nat
  format : Container
  asDocument : Bool

inductive Command where
  | render (order : RenderOrder)
  | plan (order : PlanOrder)
  | info (project : String) (asDocument : Bool)
  | check

inductive Directive where
  | run (command : Command)
  | help
  | version

def programName : String := "cutroom"
def programVersion : String := "0.1.0"

def usage : String :=
  "Render multi-track timeline projects to a single video file\n\n" ++
  "Usage: " ++ programName ++ " [-v] <COMMAND>\n\n" ++
  "Commands:\n" ++
  "  render <PROJECT> [-o FILE] [--width N] [--height N] [--fps F] [--bitrate N]\n" ++
  "                   [-f mp4|webm] [-e auto|python|gpu|compatibility]\n" ++
  "  plan <PROJECT> [--width N] [--height N] [-f mp4|webm] [--json]\n" ++
  "  info <PROJECT> [--json]\n" ++
  "  check\n"

namespace Line

/-- The value of an option, read; none when it is there and cannot be read. -/
def valueOr {α : Type} (l : Line) (name : String) (read : String → Option α) (absent : α) :
    Option α :=
  match l.value? name with
  | none => some absent
  | some text => read text

end Line

def count? (text : String) : Option Nat := do
  let n ← wholeNumber? text.toList
  if 0 ≤ n ∧ n ≤ unsignedMax 32 then some n.toNat else none

def number? (text : String) : Option Float := storedNumber? text.toList

def path? (text : String) : Option String := if text = "" then none else some text

def container? (text : String) : Option Container := (Container.ofName text).toOption
def engine? (text : String) : Option Engine := (Engine.ofName text).toOption

/-- Accepted everywhere. More diagnostics do not change what a command prints. -/
def globalOptions : List OptionSpec := [.flag "verbose" (some 'v'), .flag "help" (some 'h')]
def topOptions : List OptionSpec := .flag "version" (some 'V') :: globalOptions

def sizeOptions : List OptionSpec :=
  [.value "width" none, .value "height" none, .value "format" (some 'f')]
def documentOptions : List OptionSpec := [.flag "json" none]
def renderOptions : List OptionSpec :=
  sizeOptions ++ [.value "output" (some 'o'), .value "fps" none, .value "bitrate" none,
    .value "engine" (some 'e')]

def standardSettings : RenderSettings Float := RenderSettings.standard

def project? (l : Line) : Option String :=
  match l.positions with
  | [text] => path? text
  | _ => none

def renderCommand (l : Line) : Option Command := do
  let d := standardSettings
  return .render
    { project := ← project? l
      output := ← l.valueOr "output" (fun s => (path? s).map some) none
      width := ← l.valueOr "width" count? d.width
      height := ← l.valueOr "height" count? d.height
      framerate := ← l.valueOr "fps" (fun s => (number? s).map some) none
      bitrate := ← l.valueOr "bitrate" count? d.bitrate
      format := ← l.valueOr "format" container? d.format
      engine := ← l.valueOr "engine" engine? d.engine }

def planCommand (l : Line) : Option Command := do
  let d := standardSettings
  return .plan
    { project := ← project? l
      width := ← l.valueOr "width" count? d.width
      height := ← l.valueOr "height" count? d.height
      format := ← l.valueOr "format" container? d.format
      asDocument := l.has "json" }

def infoCommand (l : Line) : Option Command := do
  return .info (← project? l) (l.has "json")

def checkCommand (l : Line) : Option Command := if l.positions.isEmpty then some .check else none

def commands : List (String × List OptionSpec × (Line → Option Command)) :=
  [("render", renderOptions, renderCommand),
    ("plan", sizeOptions ++ documentOptions, planCommand),
    ("info", documentOptions, infoCommand),
    ("check", [], checkCommand)]

/-- Options before the name of the command are those of the program. -/
def Directive.ofArguments (arguments : List String) : Option Directive := do
  let before := arguments.takeWhile isOption
  if before.contains "--" then none
  let top ← Line.read topOptions before
  if top.has "help" then return .help
  if top.has "version" then return .version
  match arguments.dropWhile isOption with
  | [] => none
  | "help" :: _ => return .help
  | name :: rest =>
    let (_, options, command) ← commands.find? fun c => c.1 == name
    let line ← Line.read (options ++ globalOptions) rest
    if line.has "help" then return .help
    return .run (← command line)

end Montage.Console
