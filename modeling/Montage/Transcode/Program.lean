import Montage.Clock
import Montage.Fault
import Montage.Number.Numeral
import Montage.Text.Blank

/- External programs as far as a render sees them: what they print, what they leave behind
   and how they end. -/
namespace Montage

structure Program where
  stdout : Bytes
  stderr : Bytes
  /-- Written to the place that the last argument names. -/
  output : Option Bytes
  exit : Nat
  /-- Does not end by itself. -/
  hangs : Bool

/-- Executable files by their paths, and commands on the search path. -/
structure Programs where
  executables : List (String × Program)
  commands : List (String × Program)

def Programs.none : Programs := ⟨[], []⟩

/-- One start of a program, with the files as they were. -/
structure Invocation where
  arguments : List String
  files : FileTree

namespace Programs

def isPath (name : String) : Bool := name.toList.contains '/'

def command? (ps : Programs) (name : String) : Option Program :=
  (ps.commands.find? fun c => c.1 == name).map (·.2)

def executable? (ps : Programs) (path : String) : Option Program :=
  let place := FileTree.settle (Path.components path)
  (ps.executables.find? fun e => FileTree.settle (Path.components e.1) == place).map (·.2)

/-- Whether a program seems to be there. -/
def isAvailable (ps : Programs) (files : FileTree) (name : String) : Bool :=
  if isPath name then files.isFile name else (ps.command? name).isSome

/-- The program of a name, or why it does not start. -/
def start (ps : Programs) (files : FileTree) (name : String) : Except RenderFault Program :=
  let refused (f : FileFault) : RenderFault := .backend (.transcoderStart name f.message)
  if isPath name then
    match files.entry name with
    | .missing => .error (.unavailable (.transcoderMissing name))
    | .blocked => .error (refused .notDirectory)
    | .directory => .error (refused .denied)
    | .file _ =>
      match ps.executable? name with
      | some p => .ok p
      | Option.none => .error (refused .denied)
  else
    match ps.command? name with
    | some p => .ok p
    | Option.none => .error (.unavailable (.transcoderMissing name))

end Programs

/-- What is known of a transcoder's progress. -/
structure TranscoderState where
  /-- Microseconds of output so far. -/
  outTime : Nat
  ended : Bool
  deriving DecidableEq, Repr

namespace TranscoderState

def start : TranscoderState := ⟨0, false⟩

/-- Both names of the time mean microseconds; values that are no numbers are passed over. -/
def update (s : TranscoderState) (key : String) (value : List Char) : TranscoderState :=
  if key = "out_time_us" ∨ key = "out_time_ms" then
    match wholeNumber? value with
    | some n => { s with outTime := n.toNat }
    | none => s
  else if key = "progress" then { s with ended := String.ofList value == "end" }
  else s

end TranscoderState

/-- A line of progress output: a key and its value. -/
def progressEntry? (line : String) : Option (String × List Char) :=
  let cs := Text.trim line.toList
  if cs.contains '=' then
    some (String.ofList (cs.takeWhile (· != '=')), Text.trim ((cs.dropWhile (· != '=')).drop 1))
  else none

/-- Lines of output, each with its line break. -/
def outputLines : Bytes → List Bytes
  | [] => []
  | b :: bs =>
    if b = 10 then [b] :: outputLines bs
    else
      match outputLines bs with
      | [] => [[b]]
      | line :: rest => (b :: line) :: rest

/-- Characters of error output that are kept. -/
def tailLength : Nat := 4000

/-- The end of what a program complained about. -/
def complaint (stderr : Bytes) : String :=
  let s := match Utf8.decode stderr with
    | .ok s => s
    | .error e => "<failed to read transcoder stderr: " ++ e.message ++ ">"
  let cs := Text.trim s.toList
  String.ofList (cs.drop (cs.length - tailLength))

end Montage
