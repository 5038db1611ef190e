import Montage.Timeline.Document
import Montage.Timeline.Validity
import Montage.Files

/- Projects in files. -/
namespace Montage

inductive ProjectFault where
  | files (path : String) (fault : FileFault)
  | unreadable (path : String) (fault : Json.Fault)
  | invalid (issues : List String)

def ProjectFault.message : ProjectFault → String
  | .files path f => "I/O error at " ++ path ++ ": " ++ f.message
  | .unreadable path f => "Parse error in " ++ path ++ ": " ++ f.message
  | .invalid issues => "Invalid project: " ++ "; ".intercalate issues

namespace Project

def parse (text : String) : Except Json.Fault (Project Float) := projectDocument.parse text

def load (files : FileTree) (path : String) : Except ProjectFault (Project Float) :=
  match files.readText path with
  | .error f => .error (.files path f)
  | .ok text =>
    match parse text with
    | .error f => .error (.unreadable path f)
    | .ok p => .ok p

def savedText (p : Project Float) : String := (projectDocument.toValue p).indented

/-- The directory part of a path that has one. -/
def parentOf (path : String) : Option String :=
  match (Path.splitSlash path.toList).dropLast with
  | [] => none
  | parts =>
    let s := String.ofList ("/".toList.intercalate parts)
    if s = "" then none else some s

/-- The tree with the directory of a file made. -/
def madeParent (files : FileTree) (path : String) : Except ProjectFault FileTree :=
  match parentOf path with
  | none => .ok files
  | some parent =>
    match files.makeDirectories parent with
    | .error f => .error (.files parent f)
    | .ok files => .ok files

/-- Directories are made where they are missing. -/
def save (p : Project Float) (files : FileTree) (path : String) : Except ProjectFault FileTree := do
  let files ← madeParent files path
  match files.write path (Utf8.encode p.savedText) with
  | .error f => .error (.files path f)
  | .ok files => .ok files

def issueTexts (p : Project Float) : List String := p.issues.map Issue.message

def ensureValid (p : Project Float) : Except ProjectFault Unit :=
  if p.issues.isEmpty then .ok () else .error (.invalid p.issueTexts)

/-- Media whose file is not there. -/
def missingSources {K : Type} (p : Project K) (files : FileTree) : List String :=
  (p.mediaFiles.map (·.path)).filter fun path => !files.exists? path

def new {K : Type} (id name : String) (framerate : K) : Project K :=
  { id, name, framerate
    mediaFiles := []
    tracks := []
    transitions := [] }

end Project

/-- A random identifier of version 4, from sixteen random bytes. -/
def randomIdentifier (bytes : Bytes) : String :=
  let marked := bytes.zipIdx.map fun (b, i) =>
    if i = 6 then b % 16 + 0x40 else if i = 8 then b % 64 + 0x80 else b
  let hex := marked.map Color.hexByte
  let group (first count : Nat) := String.ofList ((hex.drop first).take count).flatten
  "-".intercalate [group 0 4, group 4 2, group 6 2, group 8 2, group 10 6]

end Montage
