import Montage.Text.Path
import Montage.Text.Utf8

/- The files a program can see: a finite tree, with directories where the files need
   them. -/
namespace Montage

inductive FileFault where
  | notFound
  | denied
  | occupied
  | notDirectory
  | isDirectory
  | notText
  deriving DecidableEq, Repr

def FileFault.message : FileFault → String
  | .notFound => "No such file or directory (os error 2)"
  | .denied => "Permission denied (os error 13)"
  | .occupied => "File exists (os error 17)"
  | .notDirectory => "Not a directory (os error 20)"
  | .isDirectory => "Is a directory (os error 21)"
  | .notText => "stream did not contain valid UTF-8"

/-- Later files replace earlier ones at the same place. -/
structure FileTree where
  files : List (List Path.Part × Bytes)
  /-- Directories that are there even without files. -/
  directories : List (List Path.Part)

inductive FileTree.Entry where
  | missing
  /-- A file stands where a directory is needed. -/
  | blocked
  | directory
  | file (content : Bytes)

namespace FileTree
open Montage.Path

def empty : FileTree := ⟨[], []⟩

/-- The place itself, without dots and steps up. -/
def settle (parts : List Part) : List Part :=
  parts.foldl (fun done part =>
    match part with
    | .here => done
    | .up =>
      match done.getLast? with
      | some (.name _) => done.dropLast
      | some .root => done
      | _ => done ++ [.up]
    | p => done ++ [p]) []

def isBelow (place file : List Part) : Bool :=
  place.isPrefixOf file && decide (place.length < file.length)

def entryAt (t : FileTree) (place : List Part) : Entry :=
  match t.files.reverse.find? fun f => f.1 == place with
  | some f => .file f.2
  | none =>
    if place = [] ∨ place = [.root] ∨ t.files.any (fun f => isBelow place f.1) ∨
        t.directories.any (fun d => place.isPrefixOf d) then .directory
    else if t.files.any fun f => isBelow f.1 place then .blocked
    else .missing

/-- A name that ends in a separator must be a directory. -/
def entry (t : FileTree) (path : String) : Entry :=
  if path = "" then .missing
  else
    match t.entryAt (settle (components path)) with
    | .file content => if endsInSlash path then .blocked else .file content
    | e => e

def exists? (t : FileTree) (path : String) : Bool :=
  match t.entry path with
  | .directory | .file _ => true
  | _ => false

def isFile (t : FileTree) (path : String) : Bool :=
  match t.entry path with
  | .file _ => true
  | _ => false

def read (t : FileTree) (path : String) : Except FileFault Bytes :=
  match t.entry path with
  | .file content => .ok content
  | .directory => .error .isDirectory
  | .blocked => .error .notDirectory
  | .missing => .error .notFound

def readText (t : FileTree) (path : String) : Except FileFault String := do
  match Utf8.decode (← t.read path) with
  | .ok s => return s
  | .error _ => .error .notText

def makeDirectories (t : FileTree) (path : String) : Except FileFault FileTree :=
  match t.entry path with
  | .file _ => .error .occupied
  | .blocked => .error .notDirectory
  | .directory => .ok t
  | .missing => .ok { t with directories := t.directories ++ [settle (components path)] }

def add (t : FileTree) (path : String) (content : Bytes) : FileTree :=
  { t with files := t.files ++ [(settle (components path), content)] }

/-- Makes a file or replaces one; a name that ends in a separator cannot be a file. -/
def write (t : FileTree) (path : String) (content : Bytes) : Except FileFault FileTree :=
  if path = "" then .error .notFound
  else
    match t.entryAt (settle (components path)) with
    | .directory => .error .isDirectory
    | .blocked => .error .notDirectory
    | _ => if endsInSlash path then .error .isDirectory else .ok (t.add path content)

/-- Writes a file whose directory is there already. -/
def create (t : FileTree) (path : String) (content : Bytes) : Except FileFault FileTree :=
  match t.entryAt (settle (components path)).dropLast with
  | .missing => .error .notFound
  | .blocked | .file _ => .error .notDirectory
  | .directory => t.write path content

def ofFiles (files : List (String × Bytes)) : FileTree :=
  files.foldl (fun t f => t.add f.1 f.2) empty

end FileTree
end Montage
