import Montage.Console.Shell
import Montage.Sound.Wave
import Std.Time.Format

/- The program itself: it looks at the files that matter, runs, prints, and puts in place what
   the run has written. It reaches no service and starts no other program. -/
open Montage Montage.Console

/-- Adds a path to the tree as it is found, with or without the content of a file. -/
def lookAt (withContent : Bool) (tree : FileTree) (path : String) : IO FileTree := do
  try
    if ← (← IO.FS.realPath path).isDir then
      return (tree.makeDirectories path).toOption.getD tree
    else
      let content ← if withContent then IO.FS.readBinFile path else pure .empty
      if ← (← IO.FS.realPath path).pathExists then return tree.add path content.toList
      else return tree
  catch _ => return tree

def stamp : IO String := do
  return (← Std.Time.PlainDateTime.now).format "uuuuMMdd-HHmmss"

def main (arguments : List String) : IO UInt32 := do
  let surroundings : Surroundings :=
    { configPath := Config.path (← IO.getEnv "XDG_CONFIG_HOME") (← IO.getEnv "HOME")
      service := .unreachable
      programs := .none
      fonts := .outlines
      sounds := Wave.read
      temporary := (← IO.getEnv "TMPDIR").getD "/tmp"
      scratch := "cutroom-scratch"
      stamp := ← stamp }
  let files ← (surroundings.openedFirst arguments).foldlM (lookAt true) .empty
  let files ← (surroundings.fontPaths files).foldlM (lookAt true) files
  let files ← (surroundings.lookedFor files arguments).foldlM (lookAt false) files
  let session := Session.start .channel .clear (.stepping 1000) files
  let ending := runProgram surroundings arguments session
  IO.print ending.output
  for (path, content) in ending.written do
    IO.FS.writeBinFile path ⟨content.toArray⟩
  if ending.code = 2 then IO.eprint usage
  if let some complaint := ending.complaint then IO.eprintln complaint
  return ending.code.toUInt32
