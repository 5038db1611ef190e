import Montage.Files
import Montage.Sound.Pcm

/- Sound files: what they hold is told by a reader. -/
namespace Montage

/-- Reads the whole sound out of the bytes of a file. -/
abbrev SoundReader := Bytes → Option (Sound Float32)

def decodeSound (reader : SoundReader) (files : FileTree) (path : String) :
    Except RenderFault (Sound Float32) :=
  match files.read path with
  | .ok bytes =>
    match reader bytes with
    | some sound => .ok sound
    | none => .error (.audio ("No readable sound in " ++ path))
  | .error .notFound => .error (.fileNotFound path)
  | .error .isDirectory => .error (.audio ("No readable sound in " ++ path))
  | .error e => .error (.files e.message)

end Montage
