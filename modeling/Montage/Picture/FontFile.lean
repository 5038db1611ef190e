import Montage.Files
import Montage.Number.Bytes
import Montage.Picture.BoxFont

/- Font files: telling them from other files, and finding one to draw with. -/
namespace Montage
namespace FontFile

/-- Big-endian number of so many bytes at a place. -/
def field (bytes : Bytes) (start size : Nat) : Nat :=
  ofLowBytes ((bytes.drop start).take size).reverse

/-- Marks at the start of outline fonts. -/
def marks : List Nat := [0x00010000, 0x74727565, 0x4F54544F]

/-- Tables without which a font cannot be used, by their four letters, and the least size of
each. -/
def needed : List (Nat × Nat) := [(0x68656164, 54), (0x68686561, 36), (0x6D617870, 6)]

/-- Tag, offset and length of each table. -/
def tables (bytes : Bytes) : List (Nat × Nat × Nat) :=
  (List.range (field bytes 4 2)).map fun i =>
    let entry := 12 + 16 * i
    (field bytes entry 4, field bytes (entry + 8) 4, field bytes (entry + 12) 4)

def isFont (bytes : Bytes) : Bool :=
  decide (12 ≤ bytes.length) && marks.contains (field bytes 0 4) &&
    needed.all fun (tag, least) =>
      (tables bytes).any fun (t, offset, length) =>
        t == tag && decide (least ≤ length) && decide (offset + length ≤ bytes.length)

end FontFile

/-- Reads a face out of the bytes of a file. -/
abbrev FontReader := Bytes → Option (Typeface Float32)

/-- Knows a font from other files but draws nothing with it. -/
def FontReader.outlines : FontReader := fun bytes =>
  if FontFile.isFont bytes then some (BoxFont.face ⟨1, 0, ⟨0, none⟩, []⟩) else none

structure LoadedFont where
  path : String
  face : Typeface Float32

namespace LoadedFont

def ofFile (reader : FontReader) (files : FileTree) (path : String) : Option LoadedFont :=
  match files.read path with
  | .ok bytes => (reader bytes).map fun face => ⟨path, face⟩
  | .error _ => none

/-- Places where systems keep a plain face. -/
def common : List String :=
  ["/usr/share/fonts/truetype/dejavu/DejaVuSans.ttf",
    "/usr/share/fonts/TTF/DejaVuSans.ttf",
    "/usr/share/fonts/dejavu/DejaVuSans.ttf",
    "/usr/share/fonts/truetype/liberation/LiberationSans-Regular.ttf",
    "/usr/share/fonts/liberation/LiberationSans-Regular.ttf",
    "/usr/share/fonts/noto/NotoSans-Regular.ttf",
    "/Library/Fonts/Arial.ttf",
    "/System/Library/Fonts/Supplemental/Arial.ttf",
    "C:\\Windows\\Fonts\\arial.ttf"]

/-- The configured font, else the first common one that can be read. -/
def find (reader : FontReader) (files : FileTree) (configured : Option String) :
    Option LoadedFont :=
  (configured.bind (ofFile reader files)) <|> common.findSome? (ofFile reader files)

end LoadedFont
end Montage
