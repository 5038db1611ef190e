import Montage.Picture.Font

/- Faces whose glyphs are boxes: their layout on a line and the share of each pixel that a box
   covers. -/
namespace Montage
variable {S : Type} [Scalar S]

/-- In font units, with y going up. -/
structure GlyphBox where
  x0 : Int
  y0 : Int
  x1 : Int
  y1 : Int
  deriving DecidableEq, Repr

structure BoxGlyph where
  advance : Int
  box : Option GlyphBox
  deriving DecidableEq, Repr

structure BoxFont where
  ascent : Int
  descent : Int
  /-- Stands for every character that has no glyph. -/
  missing : BoxGlyph
  glyphs : List (Char × BoxGlyph)
  deriving Repr

namespace BoxFont

def glyph (f : BoxFont) (c : Char) : BoxGlyph :=
  ((f.glyphs.find? fun g => g.1 == c).map (·.2)).getD f.missing

/-- Pixels a font unit, for a height from descent to ascent. -/
def scale (f : BoxFont) (size : S) : S := size / (Scalar.ofInt f.ascent - Scalar.ofInt f.descent)

end BoxFont

/-- A glyph with the point where it starts, in pixels. -/
structure PlacedGlyph (S : Type) where
  glyph : BoxGlyph
  scale : S
  x : S
  y : S

namespace PlacedGlyph

def line (scale y : S) : S → List BoxGlyph → List (PlacedGlyph S)
  | _, [] => []
  | caret, g :: gs =>
    ⟨g, scale, 0 + caret, y⟩ :: line scale y (caret + Scalar.ofInt g.advance * scale) gs

def wholePart (x : S) : Int := Scalar.toIntWithin (signedMin 32) (signedMax 32) x

def bounds (g : PlacedGlyph S) (b : GlyphBox) : PixelBox :=
  let (ix, iy) := (wholePart g.x, wholePart g.y)
  let fx := g.x - Scalar.ofInt ix
  let fy := g.y - Scalar.ofInt iy
  let s := g.scale
  { left := ix + wholePart (Scalar.floor (Scalar.ofInt b.x0 * s + fx))
    top := iy + wholePart (Scalar.floor (-Scalar.ofInt b.y1 * s + fy))
    right := ix + wholePart (Scalar.ceil (Scalar.ofInt b.x1 * s + fx))
    bottom := iy + wholePart (Scalar.ceil (-Scalar.ofInt b.y0 * s + fy)) }

/-- Smallest height of an edge that counts. -/
def leastHeight : S := 1.1920929e-7

/-- Adds an upright edge to the row differences of coverage. -/
def addEdge (w h : Nat) (x start stop : S) (cells : Array S) : Array S :=
  if Scalar.abs (stop - start) ≤ leastHeight then cells
  else
    let (dir, top, bottom) : S × S × S := if start < stop then (1, start, stop) else (-1, stop, start)
    let column := Scalar.floor x
    let m := 0.5 * (x + x) - column
    let add (cells : Array S) (i : Int) (v : S) : Array S :=
      if i < 0 then cells else cells.modify i.toNat fun c => c + v
    let first := place top
    (List.range' first (min h (place (Scalar.ceil bottom)) - first)).foldl (fun cells y =>
      let d := (Scalar.min (Scalar.ofNat (y + 1)) bottom - Scalar.max (Scalar.ofNat y) top) * dir
      let i : Int := (y * w : Nat) + wholePart column
      add (add cells i (d - d * m)) (i + 1) (d * m)) cells

def running : S → List S → List S
  | _, [] => []
  | sum, c :: cs => (sum + c) :: running (sum + c) cs

/-- Covered share of each pixel of the bounds. -/
def coverage (g : PlacedGlyph S) (b : GlyphBox) : List S :=
  let bounds := g.bounds b
  let (w, h) := (bounds.width, bounds.height)
  let across (x : Int) : S := Scalar.ofInt x * g.scale + (g.x - Scalar.ofInt bounds.left)
  let down (y : Int) : S := Scalar.ofInt y * -g.scale + (g.y - Scalar.ofInt bounds.top)
  let cells := addEdge w h (across b.x1) (down b.y0) (down b.y1) (Array.replicate (w * h + 4) 0)
  let cells := addEdge w h (across b.x0) (down b.y1) (down b.y0) cells
  ((running 0 cells.toList).take (w * h)).map Scalar.abs

end PlacedGlyph

/-- The glyphs of a text, one after the other on one line. -/
def BoxFont.layout (f : BoxFont) (text : String) (size : S) (start : S × S) : List (PlacedGlyph S) :=
  PlacedGlyph.line (f.scale size) start.2 start.1 (text.toList.map f.glyph)

/-- The face that it is to those who draw with it. -/
def BoxFont.face (f : BoxFont) : Typeface S :=
  { ascent := fun size => Scalar.ofInt f.ascent * f.scale size
    descent := fun size => Scalar.ofInt f.descent * f.scale size
    layout := fun text size start => (f.layout text size start).map fun g =>
      g.glyph.box.map fun b => ⟨g.bounds b, g.coverage b⟩ }

end Montage
