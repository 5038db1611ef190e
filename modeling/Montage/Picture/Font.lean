import Montage.Number.Power
import Montage.Picture.Canvas

/- Texts drawn with a face. How a face sets a text and which pixels its glyphs cover is the face's
   own matter. -/
namespace Montage
variable {K S : Type} [Scalar K] [Scalar S] [Narrowing K S]

/-- Pixels that a glyph may touch, from the top left; the far edges are not part of it. -/
structure PixelBox where
  left : Int
  top : Int
  right : Int
  bottom : Int
  deriving DecidableEq, Repr

namespace PixelBox

def width (b : PixelBox) : Nat := (b.right - b.left).toNat
def height (b : PixelBox) : Nat := (b.bottom - b.top).toNat

end PixelBox

/-- A glyph that leaves a mark. -/
structure GlyphMask (S : Type) where
  bounds : PixelBox
  /-- Covered share of each pixel of the bounds, row after row. -/
  coverage : List S

/-- What a font file is asked for, at a size in pixels. -/
structure Typeface (S : Type) where
  /-- Height over the base line. -/
  ascent : S → S
  /-- Height of what hangs below it, which is no more than zero. -/
  descent : S → S
  /-- The glyphs of a text one after the other from a point of the base line on; none for those that
  leave no mark. -/
  layout : String → S → S × S → List (Option (GlyphMask S))

/-- Right edge of the last glyph that leaves a mark. -/
def textWidth (glyphs : List (Option (GlyphMask S))) : Int :=
  (glyphs.reverse.findSome? fun g => g.map (·.bounds.right)).getD 0

/-- The nearest whole number in a 32-bit word. -/
def wholePixel (x : K) : Int := Scalar.toIntWithin (signedMin 32) (signedMax 32) (Scalar.round x)

/-- Draws the pixels of one glyph that lie on the canvas. -/
def Image.drawGlyph (canvas : Image) (originX originY : Int) (color : Shade S) (g : GlyphMask S) :
    Image :=
  g.coverage.zipIdx.foldl (fun canvas (c, i) =>
    let x := originX + g.bounds.left + (i % g.bounds.width : Nat)
    let y := originY + g.bounds.top + (i / g.bounds.width : Nat)
    if x < 0 ∨ y < 0 ∨ (canvas.height : Int) ≤ y then canvas
    else canvas.modify x.toNat y.toNat (Color.blend color (c * color.alpha))) canvas

def Image.drawText (S : Type) [Scalar S] [Narrowing K S] (canvas : Image) (face : Typeface S)
    (overlay : TextOverlay K) : Image :=
  if overlay.text.isEmpty ∨ overlay.fontSize ≤ 0 then canvas
  else
    let size : S := Narrowing.narrow overlay.fontSize
    let glyphs := face.layout overlay.text size (0, face.ascent size)
    let width : K := Scalar.ofInt (textWidth glyphs)
    let height : K := Narrowing.widen (Scalar.ceil (face.ascent size - face.descent size))
    let origin (anchor : K) (size : Nat) (extent : K) : Int :=
      wholePixel (anchor * Scalar.ofNat size - extent / 2)
    let x := origin overlay.x canvas.width width
    let y := origin overlay.y canvas.height height
    let color : Shade S := (Shade.ofColor overlay.rgba).map fun c => c / 255
    (glyphs.filterMap id).foldl (fun canvas g => canvas.drawGlyph x y color g) canvas

end Montage
