import Montage.Number.Scalar

/- Axis-aligned rectangles, crops and the fitting of one picture into another. -/
namespace Montage
variable {K : Type} [Scalar K]

structure Rect (K : Type) where
  x : K
  y : K
  w : K
  h : K
  deriving Repr

namespace Rect

def center (r : Rect K) : K × K := (r.x + r.w / 2, r.y + r.h / 2)

/-- Left and top edges belong to the rectangle, right and bottom edges do not. -/
def contains (r : Rect K) (px py : K) : Bool :=
  decide (r.x ≤ px) && decide (px < r.x + r.w) && decide (r.y ≤ py) && decide (py < r.y + r.h)

/-- The largest rectangle of the source's shape inside the destination, centred. -/
def fit (srcW srcH dstW dstH : K) : Rect K :=
  if srcW ≤ 0 ∨ srcH ≤ 0 then ⟨0, 0, dstW, dstH⟩
  else
    let scale := Scalar.min (dstW / srcW) (dstH / srcH)
    let w := srcW * scale
    let h := srcH * scale
    ⟨(dstW - w) / 2, (dstH - h) / 2, w, h⟩

end Rect

/-- What is cut off each edge, as a share of the picture. -/
structure Crop (K : Type) where
  left : K
  right : K
  top : K
  bottom : K
  deriving Repr

namespace Crop

def limit : K := 0.45

def none : Crop K := ⟨0, 0, 0, 0⟩

def clampEdge (v : K) : K := if Scalar.isFinite v then Scalar.clamp 0 limit v else 0

def clamped (c : Crop K) : Crop K :=
  ⟨clampEdge c.left, clampEdge c.right, clampEdge c.top, clampEdge c.bottom⟩

def make (left right top bottom : K) : Crop K := clamped ⟨left, right, top, bottom⟩

def edges (c : Crop K) : List K := [c.left, c.right, c.top, c.bottom]

def isIdentity (c : Crop K) : Bool := c.clamped.edges.all fun v => Scalar.same v 0

def isValid (c : Crop K) : Bool := c.edges.all fun v => decide (0 ≤ v) && decide (v ≤ limit)

def sourceRect (c : Crop K) (srcW srcH : K) : Rect K :=
  let c := c.clamped
  ⟨srcW * c.left, srcH * c.top, srcW * (1 - c.left - c.right), srcH * (1 - c.top - c.bottom)⟩

end Crop
end Montage
