import Montage.Geometry.Rect

/- Affine maps of the plane and the placement of a picture on the canvas. -/
namespace Montage
variable {K : Type} [Scalar K]

/-- Moves the centre by shares of the canvas, scales about it and turns clockwise. -/
structure Transform (K : Type) where
  x : K
  y : K
  scaleX : K
  scaleY : K
  rotation : K
  deriving Repr

namespace Transform

def identity : Transform K := ⟨0, 0, 1, 1, 0⟩

def isIdentity (t : Transform K) : Bool :=
  Scalar.same t.x 0 && Scalar.same t.y 0 && Scalar.same t.scaleX 1 && Scalar.same t.scaleY 1 &&
    Scalar.same t.rotation 0

end Transform

/-- A homogeneous matrix of three rows. -/
structure Affine (K : Type) where
  xx : K
  xy : K
  xt : K
  yx : K
  yy : K
  yt : K
  wx : K
  wy : K
  wt : K
  deriving Repr

namespace Affine

def identity : Affine K := ⟨1, 0, 0, 0, 1, 0, 0, 0, 1⟩
def translate (tx ty : K) : Affine K := ⟨1, 0, tx, 0, 1, ty, 0, 0, 1⟩
def scale (sx sy : K) : Affine K := ⟨sx, 0, 0, 0, sy, 0, 0, 0, 1⟩
def rotate (sine cosine : K) : Affine K := ⟨cosine, -sine, 0, sine, cosine, 0, 0, 0, 1⟩

/-- Row times column, summed from the left. -/
def dot (a b c x y z : K) : K := 0 + a * x + b * y + c * z

/-- The given map, then the next one. -/
def andThen (m next : Affine K) : Affine K :=
  { xx := dot next.xx next.xy next.xt m.xx m.yx m.wx
    xy := dot next.xx next.xy next.xt m.xy m.yy m.wy
    xt := dot next.xx next.xy next.xt m.xt m.yt m.wt
    yx := dot next.yx next.yy next.yt m.xx m.yx m.wx
    yy := dot next.yx next.yy next.yt m.xy m.yy m.wy
    yt := dot next.yx next.yy next.yt m.xt m.yt m.wt
    wx := dot next.wx next.wy next.wt m.xx m.yx m.wx
    wy := dot next.wx next.wy next.wt m.xy m.yy m.wy
    wt := dot next.wx next.wy next.wt m.xt m.yt m.wt }

def apply (m : Affine K) (x y : K) : K × K :=
  (m.xx * x + m.xy * y + m.xt, m.yx * x + m.yy * y + m.yt)

/-- Determinants smaller than this count as zero. -/
def leastDeterminant : K := 1e-12

def invert (m : Affine K) : Option (Affine K) :=
  let det := m.xx * m.yy - m.xy * m.yx
  if Scalar.abs det < leastDeterminant then none
  else
    let inv := 1 / det
    some
      { xx := m.yy * inv
        xy := -m.xy * inv
        xt := (m.xy * m.yt - m.xt * m.yy) * inv
        yx := -m.yx * inv
        yy := m.xx * inv
        yt := (m.xt * m.yx - m.xx * m.yt) * inv
        wx := 0
        wy := 0
        wt := 1 }

/-- From the fitted rectangle to the canvas: scaling and turning about its centre, then the
move. -/
def placement [Angles K] (fitted : Rect K) (t : Transform K) (outW outH : K) : Affine K :=
  let (cx, cy) := fitted.center
  let (sine, cosine) := Angles.sinCos t.rotation
  (translate (-cx) (-cy)).andThen (scale t.scaleX t.scaleY)
    |>.andThen (rotate sine cosine)
    |>.andThen (translate (cx + t.x * outW) (cy + t.y * outH))

end Affine
end Montage
