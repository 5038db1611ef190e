import Montage.Number.Power
import Montage.Picture.Image
import Montage.Picture.Shade

/- The output frame under construction. A layer is cropped, fitted, placed, adjusted and
   blended over what is there. -/
namespace Montage
variable {K S : Type} [Scalar K] [Scalar S] [Narrowing K S]

structure Layer (K : Type) where
  crop : Crop K
  transform : Transform K
  /-- Transitions included. -/
  opacity : K
  effects : List (Effect K)

/-- Where a layer comes from and where it goes. -/
structure Drawing (K : Type) where
  /-- What the crop leaves of the source. -/
  source : Rect K
  /-- The same, fitted to the canvas. -/
  fitted : Rect K
  forward : Affine K
  inverse : Affine K

def Image.blank (width height : Nat) : Image := Image.filled width height Color.black

/-- Whole part, for a place known to lie on a picture. -/
def place (x : K) : Nat := (Scalar.toIntWithin 0 (unsignedMax 32) x).toNat

/-- Mixes the four pixels around a point between pixel centres; beyond the edges the pictures
goes on as it ends. -/
def Image.between (i : Image) (x y : K) : Shade S :=
  let x := Scalar.clamp 0 (Scalar.ofNat (i.width - 1)) x
  let y := Scalar.clamp 0 (Scalar.ofNat (i.height - 1)) y
  let left := Scalar.floor x
  let top := Scalar.floor y
  let fx : S := Narrowing.narrow (x - left)
  let fy : S := Narrowing.narrow (y - top)
  let (x0, y0) := (place left, place top)
  let x1 := min (x0 + 1) (i.width - 1)
  let y1 := min (y0 + 1) (i.height - 1)
  let mix (t a b : S) : S := a * (1 - t) + b * t
  let pixel (x y : Nat) : Shade S := Shade.ofColor (i.pixel x y)
  let upper := Shade.zip (mix fx) (pixel x0 y0) (pixel x1 y0)
  let lower := Shade.zip (mix fx) (pixel x0 y1) (pixel x1 y1)
  (Shade.zip (mix fy) upper lower).map fun c => c / 255

namespace Drawing

/-- None where the crop leaves less than a pixel or the placement is flat. -/
def of? [Angles K] (width height : Nat) (image : Image) (layer : Layer K) : Option (Drawing K) :=
  let (w, h) : K × K := (Scalar.ofNat width, Scalar.ofNat height)
  let source := layer.crop.sourceRect (Scalar.ofNat image.width) (Scalar.ofNat image.height)
  if source.w < 1 ∨ source.h < 1 then none
  else
    let fitted := Rect.fit source.w source.h w h
    let forward := Affine.placement fitted layer.transform w h
    forward.invert.map fun inverse => ⟨source, fitted, forward, inverse⟩

/-- The point of the source that belongs to the centre of a canvas pixel. -/
def origin? (d : Drawing K) (x y : Nat) : Option (K × K) :=
  let (u, v) := d.inverse.apply (Scalar.ofNat x + 0.5) (Scalar.ofNat y + 0.5)
  if d.fitted.contains u v then
    some (d.source.x + (u - d.fitted.x) * (d.source.w / d.fitted.w),
      d.source.y + (v - d.fitted.y) * (d.source.h / d.fitted.h))
  else none

def corners (d : Drawing K) : List (K × K) :=
  let f := d.fitted
  [d.forward.apply f.x f.y, d.forward.apply (f.x + f.w) f.y, d.forward.apply f.x (f.y + f.h),
    d.forward.apply (f.x + f.w) (f.y + f.h)]

/-- First whole place that a list of coordinates reaches, and one past the last. -/
def span (size : Nat) : List K → Nat × Nat
  | [] => (0, 0)
  | c :: cs =>
    let low := cs.foldl Scalar.min c
    let high := cs.foldl Scalar.max c
    (place (Scalar.clamp 0 (Scalar.ofNat size) (Scalar.floor low)),
      place (Scalar.clamp 0 (Scalar.ofNat size) (Scalar.ceil high)))

def paint (S : Type) [Scalar S] [Narrowing K S] (d : Drawing K) (image : Image)
    (effects : List (Effect K)) (opacity : K) (x y : Nat) (under : Color) : Color :=
  match d.origin? x y with
  | none => under
  | some (sx, sy) =>
    let p : Shade S := (image.between (sx - 0.5) (sy - 0.5)).adjustAll effects
    Color.blend p (p.alpha * Narrowing.narrow opacity) under

end Drawing

/-- Draws a layer. Only pixels that the placed rectangle can reach are visited. -/
def Image.draw (S : Type) [Scalar S] [Narrowing K S] [Angles K] (canvas image : Image)
    (layer : Layer K) : Image :=
  let opacity := Scalar.clamp 0 1 layer.opacity
  if opacity ≤ 0 ∨ image.width = 0 ∨ image.height = 0 then canvas
  else
    match Drawing.of? canvas.width canvas.height image layer with
    | none => canvas
    | some d =>
      let (x0, x1) := Drawing.span canvas.width (d.corners.map (·.1))
      let (y0, y1) := Drawing.span canvas.height (d.corners.map (·.2))
      canvas.updateWithin x0 x1 y0 y1 (d.paint S image layer.effects opacity)

end Montage
