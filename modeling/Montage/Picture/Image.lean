import Montage.Picture.Color

/- Pictures as rows of colours, from the top left. -/
namespace Montage

structure Image where
  width : Nat
  height : Nat
  pixels : Array Color
  size_eq : pixels.size = width * height

namespace Image

def filled (width height : Nat) (c : Color) : Image :=
  ⟨width, height, Array.replicate (width * height) c, by simp⟩

/-- Transparent black outside. -/
def pixel (i : Image) (x y : Nat) : Color :=
  if x < i.width then i.pixels[y * i.width + x]?.getD Color.clear else Color.clear

/-- Changes one pixel; nothing happens outside. -/
def modify (i : Image) (x y : Nat) (f : Color → Color) : Image :=
  if x < i.width then
    { i with
      pixels := i.pixels.modify (y * i.width + x) f
      size_eq := by simp [i.size_eq] }
  else i

/-- Changes the pixels of a box, each by its own place; the far edges are not part of it. -/
def updateWithin (i : Image) (x0 x1 y0 y1 : Nat) (f : Nat → Nat → Color → Color) : Image :=
  (List.range' y0 (y1 - y0)).foldl
    (fun i y => (List.range' x0 (x1 - x0)).foldl (fun i x => i.modify x y (f x y)) i) i

/-- The first pixels replaced by the colours of a list. -/
def overwrite (i : Image) (colors : List Color) : Image :=
  { i with
    pixels := i.pixels.mapIdx fun n c => colors[n]?.getD c
    size_eq := by simp [i.size_eq] }

def centre (i : Image) : Color := i.pixel (i.width / 2) (i.height / 2)

def rows (i : Image) : List (List Color) :=
  (List.range i.height).map fun y => (List.range i.width).map fun x => i.pixel x y

end Image
end Montage
