import Montage.Timeline.Clip

/- Colours as numbers from zero to one, the adjustments made on them, and blending. -/
namespace Montage
variable {K S : Type} [Scalar K] [Scalar S] [Narrowing K S]

structure Shade (S : Type) where
  red : S
  green : S
  blue : S
  alpha : S

namespace Shade

def map (f : S → S) (p : Shade S) : Shade S := ⟨f p.red, f p.green, f p.blue, f p.alpha⟩

def zip (f : S → S → S) (p q : Shade S) : Shade S :=
  ⟨f p.red q.red, f p.green q.green, f p.blue q.blue, f p.alpha q.alpha⟩

/-- Channels from 0 to 255. -/
def ofColor (c : Color) : Shade S :=
  ⟨Scalar.ofNat c.red.toNat, Scalar.ofNat c.green.toNat, Scalar.ofNat c.blue.toNat,
    Scalar.ofNat c.alpha.toNat⟩

/-- Leaves alpha alone. -/
def mapColors (f : S → S) (p : Shade S) : Shade S :=
  { p with red := f p.red, green := f p.green, blue := f p.blue }

def luma (p : Shade S) : S := 0.2126 * p.red + 0.7152 * p.green + 0.0722 * p.blue

/-- One adjustment, kept from zero to one. -/
def adjust (e : Effect K) (p : Shade S) : Shade S :=
  let l := p.luma
  let value (v : K) : S := Narrowing.narrow v
  (match e with
    | .brightness v => p.mapColors fun c => c + value v
    | .contrast v => p.mapColors fun c => (c - 0.5) * value v + 0.5
    | .saturation v => p.mapColors fun c => l + (c - l) * value v
    | .grayscale => p.mapColors fun _ => l).mapColors (Scalar.clamp 0 1)

/-- Adjustments in list order. -/
def adjustAll (es : List (Effect K)) (p : Shade S) : Shade S := es.foldl (fun p e => p.adjust e) p

end Shade

/-- One channel over an opaque one. -/
def blendChannel (color alpha : S) (under : UInt8) : UInt8 :=
  let below : S := Scalar.ofNat under.toNat / 255
  let mixed := color * alpha + below * (1 - alpha)
  (Scalar.toCount (Scalar.clamp 0 255 (Scalar.round (mixed * 255)))).toUInt8

/-- Source over an opaque destination. -/
def Color.blend (p : Shade S) (alpha : S) (under : Color) : Color :=
  let alpha := Scalar.clamp 0 1 alpha
  if alpha ≤ 0 then under
  else
    ⟨blendChannel p.red alpha under.red, blendChannel p.green alpha under.green,
      blendChannel p.blue alpha under.blue, 255⟩

end Montage
