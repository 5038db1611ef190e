import Montage.Picture.Canvas
import Montage.Proofs.Geometry.Affine
import Montage.Proofs.Geometry.Rect
import Montage.Proofs.Picture.Updates

/- Which pixels a layer reaches. The box around the corners of a placed picture leaves out no pixel
   whose centre lies on the picture, so that to visit the box is to visit the whole canvas. -/
namespace Montage

/-- A picture whose width and height are 32-bit words. -/
structure Image.Fits (image : Image) : Prop where
  width : (image.width : Int) ≤ unsignedMax 32
  height : (image.height : Int) ≤ unsignedMax 32

theorem Image.Fits.of_size {a b : Image} (fits : b.Fits) (width : a.width = b.width)
    (height : a.height = b.height) : a.Fits :=
  ⟨width ▸ fits.width, height ▸ fits.height⟩

theorem place_whole {k : Int} (low : 0 ≤ k) (high : k ≤ unsignedMax 32) :
    place (k : Rat) = k.toNat := by
  change (boundInt 0 (unsignedMax 32) (towardZero (k : Rat))).toNat = _
  rw [Scalar.towardZero_whole, boundInt, if_neg (not_lt.mpr low), if_neg (not_lt.mpr high)]

/-- A whole number kept from zero to a bound, as a place. -/
theorem place_clamp {size : Nat} (fits : (size : Int) ≤ unsignedMax 32) (k : Int) :
    place (Scalar.clamp 0 (Scalar.ofNat size) (k : Rat)) = (max 0 (min k size)).toNat := by
  have whole : Scalar.clamp 0 (Scalar.ofNat size) (k : Rat) = ((max 0 (min k size) : Int) : Rat) := by
    rw [Scalar.ofNat_rat, Scalar.clamp_between (Nat.cast_nonneg size)]
    push_cast
    rfl
  rw [whole]
  exact place_whole (by omega) (by omega)

namespace Drawing

/-- A span of coordinates has every place in it whose centre lies between two of them. -/
theorem span_covers {size n : Nat} {coords : List Rat} (fits : (size : Int) ≤ unsignedMax 32)
    (within : n < size) (below : ∃ a ∈ coords, a ≤ n + 1 / 2)
    (above : ∃ b ∈ coords, (n : Rat) + 1 / 2 ≤ b) :
    (span size coords).1 ≤ n ∧ n < (span size coords).2 := by
  obtain ⟨a, low, below⟩ := below
  obtain ⟨b, high, above⟩ := above
  cases coords with
  | nil => cases low
  | cons c cs =>
    have first : ⌊cs.foldl Scalar.min c⌋ ≤ (n : Int) := by
      have least := Scalar.foldl_min_le a low
      refine Int.lt_add_one_iff.mp (Int.floor_lt.mpr ?_)
      push_cast
      linarith
    have last : (n : Int) < ⌈cs.foldl Scalar.max c⌉ := by
      have most := Scalar.le_foldl_max b high
      refine Int.lt_ceil.mpr ?_
      push_cast
      linarith
    change place (Scalar.clamp 0 _ (Scalar.floor _)) ≤ n ∧ n < place (Scalar.clamp 0 _ (Scalar.ceil _))
    rw [Scalar.floor_rat, Scalar.ceil_rat, place_clamp fits, place_clamp fits]
    omega

theorem corners_eq (d : Drawing Rat) :
    d.corners = d.fitted.corners.map fun c => d.forward.apply c.1 c.2 := rfl

/-- Where the centre of a pixel of the canvas lies before the placement. -/
def before (d : Drawing Rat) (x y : Nat) : Rat × Rat :=
  d.inverse.apply (x + 1 / 2) (y + 1 / 2)

theorem origin?_eq (d : Drawing Rat) (x y : Nat) :
    d.origin? x y = if d.fitted.contains (d.before x y).1 (d.before x y).2 then
      some (d.source.x + ((d.before x y).1 - d.fitted.x) * (d.source.w / d.fitted.w),
        d.source.y + ((d.before x y).2 - d.fitted.y) * (d.source.h / d.fitted.h))
    else none := by
  unfold before
  rw [← Scalar.centre_rat x, ← Scalar.centre_rat y]
  rfl

end Drawing

namespace Layer

/-- What the crop leaves of a picture. -/
def source (layer : Layer Rat) (image : Image) : Rect Rat :=
  layer.crop.sourceRect image.width image.height

theorem source_w (layer : Layer Rat) (image : Image) : (layer.source image).w =
    image.width * (1 - layer.crop.clamped.left - layer.crop.clamped.right) := rfl

theorem source_h (layer : Layer Rat) (image : Image) : (layer.source image).h =
    image.height * (1 - layer.crop.clamped.top - layer.crop.clamped.bottom) := rfl

theorem source_corner (layer : Layer Rat) (image : Image) :
    (0 ≤ (layer.source image).x ∧ (layer.source image).x ≤ image.width) ∧
      0 ≤ (layer.source image).y ∧ (layer.source image).y ≤ image.height := by
  have left := Crop.clampEdge_between layer.crop.left
  have top := Crop.clampEdge_between layer.crop.top
  exact ⟨⟨mul_nonneg (Nat.cast_nonneg _) left.1, mul_le_of_le_one_right (Nat.cast_nonneg _) left.2⟩,
    mul_nonneg (Nat.cast_nonneg _) top.1, mul_le_of_le_one_right (Nat.cast_nonneg _) top.2⟩

/-- The same, fitted to the canvas. -/
def fitted (layer : Layer Rat) (canvas image : Image) : Rect Rat :=
  Rect.fit (layer.source image).w (layer.source image).h canvas.width canvas.height

/-- What a layer shows at a point of the fitted rectangle. -/
def shade (S : Type) [Scalar S] [Narrowing Rat S] (layer : Layer Rat) (canvas image : Image)
    (u v : Rat) : Shade S :=
  let source := layer.source image
  let fitted := layer.fitted canvas image
  (image.between (source.x + (u - fitted.x) * (source.w / fitted.w) - 1 / 2)
    (source.y + (v - fitted.y) * (source.h / fitted.h) - 1 / 2)).adjustAll layer.effects

/-- Blends a layer over a pixel, given the point from which the pixel's centre comes, exactly when
that point lies in the fitted rectangle. -/
def blendAt (S : Type) [Scalar S] [Narrowing Rat S] (layer : Layer Rat)
    (canvas image : Image) (point : Rat × Rat) (under : Color) : Color :=
  if (layer.fitted canvas image).contains point.1 point.2 then
    let shade := layer.shade S canvas image point.1 point.2
    Color.blend shade (shade.alpha * Narrowing.narrow (Scalar.clamp 0 1 layer.opacity)) under
  else under

end Layer

section Placed
variable [Angles Rat]

/-- From the fitted rectangle to the canvas. -/
def Layer.placement (layer : Layer Rat) (canvas image : Image) : Affine Rat :=
  Affine.placement (layer.fitted canvas image) layer.transform canvas.width canvas.height

variable {canvas image : Image} {layer : Layer Rat} {d : Drawing Rat}

theorem Drawing.of?_eq (layer : Layer Rat) (canvas image : Image) :
    Drawing.of? canvas.width canvas.height image layer =
      if (layer.source image).w < 1 ∨ (layer.source image).h < 1 then none
      else (layer.placement canvas image).invert.map fun inverse =>
        ⟨layer.source image, layer.fitted canvas image, layer.placement canvas image, inverse⟩ := by
  unfold Drawing.of? Layer.placement Layer.fitted Layer.source
  simp only [Scalar.ofNat_rat]

/-- A drawing that is to be made. -/
structure Drawing.Made (d : Drawing Rat) (layer : Layer Rat) (canvas image : Image) : Prop where
  columns : 1 ≤ d.source.w
  rows : 1 ≤ d.source.h
  source : d.source = layer.source image
  fitted : d.fitted = layer.fitted canvas image
  forward : d.forward = layer.placement canvas image
  inverted : d.forward.invert = some d.inverse

theorem Drawing.made_of (made : Drawing.of? canvas.width canvas.height image layer = some d) :
    d.Made layer canvas image := by
  rw [Drawing.of?_eq] at made
  split at made
  · cases made
  · rename_i enough
    obtain ⟨inverse, inverted, rfl⟩ := Option.map_eq_some_iff.mp made
    exact ⟨not_lt.mp fun few => enough (.inl few), not_lt.mp fun few => enough (.inr few), rfl, rfl,
      rfl, inverted⟩

theorem Drawing.Made.nonempty (made : d.Made layer canvas image) :
    0 < image.width ∧ 0 < image.height := by
  constructor
  · by_contra narrow
    have columns := made.columns
    rw [made.source, layer.source_w, Nat.eq_zero_of_not_pos narrow, Nat.cast_zero, zero_mul] at columns
    exact absurd columns (by norm_num)
  · by_contra low
    have rows := made.rows
    rw [made.source, layer.source_h, Nat.eq_zero_of_not_pos low, Nat.cast_zero, zero_mul] at rows
    exact absurd rows (by norm_num)

/-- A pixel of the canvas whose centre comes from the fitted rectangle is in the box of the placed
corners. -/
theorem Drawing.Made.reaches (made : d.Made layer canvas image) (fits : canvas.Fits) {x y : Nat}
    (left : x < canvas.width) (top : y < canvas.height)
    (shows : d.fitted.contains (d.before x y).1 (d.before x y).2 = true) :
    ((Drawing.span canvas.width (d.corners.map (·.1))).1 ≤ x ∧
      x < (Drawing.span canvas.width (d.corners.map (·.1))).2) ∧
    (Drawing.span canvas.height (d.corners.map (·.2))).1 ≤ y ∧
      y < (Drawing.span canvas.height (d.corners.map (·.2))).2 := by
  have inside := Rect.holds_of_contains shows
  have back := Affine.apply_invert made.inverted ((x : Rat) + 1 / 2) ((y : Rat) + 1 / 2)
  have across : d.forward.xx * (d.before x y).1 + d.forward.xy * (d.before x y).2 + d.forward.xt =
      x + 1 / 2 := congrArg Prod.fst back
  have down : d.forward.yx * (d.before x y).1 + d.forward.yy * (d.before x y).2 + d.forward.yt =
      y + 1 / 2 := congrArg Prod.snd back
  have placed : ∀ c ∈ d.fitted.corners,
      d.forward.xx * c.1 + d.forward.xy * c.2 + d.forward.xt ∈ d.corners.map (·.1) ∧
        d.forward.yx * c.1 + d.forward.yy * c.2 + d.forward.yt ∈ d.corners.map (·.2) := by
    intro c corner
    have listed : d.forward.apply c.1 c.2 ∈ d.corners := by
      rw [d.corners_eq]
      exact List.mem_map_of_mem corner
    exact ⟨List.mem_map_of_mem listed, List.mem_map_of_mem listed⟩
  constructor
  · obtain ⟨a, corner, below⟩ := inside.corner_below d.forward.xx d.forward.xy
    obtain ⟨b, corner', above⟩ := inside.corner_above d.forward.xx d.forward.xy
    exact Drawing.span_covers fits.width left ⟨_, (placed a corner).1, by linarith⟩
      ⟨_, (placed b corner').1, by linarith⟩
  · obtain ⟨a, corner, below⟩ := inside.corner_below d.forward.yx d.forward.yy
    obtain ⟨b, corner', above⟩ := inside.corner_above d.forward.yx d.forward.yy
    exact Drawing.span_covers fits.height top ⟨_, (placed a corner).2, by linarith⟩
      ⟨_, (placed b corner').2, by linarith⟩

variable {S : Type} [Scalar S] [Narrowing Rat S]

/-- Drawing changes every pixel of the canvas as the layer paints it. -/
theorem draw_painted (drawn : Drawing.of? canvas.width canvas.height image layer = some d)
    (fits : canvas.Fits) (visible : 0 < layer.opacity) :
    Image.Changed (d.paint S image layer.effects (Scalar.clamp 0 1 layer.opacity))
      (fun _ _ => True) canvas (canvas.draw S image layer) := by
  have made := Drawing.made_of drawn
  have shown : ¬ (Scalar.clamp 0 1 layer.opacity ≤ 0 ∨ image.width = 0 ∨ image.height = 0) := by
    rintro (faint | narrow | low)
    · rw [Scalar.clamp_between zero_le_one] at faint
      exact absurd (lt_min visible one_pos) (not_lt.mpr ((le_max_right _ _).trans faint))
    · exact made.nonempty.1.ne' narrow
    · exact made.nonempty.2.ne' low
  unfold Image.draw
  dsimp only
  rw [if_neg shown, drawn]
  refine (Image.updateWithin_changed canvas _ _ _ _ _).widen (fun _ _ _ => trivial) ?_
  rintro x y left top - missed
  unfold Drawing.paint
  rw [Drawing.origin?_eq, if_neg]
  exact fun shows => missed (made.reaches fits left top shows)

theorem Drawing.Made.paint_eq (made : d.Made layer canvas image) :
    d.paint S image layer.effects (Scalar.clamp 0 1 layer.opacity) =
      fun x y : Nat => layer.blendAt S canvas image (d.inverse.apply (x + 1 / 2) (y + 1 / 2)) := by
  funext x y under
  have point : d.inverse.apply (x + 1 / 2) (y + 1 / 2) = d.before x y := rfl
  unfold Drawing.paint Layer.blendAt
  rw [Drawing.origin?_eq, ← made.fitted, point]
  by_cases shows : d.fitted.contains (d.before x y).1 (d.before x y).2 = true
  · rw [if_pos shows, if_pos shows]
    unfold Layer.shade
    rw [← made.fitted, ← made.source, ← Scalar.half_rat]
    rfl
  · rw [if_neg shows, if_neg shows]

/-- Drawing a layer is visiting every pixel of the canvas, and blending it exactly when its centre
comes from the fitted rectangle; all other pixels keep their colours. -/
theorem draw_visits_all {inverse : Affine Rat} (fits : canvas.Fits) (visible : 0 < layer.opacity)
    (columns : 1 ≤ (layer.source image).w) (rows : 1 ≤ (layer.source image).h)
    (inverted : (layer.placement canvas image).invert = some inverse) :
    canvas.draw S image layer =
        canvas.updateWithin 0 canvas.width 0 canvas.height (fun x y : Nat =>
          layer.blendAt S canvas image (inverse.apply (x + 1 / 2) (y + 1 / 2))) ∧
      ∀ x y : Nat, (layer.fitted canvas image).contains (inverse.apply (x + 1 / 2) (y + 1 / 2)).1
          (inverse.apply (x + 1 / 2) (y + 1 / 2)).2 = false →
        (canvas.draw S image layer).pixel x y = canvas.pixel x y := by
  have drawn : Drawing.of? canvas.width canvas.height image layer =
      some ⟨layer.source image, layer.fitted canvas image, layer.placement canvas image, inverse⟩ := by
    have enough : ¬ ((layer.source image).w < 1 ∨ (layer.source image).h < 1) :=
      not_or.mpr ⟨not_lt.mpr columns, not_lt.mpr rows⟩
    rw [Drawing.of?_eq, if_neg enough, inverted]
    rfl
  have changed := draw_painted (S := S) drawn fits visible
  rw [(Drawing.made_of drawn).paint_eq] at changed
  refine ⟨changed.unique ?_, ?_⟩
  · refine (Image.updateWithin_changed canvas 0 canvas.width 0 canvas.height _).widen
      (fun _ _ _ => trivial) ?_
    rintro x y left top - missed
    exact (missed ⟨⟨Nat.zero_le x, left⟩, Nat.zero_le y, top⟩).elim
  · intro x y elsewhere
    by_cases within : x < canvas.width ∧ y < canvas.height
    · rw [changed.inside x y within.1 within.2 trivial]
      exact if_neg (ne_true_of_eq_false elsewhere)
    · rw [Image.pixel_outside within, Image.pixel_outside (by rwa [changed.width, changed.height])]

end Placed

/-- One sine and one cosine for every angle. -/
@[reducible] def Angles.fixed (sine cosine : Rat) : Angles Rat := ⟨fun _ => (sine, cosine)⟩

/-- Mirrored, turned and half off the canvas. -/
def Layer.turnedAway : Layer Rat := ⟨Crop.none, ⟨1 / 2, 0, -1, 1, 90⟩, 1, []⟩

theorem draw_visits_all_turned :
    let _ := Angles.fixed 1 0
    let canvas := Image.blank 4 4
    let image := Image.filled 2 2 Color.white
    ∃ inverse, (Layer.turnedAway.placement canvas image).invert = some inverse ∧
      canvas.draw Rat image Layer.turnedAway =
        canvas.updateWithin 0 4 0 4 (fun x y : Nat =>
          Layer.turnedAway.blendAt Rat canvas image (inverse.apply (x + 1 / 2) (y + 1 / 2))) ∧
      (canvas.draw Rat image Layer.turnedAway).pixel 0 0 = Color.black ∧
      (canvas.draw Rat image Layer.turnedAway).pixel 3 0 = Color.white := by
  let _ := Angles.fixed 1 0
  have turned : (Layer.turnedAway.placement (Image.blank 4 4)
      (Image.filled 2 2 Color.white)).invert = some ⟨0, -1, 4, -1, 0, 6, 0, 0, 1⟩ := by
    decide +kernel
  obtain ⟨all, elsewhere⟩ := draw_visits_all (S := Rat) ⟨by decide, by decide⟩
    (by decide +kernel) (by decide +kernel) (by decide +kernel) turned
  refine ⟨_, turned, all, elsewhere 0 0 (by decide +kernel), ?_⟩
  decide +kernel

end Montage
