import Montage.Proofs.Picture.Sampling

/- What a layer shows of the picture that it draws. The crop decides where a picture is read, but
   what is read there is mixed with the pixels around it, cut off or not: just the pixels near a
   point that is read can be seen, and these lie no further than half a pixel outside the crop. -/
namespace Montage

namespace Image

/-- Two pictures of one size whose pixels in a region are the same. -/
structure AgreeOn (region : Nat → Nat → Prop) (a b : Image) : Prop where
  width : a.width = b.width
  height : a.height = b.height
  same : ∀ i j, region i j → a.pixel i j = b.pixel i j

end Image

theorem Drawing.paint_origin {d : Drawing Rat} {x y : Nat} {point : Rat × Rat}
    (origin : d.origin? x y = some point) (image : Image) (effects : List (Effect Rat))
    (opacity : Rat) (under : Color) :
    d.paint Rat image effects opacity x y under =
      let shade := (image.between (point.1 - 1 / 2) (point.2 - 1 / 2) : Shade Rat).adjustAll effects
      Color.blend shade (shade.alpha * opacity) under := by
  unfold Drawing.paint
  rw [origin, ← Scalar.half_rat]
  rfl

section Revealing
variable {p : Shade Rat} {share : Rat}

/-- Adjustments that turn what is black to grey and what has a share of white to white. -/
def revealing (share : Rat) : List (Effect Rat) := [.brightness (1 / 2), .contrast (1 / share)]

theorem brightness_red (v : Rat) (p : Shade Rat) :
    (p.adjust (.brightness v : Effect Rat)).red = max 0 (min (p.red + v) 1) :=
  Scalar.clamp_between zero_le_one _

theorem contrast_red (v : Rat) (p : Shade Rat) :
    (p.adjust (.contrast v : Effect Rat)).red = max 0 (min ((p.red - 1 / 2) * v + 1 / 2) 1) := by
  rw [← Scalar.half_rat]
  exact Scalar.clamp_between zero_le_one _

theorem revealing_red (p : Shade Rat) (share : Rat) :
    (p.adjustAll (revealing share)).red =
      max 0 (min ((max 0 (min (p.red + 1 / 2) 1) - 1 / 2) * (1 / share) + 1 / 2) 1) := by
  rw [← brightness_red, ← contrast_red]
  rfl

theorem revealing_alpha (p : Shade Rat) (share : Rat) :
    (p.adjustAll (revealing share)).alpha = p.alpha := rfl

theorem black_revealed (black : p.red = 0) : (p.adjustAll (revealing share)).red = 1 / 2 := by
  have grey : max 0 (min ((0 : Rat) + 1 / 2) 1) - 1 / 2 = 0 := by norm_num
  rw [revealing_red, black, grey, zero_mul]
  norm_num

theorem share_revealed (some : 0 < share) (part : p.red = share) (most : share ≤ 1) :
    (p.adjustAll (revealing share)).red = 1 := by
  have lifted : share / 2 ≤ max 0 (min (p.red + 1 / 2) 1) - 1 / 2 := by
    rw [part, le_sub_iff_add_le]
    exact (le_min (by linarith) (by linarith)).trans (le_max_right _ _)
  have half : 1 / 2 ≤ (max 0 (min (p.red + 1 / 2) 1) - 1 / 2) * (1 / share) := by
    rw [mul_one_div, le_div_iff₀ some]
    linarith
  rw [revealing_red, min_eq_right (by linarith), max_eq_right zero_le_one]

/-- What is opaque covers what is beneath it. -/
theorem blend_whole (full : p.alpha = 1) (under : Color) :
    (Color.blend p (p.alpha * Scalar.clamp 0 1 1) under).red = blendChannel p.red 1 under.red := by
  have whole : Scalar.clamp 0 1 (1 * Scalar.clamp 0 1 1) = (1 : Rat) := by decide +kernel
  have visible : ¬ (1 : Rat) ≤ 0 := by norm_num
  rw [full]
  change (if Scalar.clamp 0 1 (1 * Scalar.clamp 0 1 1) ≤ 0 then under else
    ⟨blendChannel p.red (Scalar.clamp 0 1 (1 * Scalar.clamp 0 1 1)) under.red, _, _, _⟩).red = _
  rw [whole, if_neg visible]

end Revealing

/-- A pixel near a point that is read of a stretch is no further than half a pixel outside the
stretch. -/
theorem near_stretch {size n : Nat} {start length q : Rat} (some : 0 < size) (low : 0 ≤ start)
    (high : start ≤ size) (left : start ≤ q) (right : q < start + length)
    (near : 0 < nearness size (q - 1 / 2) n) :
    (n : Rat) < start + length + 1 / 2 ∧ start - 1 / 2 < n + 1 := by
  obtain ⟨above, below⟩ := abs_lt.mp (nearness_pos_iff.mp near)
  have last : ((size - 1 : Nat) : Rat) = size - 1 := by
    rw [Nat.cast_sub some, Nat.cast_one]
  rw [kept, Scalar.ofNat_rat, Scalar.clamp_between (Nat.cast_nonneg _), last] at above below
  constructor
  · have upper : max 0 (min (q - 1 / 2) ((size : Rat) - 1)) ≤ max 0 (q - 1 / 2) :=
      max_le_max_left 0 (min_le_left _ _)
    rcases max_cases (0 : Rat) (q - 1 / 2) with ⟨first, -⟩ | ⟨first, -⟩
    · have whole : n < 1 := by
        have small : (n : Rat) < 1 := by linarith
        exact_mod_cast small
      rw [Nat.lt_one_iff.mp whole, Nat.cast_zero]
      linarith
    · linarith
  · have lower := le_max_right 0 (min (q - 1 / 2) ((size : Rat) - 1))
    rcases min_cases (q - 1 / 2) ((size : Rat) - 1) with ⟨first, -⟩ | ⟨first, -⟩
    · linarith
    · have whole : size < n + 2 := by
        have short : (size : Rat) < n + 2 := by linarith
        exact_mod_cast short
      have long : (size : Rat) ≤ n + 1 := by exact_mod_cast Nat.lt_succ_iff.mp whole
      linarith

theorem Drawing.origin?_inside {d : Drawing Rat} {x y : Nat} {point : Rat × Rat}
    (columns : 1 ≤ d.source.w) (rows : 1 ≤ d.source.h) (origin : d.origin? x y = some point) :
    (d.source.x ≤ point.1 ∧ point.1 < d.source.x + d.source.w) ∧
      d.source.y ≤ point.2 ∧ point.2 < d.source.y + d.source.h := by
  have scaled : ∀ {a b w s : Rat}, 1 ≤ s → a ≤ b → b < a + w →
      0 ≤ (b - a) * (s / w) ∧ (b - a) * (s / w) < s := by
    intro a b w s some low high
    have positive : 0 < w := by linarith
    refine ⟨mul_nonneg (by linarith) (div_nonneg (by linarith) positive.le), ?_⟩
    rw [mul_div_assoc', div_lt_iff₀ positive, mul_comm]
    exact mul_lt_mul_of_pos_left (by linarith) (by linarith)
  rw [Drawing.origin?_eq] at origin
  split at origin
  · rename_i inside
    obtain rfl := Option.some.inj origin
    obtain ⟨⟨⟨left, right⟩, top⟩, bottom⟩ := Rect.contains_iff.mp inside
    obtain ⟨across, across'⟩ := scaled columns left right
    obtain ⟨down, down'⟩ := scaled rows top bottom
    exact ⟨⟨by linarith, by linarith⟩, by linarith, by linarith⟩
  · cases origin

section Layers
variable [Angles Rat] {layer : Layer Rat} {canvas image : Image} {region : Nat → Nat → Prop}

/-- A pixel of a picture has a part in what a layer shows of the picture on a canvas. -/
def Layer.Shows (layer : Layer Rat) (canvas image : Image) (i j : Nat) : Prop :=
  ∃ d, Drawing.of? canvas.width canvas.height image layer = some d ∧
    ∃ x < canvas.width, ∃ y < canvas.height, ∃ point, d.origin? x y = some point ∧
      0 < image.share (point.1 - 1 / 2) (point.2 - 1 / 2) i j

/-- Only the pixels of a region matter for what comes of a picture, whatever the opacity, the
effects, what was drawn before and the rest of the picture. -/
def Layer.ShowsOnly (layer : Layer Rat) (canvas image : Image) (region : Nat → Nat → Prop) : Prop :=
  ∀ (under a b : Image) (opacity : Rat) (effects : List (Effect Rat)),
    under.width = canvas.width → under.height = canvas.height →
    a.width = image.width → a.height = image.height → a.AgreeOn region b →
    under.draw Rat a { layer with opacity := opacity, effects := effects } =
      under.draw Rat b { layer with opacity := opacity, effects := effects }

theorem Drawing.of?_congr {a b : Image} {other : Layer Rat} (width : a.width = b.width)
    (height : a.height = b.height) (crop : layer.crop = other.crop)
    (transform : layer.transform = other.transform) (w h : Nat) :
    Drawing.of? w h a layer = Drawing.of? w h b other := by
  unfold Drawing.of?
  rw [width, height, crop, transform]

theorem draw_none (none : Drawing.of? canvas.width canvas.height image layer = none) :
    canvas.draw Rat image layer = canvas := by
  unfold Image.draw
  dsimp only
  rw [none]
  exact ite_self canvas

theorem draw_faint (faint : layer.opacity ≤ 0) : canvas.draw Rat image layer = canvas := by
  have clear : Scalar.clamp 0 1 layer.opacity ≤ 0 := by
    rw [Scalar.clamp_between zero_le_one]
    exact max_le le_rfl ((min_le_left _ _).trans faint)
  unfold Image.draw
  dsimp only
  exact if_pos (.inl clear)

theorem showsOnly_of_shows (fits : canvas.Fits) (fits' : image.Fits)
    (shown : ∀ i j, layer.Shows canvas image i j → region i j) :
    layer.ShowsOnly canvas image region := by
  intro under a b opacity effects width height columns rows agree
  have sized : ∀ c : Image, c.width = image.width → c.height = image.height →
      Drawing.of? under.width under.height c { layer with opacity := opacity, effects := effects } =
        Drawing.of? canvas.width canvas.height image layer := by
    intro c columns rows
    rw [width, height]
    exact Drawing.of?_congr columns rows rfl rfl _ _
  have forA := sized a columns rows
  have forB := sized b (agree.width ▸ columns) (agree.height ▸ rows)
  rcases le_or_gt opacity 0 with faint | visible
  · exact (draw_faint faint).trans (draw_faint faint).symm
  · cases drawing : Drawing.of? canvas.width canvas.height image layer with
    | none => exact (draw_none (forA.trans drawing)).trans (draw_none (forB.trans drawing)).symm
    | some d =>
      have drawA := draw_painted (S := Rat) (forA.trans drawing) (fits.of_size width height) visible
      have drawB := draw_painted (S := Rat) (forB.trans drawing) (fits.of_size width height) visible
      refine (drawA.alike fun x y left top => ?_).unique drawB
      cases origin : d.origin? x y with
      | none =>
        unfold Drawing.paint
        rw [origin]
      | some point =>
        have same : (a.between (point.1 - 1 / 2) (point.2 - 1 / 2) : Shade Rat) =
            b.between (point.1 - 1 / 2) (point.2 - 1 / 2) := by
          obtain ⟨some, some'⟩ := (Drawing.made_of (forB.trans drawing)).nonempty
          have columns' : b.width = image.width := agree.width ▸ columns
          have rows' : b.height = image.height := agree.height ▸ rows
          refine Image.between_congr (fits'.of_size columns' rows') some some' agree.width
            agree.height fun i j near => agree.same i j (shown i j ?_)
          rw [Image.share, columns', rows'] at near
          exact ⟨d, drawing, x, width ▸ left, y, height ▸ top, point, origin, near⟩
        rw [Drawing.paint_origin origin, Drawing.paint_origin origin, same]

/-- What comes of a point of an opaque picture that is drawn over black. -/
theorem revealed_pixel {d : Drawing Rat}
    (drawing : Drawing.of? canvas.width canvas.height image layer = some d)
    (fits : canvas.Fits) (a : Image) (columns : a.width = image.width) (rows : a.height = image.height) {x y : Nat}
    (left : x < canvas.width) (top : y < canvas.height) {point : Rat × Rat}
    (origin : d.origin? x y = some point)
    (full : (a.between (point.1 - 1 / 2) (point.2 - 1 / 2) : Shade Rat).alpha = 1) (share : Rat) :
    (((Image.blank canvas.width canvas.height).draw Rat a
      { layer with opacity := 1, effects := revealing share }).pixel x y).red =
        blendChannel ((a.between (point.1 - 1 / 2) (point.2 - 1 / 2) : Shade Rat).adjustAll
          (revealing share)).red 1 0 := by
  have drawn : Drawing.of? (Image.blank canvas.width canvas.height).width
      (Image.blank canvas.width canvas.height).height a
      { layer with opacity := 1, effects := revealing share } = some d :=
    (Drawing.of?_congr columns rows rfl rfl _ _).trans drawing
  have painted := draw_painted (S := Rat) drawn ⟨fits.width, fits.height⟩ one_pos
  rw [painted.inside x y left top trivial, Drawing.paint_origin origin, Image.pixel_blank left top]
  exact blend_whole ((revealing_alpha _ share).trans full) Color.black

/-- A pixel that is shown can be seen in what comes of the picture. -/
theorem shows_of_showsOnly (fits : canvas.Fits) (fits' : image.Fits)
    (only : layer.ShowsOnly canvas image region) {i j : Nat}
    (shows : layer.Shows canvas image i j) : region i j := by
  by_contra hidden
  have whole : (Image.blank image.width image.height).Fits := ⟨fits'.width, fits'.height⟩
  obtain ⟨d, drawing, x, left, y, top, point, origin, near⟩ := shows
  obtain ⟨some, some'⟩ := (Drawing.made_of drawing).nonempty
  obtain ⟨across, down⟩ := Image.share_pos.mp near
  -- A black picture and the same with one white pixel: the adjustments make any share of it seen.
  have blot := Image.modify_changed (Image.blank image.width image.height) i j
    fun _ _ _ => Color.white
  have agree : (Image.blank image.width image.height).AgreeOn region
      ((Image.blank image.width image.height).modify i j fun _ => Color.white) :=
    ⟨blot.width.symm, blot.height.symm, fun k l inside =>
      (blot.outside k l fun here => hidden (here.1 ▸ here.2 ▸ inside)).symm⟩
  obtain ⟨red, alpha⟩ := Image.between_blank whole some some' (point.1 - 1 / 2) (point.2 - 1 / 2)
  obtain ⟨red', alpha'⟩ := Image.between_blotted whole (lt_of_nearness some across)
    (lt_of_nearness some' down) (point.1 - 1 / 2) (point.2 - 1 / 2)
  obtain ⟨share, known⟩ : ∃ share, share = image.share (point.1 - 1 / 2) (point.2 - 1 / 2) i j :=
    ⟨_, rfl⟩
  have same := congrArg (fun c : Image => (c.pixel x y).red)
    (only (Image.blank canvas.width canvas.height) (Image.blank image.width image.height) _ 1
      (revealing share) rfl rfl rfl rfl agree)
  have drawn := revealed_pixel drawing fits (Image.blank image.width image.height) rfl rfl left
    top origin alpha share
  have drawn' := revealed_pixel drawing fits _ blot.width blot.height left top origin alpha' share
  rw [black_revealed red] at drawn
  rw [share_revealed (known ▸ near) (red'.trans known.symm) (known ▸ image.share_le_one _ _ i j)]
    at drawn'
  exact absurd (drawn.symm.trans (same.trans drawn')) (by decide +kernel)

/-- What a layer shows is no further than half a pixel outside the crop. -/
theorem shows_near {i j : Nat} (shows : layer.Shows canvas image i j) :
    ((layer.source image).widened (1 / 2)).Overlaps i j := by
  obtain ⟨d, drawing, x, -, y, -, point, origin, near⟩ := shows
  obtain ⟨near, near'⟩ := Image.share_pos.mp near
  have made := Drawing.made_of drawing
  obtain ⟨columns, rows⟩ := made.nonempty
  obtain ⟨⟨left, right⟩, top, bottom⟩ := Drawing.origin?_inside made.columns made.rows origin
  obtain ⟨corner, corner'⟩ := layer.source_corner image
  rw [← made.source] at corner corner' ⊢
  obtain ⟨across, across'⟩ := near_stretch columns corner.1 corner.2 left right near
  obtain ⟨down, down'⟩ := near_stretch rows corner'.1 corner'.2 top bottom near'
  exact ⟨by simp only [Rect.widened]; linarith, across', by simp only [Rect.widened]; linarith, down'⟩

/-- Pictures that agree on what the crop leaves of them are always drawn alike exactly when every
pixel with a part in what is shown has a part in what the crop leaves; half a pixel around it always
suffices. -/
theorem crop_hides_iff (layer : Layer Rat) (canvas image : Image) (fits : canvas.Fits)
    (fits' : image.Fits) :
    (layer.ShowsOnly canvas image (layer.source image).Overlaps ↔
        ∀ i j, layer.Shows canvas image i j → (layer.source image).Overlaps i j) ∧
      layer.ShowsOnly canvas image ((layer.source image).widened (1 / 2)).Overlaps :=
  ⟨⟨fun only _ _ => shows_of_showsOnly fits fits' only, showsOnly_of_shows fits fits'⟩,
    showsOnly_of_shows fits fits' fun _ _ => shows_near⟩

end Layers

/-- Cuts a column and a quarter off the left of four. -/
def leftCut : Layer Rat := ⟨⟨5 / 16, 0, 0, 0⟩, Transform.identity, 1, []⟩

theorem leftCut_apart {image : Image} (width : image.width = 4) :
    ¬ (leftCut.source image).Overlaps 0 0 := by
  intro overlaps
  have right : (image.width : Rat) * Crop.clampEdge (5 / 16) < ((0 : Nat) : Rat) + 1 := overlaps.right
  rw [width] at right
  exact absurd right (by decide +kernel)

theorem crop_hides_iff_leftCut :
    let _ := Angles.fixed 0 1
    let image := Image.filled 4 1 Color.white
    ¬ leftCut.ShowsOnly (Image.blank 11 4) image (leftCut.source image).Overlaps ∧
      leftCut.ShowsOnly (Image.blank 11 4) image ((leftCut.source image).widened (1 / 2)).Overlaps := by
  let _ := Angles.fixed 0 1
  have reads : ((Drawing.of? 11 4 (Image.filled 4 1 Color.white) leftCut).bind fun d =>
      d.origin? 0 0) = some (11 / 8, 1 / 8) := by
    decide +kernel
  obtain ⟨d, drawing, origin⟩ := Option.bind_eq_some_iff.mp reads
  have shows : leftCut.Shows (Image.blank 11 4) (Image.filled 4 1 Color.white) 0 0 :=
    ⟨d, drawing, 0, by decide, 0, by decide, _, origin, by decide +kernel⟩
  obtain ⟨exactly, always⟩ := crop_hides_iff leftCut (Image.blank 11 4)
    (Image.filled 4 1 Color.white) ⟨by decide, by decide⟩ ⟨by decide, by decide⟩
  exact ⟨fun only => leftCut_apart rfl (exactly.mp only 0 0 shows), always⟩

/-- The first column is cut off whole, and an eighth of its colour is seen. -/
theorem cut_off_column_shows :
    let _ := Angles.fixed 0 1
    let blue := Image.filled 4 1 ⟨0, 0, 255, 255⟩
    let red := blue.modify 0 0 fun _ => ⟨255, 0, 0, 255⟩
    blue.AgreeOn (leftCut.source blue).Overlaps red ∧
      ((Image.blank 11 4).draw Rat blue leftCut).pixel 0 0 = ⟨0, 0, 255, 255⟩ ∧
      ((Image.blank 11 4).draw Rat red leftCut).pixel 0 0 = ⟨32, 0, 223, 255⟩ := by
  let _ := Angles.fixed 0 1
  have blot := Image.modify_changed (Image.filled 4 1 ⟨0, 0, 255, 255⟩) 0 0
    fun _ _ _ => ⟨255, 0, 0, 255⟩
  refine ⟨⟨blot.width.symm, blot.height.symm, fun i j inside =>
    (blot.outside i j ?_).symm⟩, by decide +kernel, by decide +kernel⟩
  rintro ⟨rfl, rfl⟩
  exact leftCut_apart rfl inside

end Montage
