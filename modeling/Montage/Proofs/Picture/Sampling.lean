import Mathlib.Algebra.BigOperators.Group.Finset.Piecewise
import Mathlib.Algebra.BigOperators.Ring.Finset
import Montage.Proofs.Picture.Reach

/- The colour between pixels, in exact arithmetic: a mean of the pixels around a point, each by how
   near it is. -/
namespace Montage

/-- A coordinate in a row of pixels, kept inside it. -/
def kept (size : Nat) (x : Rat) : Rat := Scalar.clamp 0 (Scalar.ofNat (size - 1)) x

/-- What lies between two neighbours of a row of values. -/
def along (size : Nat) (x : Rat) (row : Nat → Rat) : Rat :=
  let left := place (Scalar.floor (kept size x))
  let part := kept size x - Scalar.floor (kept size x)
  row left * (1 - part) + row (min (left + 1) (size - 1)) * part

/-- How near a coordinate is to a pixel of a row: one where they meet, nothing a pixel away. -/
def nearness (size : Nat) (x : Rat) (n : Nat) : Rat := max 0 (1 - |kept size x - n|)

theorem nearness_nonneg (size : Nat) (x : Rat) (n : Nat) : 0 ≤ nearness size x n :=
  le_max_left _ _

theorem nearness_le_one (size : Nat) (x : Rat) (n : Nat) : nearness size x n ≤ 1 :=
  max_le zero_le_one (by linarith [abs_nonneg (kept size x - n)])

theorem nearness_pos_iff {size : Nat} {x : Rat} {n : Nat} :
    0 < nearness size x n ↔ |kept size x - n| < 1 := by
  unfold nearness
  rw [lt_max_iff, sub_pos]
  exact or_iff_right (lt_irrefl 0)

section Row
variable {size left : Nat} {x : Rat}

theorem kept_between (size : Nat) (x : Rat) :
    0 ≤ kept size x ∧ kept size x ≤ ((size - 1 : Nat) : Rat) := by
  rw [kept, Scalar.ofNat_rat, Scalar.clamp_between (Nat.cast_nonneg _)]
  exact ⟨le_max_left _ _, max_le (Nat.cast_nonneg _) (min_le_right _ _)⟩

theorem lt_of_nearness {n : Nat} (some : 0 < size) (near : 0 < nearness size x n) : n < size := by
  have above := (abs_lt.mp (nearness_pos_iff.mp near)).1
  have last := (kept_between size x).2
  by_contra past
  have step : ((size - 1 : Nat) : Rat) + 1 ≤ n := by exact_mod_cast (by omega : size - 1 + 1 ≤ n)
  linarith

theorem nearness_left (low : (left : Rat) ≤ kept size x)
    (high : kept size x < left + 1) :
    nearness size x left = 1 - (kept size x - left) := by
  rw [nearness, abs_of_nonneg (by linarith), max_eq_right (by linarith)]

theorem nearness_right (low : (left : Rat) ≤ kept size x)
    (high : kept size x < left + 1) :
    nearness size x (left + 1) = kept size x - left := by
  rw [nearness, Nat.cast_succ, abs_of_nonpos (by linarith), max_eq_right (by linarith)]
  ring

theorem nearness_apart (low : (left : Rat) ≤ kept size x)
    (high : kept size x < left + 1) {n : Nat} (here : n ≠ left)
    (next : n ≠ left + 1) : nearness size x n = 0 := by
  refine le_antisymm (not_lt.mp fun near => ?_) (nearness_nonneg size x n)
  obtain ⟨above, below⟩ := abs_lt.mp (nearness_pos_iff.mp near)
  rcases Nat.lt_or_gt_of_ne here with before | after
  · have step : (n : Rat) + 1 ≤ left := by exact_mod_cast before
    linarith
  · have step : (left : Rat) + 2 ≤ n := by exact_mod_cast (by omega : left + 2 ≤ n)
    linarith

/-- What is mixed of two neighbours in a row is the mean of the row, each by its nearness. -/
theorem along_eq_sum (some : 0 < size) (fits : (size : Int) ≤ unsignedMax 32) (x : Rat)
    (row : Nat → Rat) : along size x row = ∑ n ∈ Finset.range size, nearness size x n * row n := by
  obtain ⟨first, last⟩ := kept_between size x
  have floor : 0 ≤ ⌊kept size x⌋ := Int.floor_nonneg.mpr first
  have low := Int.floor_le (kept size x)
  have high := Int.lt_floor_add_one (kept size x)
  obtain ⟨left, whole⟩ := Int.eq_ofNat_of_zero_le floor
  rw [whole, Int.cast_natCast] at low high
  have within : left ≤ size - 1 := by exact_mod_cast low.trans last
  unfold along
  dsimp only
  rw [Scalar.floor_rat, whole, place_whole (Int.natCast_nonneg left) (by omega), Int.toNat_natCast,
    Int.cast_natCast]
  rcases Nat.lt_or_ge (left + 1) size with inner | edge
  · rw [Nat.min_eq_left (by omega), Finset.sum_eq_add_of_mem left (left + 1)
      (Finset.mem_range.mpr (by omega)) (Finset.mem_range.mpr inner) (by omega)
      fun n _ away => by rw [nearness_apart low high away.1 away.2, zero_mul],
      nearness_left low high, nearness_right low high]
    ring
  · have corner : left = size - 1 := by omega
    have stays : kept size x = left := by
      rw [corner] at low ⊢
      exact le_antisymm last low
    rw [Nat.min_eq_right (by omega), Finset.sum_eq_single left
      (fun n member away => by
        rw [nearness_apart low high away (by have := Finset.mem_range.mp member; omega), zero_mul])
      (fun out => (out (Finset.mem_range.mpr (by omega))).elim),
      nearness_left low high, stays, ← corner]
    ring

theorem nearness_sum (some : 0 < size) (fits : (size : Int) ≤ unsignedMax 32) (x : Rat) :
    ∑ n ∈ Finset.range size, nearness size x n = 1 := by
  have mixed := along_eq_sum some fits x fun _ => 1
  simp only [mul_one] at mixed
  rw [← mixed, along]
  ring

end Row

namespace Image

/-- How much of a pixel there is in what lies at a point. -/
def share (image : Image) (x y : Rat) (i j : Nat) : Rat :=
  nearness image.width x i * nearness image.height y j

theorem share_pos {image : Image} {x y : Rat} {i j : Nat} : 0 < image.share x y i j ↔
    0 < nearness image.width x i ∧ 0 < nearness image.height y j :=
  ⟨fun some => ⟨pos_of_mul_pos_left some (nearness_nonneg _ _ _),
    pos_of_mul_pos_right some (nearness_nonneg _ _ _)⟩, fun near => mul_pos near.1 near.2⟩

theorem share_le_one (image : Image) (x y : Rat) (i j : Nat) : image.share x y i j ≤ 1 :=
  mul_le_one₀ (nearness_le_one _ _ _) (nearness_nonneg _ _ _) (nearness_le_one _ _ _)

/-- Mean of one channel of a picture around a point, each pixel by its nearness. -/
def mean (image : Image) (x y : Rat) (channel : Color → UInt8) : Rat :=
  (∑ j ∈ Finset.range image.height, nearness image.height y j *
    ∑ i ∈ Finset.range image.width, nearness image.width x i *
      ((channel (image.pixel i j)).toNat : Rat)) / 255

theorem between_eq {image : Image} (fits : image.Fits) (columns : 0 < image.width)
    (rows : 0 < image.height) (x y : Rat) :
    image.between x y = (⟨image.mean x y Color.red, image.mean x y Color.green,
      image.mean x y Color.blue, image.mean x y Color.alpha⟩ : Shade Rat) := by
  have each : ∀ channel : Color → UInt8, along image.height y (fun j => along image.width x fun i =>
      Scalar.ofNat (channel (image.pixel i j)).toNat) / 255 = image.mean x y channel := by
    intro channel
    simp only [along_eq_sum rows fits.height, along_eq_sum columns fits.width, Scalar.ofNat_rat]
    rfl
  unfold between Shade.zip Shade.map
  dsimp only
  rw [Shade.mk.injEq]
  exact ⟨each Color.red, each Color.green, each Color.blue, each Color.alpha⟩

section Means
variable {image : Image} {channel : Color → UInt8} {x y : Rat}

theorem mean_uniform {v : UInt8} (fits : image.Fits) (columns : 0 < image.width) (rows : 0 < image.height)
    (all : ∀ i < image.width, ∀ j < image.height, channel (image.pixel i j) = v) :
    image.mean x y channel = v.toNat / 255 := by
  have row : ∀ j ∈ Finset.range image.height, nearness image.height y j *
      ∑ i ∈ Finset.range image.width, nearness image.width x i *
        ((channel (image.pixel i j)).toNat : Rat) = nearness image.height y j * v.toNat := by
    intro j below
    have level : ∀ i ∈ Finset.range image.width, nearness image.width x i *
        ((channel (image.pixel i j)).toNat : Rat) = nearness image.width x i * v.toNat := by
      intro i inside
      rw [all i (Finset.mem_range.mp inside) j (Finset.mem_range.mp below)]
    rw [Finset.sum_congr rfl level, ← Finset.sum_mul, nearness_sum columns fits.width, one_mul]
  rw [mean, Finset.sum_congr rfl row, ← Finset.sum_mul, nearness_sum rows fits.height, one_mul]

/-- A pixel that alone has some of a channel gives as much of it as it is near. -/
theorem mean_single {i j : Nat} (inside : i < image.width) (below : j < image.height)
    (others : ∀ k < image.width, ∀ l < image.height, ¬ (k = i ∧ l = j) →
      channel (image.pixel k l) = 0) :
    image.mean x y channel =
      image.share x y i j * ((channel (image.pixel i j)).toNat / 255) := by
  have empty : ∀ l ∈ Finset.range image.height, l ≠ j → nearness image.height y l *
      ∑ k ∈ Finset.range image.width, nearness image.width x k *
        ((channel (image.pixel k l)).toNat : Rat) = 0 := by
    intro l low elsewhere
    refine mul_eq_zero_of_right _ (Finset.sum_eq_zero fun k left => ?_)
    rw [others k (Finset.mem_range.mp left) l (Finset.mem_range.mp low) fun h => elsewhere h.2]
    exact mul_zero _
  have apart : ∀ k ∈ Finset.range image.width, k ≠ i → nearness image.width x k *
      ((channel (image.pixel k j)).toNat : Rat) = 0 := by
    intro k left elsewhere
    rw [others k (Finset.mem_range.mp left) j below fun h => elsewhere h.1]
    exact mul_zero _
  rw [mean, Finset.sum_eq_single_of_mem j (Finset.mem_range.mpr below) empty,
    Finset.sum_eq_single_of_mem i (Finset.mem_range.mpr inside) apart, share]
  ring

end Means

theorem pixel_blank {width height x y : Nat} (left : x < width) (top : y < height) :
    (blank width height).pixel x y = Color.black := pixel_filled Color.black left top

theorem between_blank {width height : Nat} (fits : (blank width height).Fits) (columns : 0 < width) (rows : 0 < height) (x y : Rat) :
    ((blank width height).between x y : Shade Rat).red = 0 ∧
      ((blank width height).between x y : Shade Rat).alpha = 1 := by
  have level : ∀ (channel : Color → UInt8) (v : UInt8), channel Color.black = v →
      (blank width height).mean x y channel = v.toNat / 255 := fun channel v black =>
    mean_uniform fits columns rows fun i left j top =>
      (congrArg channel (pixel_blank left top)).trans black
  rw [between_eq fits columns rows]
  exact ⟨(level Color.red 0 rfl).trans (by decide +kernel),
    (level Color.alpha 255 rfl).trans (by decide +kernel)⟩

/-- A white pixel in a black picture. -/
theorem between_blotted {width height i j : Nat} (fits : (blank width height).Fits) (left : i < width) (top : j < height) (x y : Rat) :
    (((blank width height).modify i j fun _ => Color.white).between x y : Shade Rat).red =
        (blank width height).share x y i j ∧
      (((blank width height).modify i j fun _ => Color.white).between x y : Shade Rat).alpha = 1 := by
  have blot := modify_changed (blank width height) i j fun _ _ _ => Color.white
  have here := blot.inside i j left top ⟨rfl, rfl⟩
  have around : ∀ k < width, ∀ l < height, ¬ (k = i ∧ l = j) →
      ((blank width height).modify i j fun _ => Color.white).pixel k l = Color.black :=
    fun k left' l top' elsewhere => (blot.outside k l elsewhere).trans (pixel_blank left' top')
  revert blot here around
  generalize (blank width height).modify i j (fun _ => Color.white) = blotted
  intro blot here around
  obtain rfl : blotted.width = width := blot.width
  obtain rfl : blotted.height = height := blot.height
  have sized : blotted.Fits := ⟨fits.width, fits.height⟩
  rw [between_eq sized (Nat.zero_lt_of_lt left) (Nat.zero_lt_of_lt top)]
  constructor
  · refine (mean_single left top fun k left' l top' elsewhere =>
      congrArg Color.red (around k left' l top' elsewhere)).trans ?_
    have white : ((Color.red Color.white).toNat : Rat) / 255 = 1 := by decide +kernel
    rw [here, white, mul_one]
    rfl
  · refine (mean_uniform sized (Nat.zero_lt_of_lt left) (Nat.zero_lt_of_lt top)
      fun k left' l top' => ?_ : blotted.mean x y Color.alpha = (255 : UInt8).toNat / 255).trans
        (by decide +kernel)
    by_cases elsewhere : k = i ∧ l = j
    · obtain ⟨rfl, rfl⟩ := elsewhere
      exact congrArg Color.alpha here
    · exact congrArg Color.alpha (around k left' l top' elsewhere)

/-- Two pictures of one size give the same colour at a point around which they agree. -/
theorem between_congr {a b : Image} (fits : b.Fits) (columns : 0 < b.width) (rows : 0 < b.height)
    (width : a.width = b.width) (height : a.height = b.height) {x y : Rat}
    (agree : ∀ i j, 0 < b.share x y i j → a.pixel i j = b.pixel i j) : (a.between x y : Shade Rat) = b.between x y := by
  have same : ∀ channel, a.mean x y channel = b.mean x y channel := by
    intro channel
    unfold mean
    rw [width, height]
    congr 1
    refine Finset.sum_congr rfl fun j _ => ?_
    rcases (nearness_nonneg b.height y j).eq_or_lt with far | near
    · rw [← far, zero_mul, zero_mul]
    · congr 1
      refine Finset.sum_congr rfl fun i _ => ?_
      rcases (nearness_nonneg b.width x i).eq_or_lt with far' | near'
      · rw [← far', zero_mul, zero_mul]
      · rw [agree i j (mul_pos near' near)]
  rw [between_eq (fits.of_size width height) (width ▸ columns) (height ▸ rows),
    between_eq fits columns rows, same, same, same, same]

end Image

end Montage
