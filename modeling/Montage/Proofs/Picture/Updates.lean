import Mathlib.Tactic.Ring
import Montage.Picture.Image

/- Pictures told by their pixels, and what an update of a box does to each of them. -/
namespace Montage.Image

theorem place_lt {width height x y : Nat} (left : x < width) (top : y < height) :
    y * width + x < width * height :=
  calc y * width + x < y * width + width := Nat.add_lt_add_left left _
    _ = width * (y + 1) := by ring
    _ ≤ width * height := Nat.mul_le_mul_left width top

theorem place_inj {width x x' y y' : Nat} (left : x < width) (left' : x' < width)
    (same : y * width + x = y' * width + x') : x = x' ∧ y = y' := by
  have some : 0 < width := Nat.zero_lt_of_lt left
  have column := congrArg (· % width) same
  have row := congrArg (· / width) same
  simp only [Nat.mul_comm _ width, Nat.mul_add_mod, Nat.mod_eq_of_lt left,
    Nat.mod_eq_of_lt left'] at column
  simp only [Nat.mul_comm _ width, Nat.mul_add_div some, Nat.div_eq_of_lt left,
    Nat.div_eq_of_lt left', Nat.add_zero] at row
  exact ⟨column, row⟩

/-- Outside it, a picture is clear. -/
theorem pixel_outside {i : Image} {x y : Nat} (outside : ¬ (x < i.width ∧ y < i.height)) :
    i.pixel x y = Color.clear := by
  unfold pixel
  split
  · rename_i left
    have below : i.height ≤ y := not_lt.mp fun top => outside ⟨left, top⟩
    have past : i.pixels.size ≤ y * i.width + x := by
      rw [i.size_eq, Nat.mul_comm]
      exact (Nat.mul_le_mul_right i.width below).trans (Nat.le_add_right _ _)
    rw [Array.getElem?_eq_none past]
    rfl
  · rfl

theorem pixel_filled {width height : Nat} (c : Color) {x y : Nat} (left : x < width)
    (top : y < height) : (filled width height c).pixel x y = c := by
  have stands : (filled width height c).pixels[y * width + x]? = some c := by
    change (Array.replicate (width * height) c)[y * width + x]? = some c
    rw [Array.getElem?_replicate, if_pos (place_lt left top)]
  exact (if_pos left).trans (congrArg (·.getD Color.clear) stands)

theorem ext_pixel {i j : Image} (width : i.width = j.width) (height : i.height = j.height)
    (same : ∀ x y, i.pixel x y = j.pixel x y) : i = j := by
  obtain ⟨w, h, pixels, size⟩ := i
  obtain ⟨w', h', pixels', size'⟩ := j
  obtain rfl : w = w' := width
  obtain rfl : h = h' := height
  congr 1
  refine Array.ext (size.trans size'.symm) fun n here there => ?_
  have some : 0 < w := by
    by_contra none
    rw [size, Nat.eq_zero_of_not_pos none, Nat.zero_mul] at here
    exact Nat.not_lt_zero n here
  have place : n / w * w + n % w = n := Nat.div_add_mod' n w
  have agree := same (n % w) (n / w)
  simp only [pixel, if_pos (Nat.mod_lt n some), place, Array.getElem?_eq_getElem here,
    Array.getElem?_eq_getElem there, Option.getD_some] at agree
  exact agree

/-- A picture of the same size as another, in which the pixels of some places have changed and all
others have not. -/
structure Changed (change : Nat → Nat → Color → Color) (here : Nat → Nat → Prop) (i j : Image) :
    Prop where
  width : j.width = i.width
  height : j.height = i.height
  inside : ∀ x y, x < i.width → y < i.height → here x y → j.pixel x y = change x y (i.pixel x y)
  outside : ∀ x y, ¬ here x y → j.pixel x y = i.pixel x y

section Changes
variable {change : Nat → Nat → Color → Color} {here : Nat → Nat → Prop} {i j k : Image}

theorem Changed.unique (first : Changed change here i j) (second : Changed change here i k) :
    j = k := by
  refine ext_pixel (first.width.trans second.width.symm) (first.height.trans second.height.symm) ?_
  intro x y
  by_cases within : x < i.width ∧ y < i.height
  · by_cases changes : here x y
    · rw [first.inside x y within.1 within.2 changes, second.inside x y within.1 within.2 changes]
    · rw [first.outside x y changes, second.outside x y changes]
  · rw [pixel_outside (by rwa [first.width, first.height]),
      pixel_outside (by rwa [second.width, second.height])]

/-- Places whose pixels would not change may be counted among those that do, or not. -/
theorem Changed.widen {wider : Nat → Nat → Prop} (changed : Changed change here i j)
    (more : ∀ x y, here x y → wider x y)
    (idle : ∀ x y, x < i.width → y < i.height → wider x y → ¬ here x y →
      change x y (i.pixel x y) = i.pixel x y) : Changed change wider i j := by
  refine ⟨changed.width, changed.height, ?_, fun x y out =>
    changed.outside x y fun changes => out (more x y changes)⟩
  intro x y left top wide
  by_cases changes : here x y
  · exact changed.inside x y left top changes
  · rw [changed.outside x y changes, idle x y left top wide changes]

theorem Changed.among {there : Nat → Nat → Prop} (changed : Changed change here i j)
    (same : ∀ x y, here x y ↔ there x y) : Changed change there i j :=
  changed.widen (fun x y => (same x y).mp) fun x y _ _ changes stays =>
    (stays ((same x y).mpr changes)).elim

theorem Changed.alike {other : Nat → Nat → Color → Color} (changed : Changed change here i j)
    (same : ∀ x y, x < i.width → y < i.height →
      change x y (i.pixel x y) = other x y (i.pixel x y)) : Changed other here i j :=
  ⟨changed.width, changed.height, fun x y left top changes =>
    (changed.inside x y left top changes).trans (same x y left top), changed.outside⟩

theorem modify_changed (i : Image) (x y : Nat) (f : Nat → Nat → Color → Color) :
    Changed f (fun a b => a = x ∧ b = y) i (i.modify x y (f x y)) := by
  unfold modify
  split
  · rename_i column
    refine ⟨rfl, rfl, ?_, ?_⟩
    · rintro a b left top ⟨rfl, rfl⟩
      have stands : b * i.width + a < i.pixels.size := by
        rw [i.size_eq]
        exact place_lt left top
      simp only [pixel, if_pos left, Array.getElem?_modify, if_true,
        Array.getElem?_eq_getElem stands]
      rfl
    · intro a b elsewhere
      unfold pixel
      by_cases left : a < i.width
      · have apart : ¬ y * i.width + x = b * i.width + a := fun same =>
          elsewhere ⟨(place_inj column left same).1.symm, (place_inj column left same).2.symm⟩
        simp only [Array.getElem?_modify, if_neg apart]
      · exact (if_neg left).trans (if_neg left).symm
  · rename_i column
    refine ⟨rfl, rfl, ?_, fun _ _ _ => rfl⟩
    rintro a b left - ⟨rfl, rfl⟩
    exact (column left).elim

/-- A pass over places that have no pixel in common changes the pixels of all of them. -/
theorem foldl_changed {step : Image → Nat → Image} {covers : Nat → Nat → Nat → Prop}
    (steps : ∀ i n, Changed change (covers n) i (step i n))
    (apart : ∀ {n m a b}, covers n a b → covers m a b → n = m) {places : List Nat}
    (distinct : places.Nodup) (i : Image) :
    Changed change (fun a b => ∃ n ∈ places, covers n a b) i (places.foldl step i) := by
  induction places generalizing i with
  | nil =>
    refine ⟨rfl, rfl, ?_, fun _ _ _ => rfl⟩
    rintro a b - - ⟨n, none, -⟩
    cases none
  | cons n places ih =>
    obtain ⟨fresh, distinct⟩ := List.nodup_cons.mp distinct
    have first := steps i n
    have rest := ih distinct (step i n)
    refine ⟨rest.width.trans first.width, rest.height.trans first.height, ?_, ?_⟩
    · rintro a b left top ⟨m, member, stands⟩
      rcases List.mem_cons.mp member with rfl | later
      · have untouched : ¬ ∃ k ∈ places, covers k a b := by
          rintro ⟨k, among, also⟩
          exact fresh (apart stands also ▸ among)
        exact (rest.outside a b untouched).trans (first.inside a b left top stands)
      · have untouched : ¬ covers n a b := fun also => fresh (apart also stands ▸ later)
        rw [List.foldl_cons, rest.inside a b (by rwa [first.width]) (by rwa [first.height])
          ⟨m, later, stands⟩, first.outside a b untouched]
    · intro a b nowhere
      have later : ¬ ∃ m ∈ places, covers m a b := fun ⟨m, member, stands⟩ =>
        nowhere ⟨m, List.mem_cons_of_mem n member, stands⟩
      have now : ¬ covers n a b := fun stands => nowhere ⟨n, List.mem_cons_self, stands⟩
      exact (rest.outside a b later).trans (first.outside a b now)

theorem mem_between {x0 x1 x : Nat} : x ∈ List.range' x0 (x1 - x0) ↔ x0 ≤ x ∧ x < x1 := by
  rw [List.mem_range'_1]
  omega

theorem updateWithin_changed (i : Image) (x0 x1 y0 y1 : Nat) (f : Nat → Nat → Color → Color) :
    Changed f (fun a b => (x0 ≤ a ∧ a < x1) ∧ y0 ≤ b ∧ b < y1) i
      (i.updateWithin x0 x1 y0 y1 f) := by
  have row : ∀ i y, Changed f (fun a b => (x0 ≤ a ∧ a < x1) ∧ b = y) i
      ((List.range' x0 (x1 - x0)).foldl (fun i x => i.modify x y (f x y)) i) := by
    intro i y
    refine (foldl_changed (fun i x => modify_changed i x y f)
      (fun one two => one.1.symm.trans two.1) List.nodup_range' i).among ?_
    intro a b
    constructor
    · rintro ⟨x, member, rfl, rfl⟩
      exact ⟨mem_between.mp member, rfl⟩
    · rintro ⟨column, rfl⟩
      exact ⟨a, mem_between.mpr column, rfl, rfl⟩
  refine (foldl_changed row (fun one two => one.2.symm.trans two.2) List.nodup_range' i).among ?_
  intro a b
  constructor
  · rintro ⟨y, member, column, rfl⟩
    exact ⟨column, mem_between.mp member⟩
  · rintro ⟨column, line⟩
    exact ⟨b, mem_between.mpr line, column, rfl⟩

end Changes

end Montage.Image
