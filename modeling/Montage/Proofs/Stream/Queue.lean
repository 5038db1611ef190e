import Mathlib.Data.List.TakeDrop
import Mathlib.Data.List.TakeWhile
import Montage.Stream.FrameQueue

/- Queues of frames: how long they are, when they are empty, and which frame is picked. A push
   adds one frame and may drop old ones, but never leaves a queue empty; a pick keeps the
   frame that it gives. -/
namespace Montage.FrameQueue

theorem insert_eq (f : Frame) (frames : List Frame) :
    insert f frames = frames.takeWhile (fun g => decide (g.timestamp ≤ f.timestamp)) ++
      f :: frames.dropWhile fun g => decide (g.timestamp ≤ f.timestamp) := by
  simp [insert, List.span_eq_takeWhile_dropWhile]

theorem insert_length (f : Frame) (frames : List Frame) :
    (insert f frames).length = frames.length + 1 := by
  have split := congrArg List.length
    (List.takeWhile_append_dropWhile (p := fun g : Frame => decide (g.timestamp ≤ f.timestamp))
      (l := frames))
  rw [List.length_append] at split
  rw [insert_eq, List.length_append, List.length_cons]
  omega

theorem insert_perm (f : Frame) (frames : List Frame) : (insert f frames).Perm (f :: frames) := by
  have whole := List.takeWhile_append_dropWhile (p := fun g : Frame =>
    decide (g.timestamp ≤ f.timestamp)) (l := frames)
  rw [insert_eq]
  refine List.perm_middle.trans ?_
  rw [whole]

theorem insert_cons (f g : Frame) (frames : List Frame) :
    insert f (g :: frames) =
      if g.timestamp ≤ f.timestamp then g :: insert f frames else f :: g :: frames := by
  rw [insert_eq, insert_eq]
  split
  · rename_i older
    rw [List.takeWhile_cons_of_pos (by simpa using older),
      List.dropWhile_cons_of_pos (by simpa using older)]
    rfl
  · rename_i younger
    rw [List.takeWhile_cons_of_neg (by simpa using younger),
      List.dropWhile_cons_of_neg (by simpa using younger)]
    rfl

/-- Frames of a queue stand in the order of their times. -/
def Ascending (frames : List Frame) : Prop := frames.Pairwise fun f g => f.timestamp ≤ g.timestamp

theorem insert_ascending (f : Frame) {frames : List Frame} (sorted : Ascending frames) :
    Ascending (insert f frames) := by
  induction frames with
  | nil => exact List.pairwise_singleton _ _
  | cons g frames ih =>
    obtain ⟨above, rest⟩ := List.pairwise_cons.mp sorted
    rw [insert_cons]
    split
    · rename_i older
      refine List.pairwise_cons.mpr ⟨?_, ih rest⟩
      intro h member
      rcases List.mem_cons.mp ((insert_perm f frames).mem_iff.mp member) with rfl | member
      · exact older
      · exact above h member
    · rename_i younger
      refine List.pairwise_cons.mpr ⟨?_, sorted⟩
      intro h member
      rcases List.mem_cons.mp member with rfl | member
      · omega
      · have := above h member
        omega

theorem push_ascending (q : FrameQueue) (f : Frame) (sorted : Ascending q.frames) :
    Ascending (q.push f).frames :=
  (insert_ascending f sorted).sublist (List.drop_sublist _ _)

/-- A queue with room keeps every frame. -/
theorem push_frames {q : FrameQueue} (f : Frame) (room : q.size < q.capacity) :
    (q.push f).frames = insert f q.frames := by
  have none : (insert f q.frames).length - q.capacity = 0 := by
    rw [insert_length]
    exact Nat.sub_eq_zero_of_le room
  rw [push]
  dsimp only
  rw [none, List.drop_zero]

theorem insert_last (f : Frame) (frames : List Frame)
    (older : ∀ g ∈ frames, g.timestamp ≤ f.timestamp) : insert f frames = frames ++ [f] := by
  have all : ∀ g ∈ frames, decide (g.timestamp ≤ f.timestamp) = true :=
    fun g member => decide_eq_true (older g member)
  rw [insert_eq, List.takeWhile_eq_self_iff.mpr all, List.dropWhile_eq_nil_iff.mpr all]

@[simp] theorem push_capacity (q : FrameQueue) (f : Frame) : (q.push f).capacity = q.capacity :=
  rfl

theorem push_size (q : FrameQueue) (f : Frame) :
    (q.push f).size = min (q.size + 1) q.capacity := by
  simp only [push, size, List.length_drop, insert_length]
  omega

theorem push_last (q : FrameQueue) (f : Frame)
    (older : ∀ g ∈ q.frames, g.timestamp ≤ f.timestamp) :
    (q.push f).frames = (q.frames ++ [f]).drop (q.size + 1 - q.capacity) := by
  simp only [push, insert_length]
  rw [insert_last f q.frames older]
  rfl

theorem least_none_iff (ds : List Int) : least ds = none ↔ ds = [] := by
  cases ds with
  | nil => simp [least]
  | cons d ds =>
    simp only [least, reduceCtorEq, iff_false]
    split
    · simp
    · split <;> simp

/-- The least entry stands at its position, none is smaller, and those before it are larger. -/
theorem least_spec {ds : List Int} {i : Nat} {e : Int} (found : least ds = some (i, e)) :
    ds[i]? = some e ∧ (∀ d ∈ ds, e ≤ d) ∧ ∀ j d, j < i → ds[j]? = some d → e < d := by
  induction ds generalizing i e with
  | nil => simp [least] at found
  | cons d ds ih =>
    rw [least] at found
    split at found
    · rename_i none
      have empty := (least_none_iff ds).mp none
      simp only [Option.some.injEq, Prod.mk.injEq] at found
      obtain ⟨rfl, rfl⟩ := found
      simp [empty]
    · rename_i k c rest
      obtain ⟨at_k, below, before⟩ := ih rest
      split at found
      · rename_i smaller
        simp only [Option.some.injEq, Prod.mk.injEq] at found
        obtain ⟨rfl, rfl⟩ := found
        refine ⟨by simpa using at_k, ?_, ?_⟩
        · intro x member
          rcases List.mem_cons.mp member with same | member
          · omega
          · exact below x member
        · intro j x early stands
          cases j with
          | zero =>
            simp only [List.getElem?_cons_zero, Option.some.injEq] at stands
            omega
          | succ j => exact before j x (by omega) (by simpa using stands)
      · rename_i larger
        simp only [Option.some.injEq, Prod.mk.injEq] at found
        obtain ⟨rfl, rfl⟩ := found
        refine ⟨by simp, ?_, by omega⟩
        intro x member
        rcases List.mem_cons.mp member with same | member
        · omega
        · have := below x member
          omega

theorem nearest_none_iff (q : FrameQueue) (target : Int) :
    q.nearest target = none ↔ q.frames = [] := by
  simp [nearest, least_none_iff]

/-- The nearest frame is at no greater distance than any other of the queue. -/
theorem nearest_spec {q : FrameQueue} {target : Int} {i : Nat} (found : q.nearest target = some i) :
    ∃ f, q.frames[i]? = some f ∧
      (∀ g ∈ q.frames, (f.timestamp - target).natAbs ≤ (g.timestamp - target).natAbs) ∧
      ∀ j g, j < i → q.frames[j]? = some g →
        (f.timestamp - target).natAbs < (g.timestamp - target).natAbs := by
  simp only [nearest, Option.map_eq_some_iff] at found
  obtain ⟨⟨k, e⟩, least, rfl⟩ := found
  obtain ⟨stands, below, before⟩ := least_spec least
  simp only [List.getElem?_map, Option.map_eq_some_iff] at stands
  obtain ⟨f, at_k, rfl⟩ := stands
  refine ⟨f, at_k, ?_, ?_⟩
  · intro g member
    exact Int.ofNat_le.mp (below _ (List.mem_map.mpr ⟨g, member, rfl⟩))
  · intro j g early at_j
    exact Int.ofNat_lt.mp (before j _ early (by simp [at_j]))

theorem pick_spec (q : FrameQueue) (target : Int) :
    (q.frames = [] ∧ q.pick target = (none, q)) ∨
      ∃ i f, q.nearest target = some i ∧ q.frames[i]? = some f ∧
        q.pick target = (some f, { q with frames := q.frames.drop i }) := by
  cases found : q.nearest target with
  | none => exact .inl ⟨(nearest_none_iff q target).mp found, by simp [pick, found]⟩
  | some i =>
    obtain ⟨f, stands, _⟩ := nearest_spec found
    refine .inr ⟨i, f, rfl, stands, ?_⟩
    simp [pick, found, List.head?_drop, stands]

theorem pickDescending_spec (q : FrameQueue) (target : Int) :
    (q.frames = [] ∧ q.pickDescending target = (none, q)) ∨
      ∃ i f, q.nearest target = some i ∧ q.frames[i]? = some f ∧
        q.pickDescending target = (some f, { q with frames := q.frames.take (i + 1) }) := by
  cases found : q.nearest target with
  | none => exact .inl ⟨(nearest_none_iff q target).mp found, by simp [pickDescending, found]⟩
  | some i =>
    obtain ⟨f, stands, _⟩ := nearest_spec found
    refine .inr ⟨i, f, rfl, stands, ?_⟩
    have inside : i < q.frames.length := (List.getElem?_eq_some_iff.mp stands).1
    have last : (q.frames.take (i + 1)).getLast? = some f := by
      rw [List.getLast?_take]
      simp [stands]
    simp [pickDescending, found, last]

/-- Both kinds of pick leave a part of the queue. -/
theorem pick_part (q : FrameQueue) (target : Int) :
    (q.pick target).2.frames.Sublist q.frames ∧ (q.pick target).2.capacity = q.capacity := by
  rcases q.pick_spec target with ⟨-, eq⟩ | ⟨i, f, -, -, eq⟩ <;> rw [eq]
  · exact ⟨.refl _, rfl⟩
  · exact ⟨List.drop_sublist _ _, rfl⟩

theorem pickDescending_part (q : FrameQueue) (target : Int) :
    (q.pickDescending target).2.frames.Sublist q.frames ∧
      (q.pickDescending target).2.capacity = q.capacity := by
  rcases q.pickDescending_spec target with ⟨-, eq⟩ | ⟨i, f, -, -, eq⟩ <;> rw [eq]
  · exact ⟨.refl _, rfl⟩
  · exact ⟨List.take_sublist _ _, rfl⟩

/-- A frame of one pixel, which its shade tells from others of its time. -/
def still (shade : UInt8) (timestamp : Int) : Frame :=
  ⟨.filled 1 1 ⟨shade, shade, shade, 255⟩, timestamp⟩

end Montage.FrameQueue
