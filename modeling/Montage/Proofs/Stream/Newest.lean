import Mathlib.Data.List.DropRight
import Montage.Proofs.Sorting
import Montage.Proofs.Stream.Queue

/- What a queue of frames holds. Each push inserts its frame as a stable sort would, and what a full
   queue drops is the oldest of all frames so far, so that it holds the newest of them, whatever the
   order in which they came. Whatever is asked of a queue, it stays sorted and within its
   capacity. -/
namespace Montage.FrameQueue

def noLater (f g : Frame) : Bool := decide (f.timestamp ≤ g.timestamp)

/-- Frames by their times, those of one time in the order in which they came. -/
def inOrder (frames : List Frame) : List Frame := frames.mergeSort noLater

/-- A new queue after some pushes. -/
def filled (n : Nat) (pushed : List Frame) : FrameQueue := pushed.foldl push (withCapacity n)

section Sorting
variable {frames others : List Frame}

theorem noLater_trans (f g h : Frame) (first : noLater f g = true) (next : noLater g h = true) :
    noLater f h = true := by
  simp only [noLater, decide_eq_true_eq] at first next ⊢
  omega

theorem noLater_total (f g : Frame) : (noLater f g || noLater g f) = true := by
  simp only [noLater, Bool.or_eq_true, decide_eq_true_eq]
  omega

theorem level_iff (f g : Frame) : (noLater f g && noLater g f) = (g.timestamp == f.timestamp) := by
  rw [Bool.eq_iff_iff]
  simp only [noLater, Bool.and_eq_true, decide_eq_true_eq, beq_iff_eq]
  omega

@[simp] theorem inOrder_length (frames : List Frame) : (inOrder frames).length = frames.length :=
  List.length_mergeSort frames

theorem inOrder_ascending (frames : List Frame) : Ascending (inOrder frames) :=
  (List.pairwise_mergeSort noLater_trans noLater_total frames).imp fun h => by
    simpa [noLater] using h

theorem inOrder_level (frames : List Frame) (time : Int) :
    (inOrder frames).filter (·.timestamp == time) = frames.filter (·.timestamp == time) := by
  refine mergeSort_filter noLater_trans noLater_total frames fun f g hf hg => ?_
  simp only [beq_iff_eq] at hf hg
  simp [noLater, hf, hg]

theorem inOrder_unique (sorted : Ascending others)
    (level : ∀ time, others.filter (·.timestamp == time) = frames.filter (·.timestamp == time)) :
    others = inOrder frames := by
  refine mergeSort_unique noLater_trans noLater_total ?_ fun f => ?_
  · exact sorted.imp fun h => by simpa [noLater] using h
  · simp only [level_iff]
    exact level f.timestamp

/-- A frame is inserted behind those of its own time. -/
theorem insert_level (f : Frame) (sorted : Ascending frames) (time : Int) :
    (insert f frames).filter (·.timestamp == time) =
      (frames ++ [f]).filter (·.timestamp == time) := by
  induction frames with
  | nil => rfl
  | cons g frames ih =>
    obtain ⟨above, rest⟩ := List.pairwise_cons.mp sorted
    rw [insert_cons]
    split
    · rw [List.cons_append, List.filter_cons, List.filter_cons, ih rest]
    · rename_i younger
      by_cases own : f.timestamp = time
      · -- all frames of the queue are later than this one, so that none is of its time
        have none : (g :: frames).filter (·.timestamp == time) = [] := by
          rw [List.filter_eq_nil_iff]
          intro h member
          have later : g.timestamp ≤ h.timestamp := by
            rcases List.mem_cons.mp member with rfl | member
            · exact Int.le_refl _
            · exact above h member
          simp only [beq_iff_eq]
          omega
        rw [List.filter_append, none, List.filter_cons_of_pos (by simpa using own), none]
        simp [own]
      · rw [List.filter_append, List.filter_cons_of_neg (by simpa using own)]
        simp [own]

theorem inOrder_concat (frames : List Frame) (f : Frame) :
    inOrder (frames ++ [f]) = insert f (inOrder frames) := by
  have sorted := inOrder_ascending frames
  refine (inOrder_unique (insert_ascending f sorted) fun time => ?_).symm
  rw [insert_level f sorted, List.filter_append, List.filter_append, inOrder_level]

/-- The oldest frames may be dropped before a frame is inserted or after it, with one more of
them. -/
theorem insert_drop (f : Frame) (sorted : Ascending frames) (k : Nat) :
    (insert f (frames.drop k)).drop 1 = (insert f frames).drop (k + 1) := by
  induction frames generalizing k with
  | nil => simp [insert_eq]
  | cons g frames ih =>
    obtain ⟨above, rest⟩ := List.pairwise_cons.mp sorted
    cases k with
    | zero => rfl
    | succ k =>
      rw [List.drop_succ_cons, ih rest, insert_cons]
      split
      · rfl
      · -- the frame goes in front of all of the others, and is dropped with the oldest
        have first : insert f frames = f :: frames := by
          cases frames with
          | nil => rfl
          | cons h frames =>
            have later := above h List.mem_cons_self
            rw [insert_cons, if_neg (by omega)]
        rw [first]
        rfl

end Sorting

section Pushes
variable {n : Nat} {pushed others : List Frame}

theorem filled_concat (n : Nat) (pushed : List Frame) (f : Frame) :
    filled n (pushed ++ [f]) = (filled n pushed).push f :=
  List.foldl_concat push (withCapacity n) f pushed

theorem filled_capacity (n : Nat) (pushed : List Frame) : (filled n pushed).capacity = max n 2 := by
  induction pushed using List.reverseRecOn with
  | nil => rfl
  | append_singleton pushed f ih => rw [filled_concat, push_capacity, ih]

/-- What has been dropped are the oldest frames of all. -/
theorem filled_drop (n : Nat) (pushed : List Frame) :
    (filled n pushed).frames = (inOrder pushed).drop (pushed.length - max n 2) := by
  induction pushed using List.reverseRecOn with
  | nil => simp [filled, withCapacity, inOrder]
  | append_singleton pushed f ih =>
    have sorted := inOrder_ascending pushed
    have size : (filled n pushed).frames.length = pushed.length - (pushed.length - max n 2) := by
      rw [ih, List.length_drop, inOrder_length]
    rw [filled_concat, push, inOrder_concat]
    simp only [insert_length, size, filled_capacity, List.length_append, List.length_singleton]
    by_cases room : pushed.length < max n 2
    · rw [ih, Nat.sub_eq_zero_of_le room.le, Nat.sub_eq_zero_of_le room, Nat.sub_zero,
        Nat.sub_eq_zero_of_le room]
      rfl
    · have one : pushed.length - (pushed.length - max n 2) + 1 - max n 2 = 1 := by omega
      rw [ih, one, insert_drop f sorted]
      congr 1
      omega

/-- A queue holds the newest of the frames that were pushed, as many as there is room for. -/
theorem filled_frames (n : Nat) (pushed : List Frame) :
    (filled n pushed).frames = (inOrder pushed).rtake (min pushed.length (max n 2)) := by
  rw [filled_drop, List.rtake, inOrder_length]
  congr 1
  omega

theorem inOrder_congr
    (level : ∀ time, pushed.filter (·.timestamp == time) = others.filter (·.timestamp == time)) :
    inOrder pushed = inOrder others :=
  inOrder_unique (inOrder_ascending pushed) fun time => (inOrder_level pushed time).trans (level time)

theorem inOrder_times (order : pushed.Perm others) :
    (inOrder pushed).map (·.timestamp) = (inOrder others).map (·.timestamp) := by
  have ascending : ∀ frames, ((inOrder frames).map (·.timestamp)).Pairwise (· ≤ ·) := fun frames =>
    List.pairwise_map.mpr (inOrder_ascending frames)
  have same : (inOrder pushed).Perm (inOrder others) :=
    (List.mergeSort_perm pushed noLater).trans
      (order.trans (List.mergeSort_perm others noLater).symm)
  exact (same.map _).eq_of_pairwise (fun _ _ _ _ => Int.le_antisymm) (ascending pushed)
    (ascending others)

end Pushes

/-- What can be asked of a queue. -/
inductive Call where
  | push (f : Frame)
  | pick (target : Int)
  | pickDescending (target : Int)
  | clear

def perform (q : FrameQueue) : Call → FrameQueue
  | .push f => q.push f
  | .pick target => (q.pick target).2
  | .pickDescending target => (q.pickDescending target).2
  | .clear => q.clear

/-- Sorted, and no longer than the capacity it was made with. -/
structure Orderly (n : Nat) (q : FrameQueue) : Prop where
  ascending : Ascending q.frames
  capacity : q.capacity = max n 2
  fits : q.size ≤ max n 2

section Runs
variable {n : Nat} {q : FrameQueue}

theorem withCapacity_orderly (n : Nat) : Orderly n (withCapacity n) where
  ascending := List.Pairwise.nil
  capacity := rfl
  fits := Nat.zero_le _

theorem Orderly.part {r : FrameQueue} (h : Orderly n q)
    (part : r.frames.Sublist q.frames ∧ r.capacity = q.capacity) : Orderly n r where
  ascending := h.ascending.sublist part.1
  capacity := part.2.trans h.capacity
  fits := part.1.length_le.trans h.fits

theorem perform_orderly (call : Call) (h : Orderly n q) : Orderly n (q.perform call) := by
  cases call with
  | push f =>
    refine ⟨q.push_ascending f h.ascending, h.capacity, ?_⟩
    change (q.push f).size ≤ max n 2
    rw [push_size, h.capacity]
    exact Nat.min_le_right _ _
  | pick target => exact h.part (q.pick_part target)
  | pickDescending target => exact h.part (q.pickDescending_part target)
  | clear => exact h.part ⟨List.nil_sublist _, rfl⟩

theorem run_orderly (calls : List Call) (h : Orderly n q) : Orderly n (calls.foldl perform q) := by
  induction calls generalizing q with
  | nil => exact h
  | cons call calls ih => exact ih (perform_orderly call h)

end Runs

/-- However many frames are pushed and in whatever order, a queue holds the newest of them, as many
as it has room for, and which ones these are depends on the order only among frames of one time.
Whatever else is asked of it, it stays sorted and within its capacity. -/
theorem full_queue_keeps_newest (n : Nat) :
    (∀ pushed, (filled n pushed).frames = (inOrder pushed).rtake (min pushed.length (max n 2))) ∧
    (∀ pushed others, (∀ time, pushed.filter (·.timestamp == time) =
        others.filter (·.timestamp == time)) → filled n pushed = filled n others) ∧
    (∀ pushed others : List Frame, pushed.Perm others →
      (filled n pushed).frames.map (·.timestamp) = (filled n others).frames.map (·.timestamp)) ∧
    (∀ calls : List Call, Orderly n (calls.foldl perform (withCapacity n))) := by
  refine ⟨filled_frames n, ?_, ?_, fun calls => run_orderly calls (withCapacity_orderly n)⟩
  · intro pushed others level
    have size : pushed.length = others.length := by
      rw [← inOrder_length pushed, inOrder_congr level, inOrder_length]
    have frames : (filled n pushed).frames = (filled n others).frames := by
      rw [filled_drop, filled_drop, inOrder_congr level, size]
    have capacity := (filled_capacity n pushed).trans (filled_capacity n others).symm
    cases one : filled n pushed
    cases two : filled n others
    simp_all
  · intro pushed others order
    rw [filled_drop, filled_drop, List.map_drop, List.map_drop, inOrder_times order,
      order.length_eq]

/-- Four frames for a queue of two, the oldest one first or last: it keeps the two of the latest
time, in the order in which they came. -/
theorem full_queue_keeps_newest_reordered :
    let oldestFirst := [still 1 0, still 2 40, still 3 10, still 4 40]
    let oldestLast := [still 2 40, still 4 40, still 3 10, still 1 0]
    (∀ time, oldestFirst.filter (·.timestamp == time) = oldestLast.filter (·.timestamp == time)) ∧
      filled 2 oldestFirst = filled 2 oldestLast ∧
      (filled 2 oldestLast).frames = [still 2 40, still 4 40] := by
  intro oldestFirst oldestLast
  have level : ∀ time, oldestFirst.filter (·.timestamp == time) =
      oldestLast.filter (·.timestamp == time) := by
    intro time
    by_cases at_0 : 0 = time
    · subst at_0
      rfl
    · by_cases at_10 : 10 = time
      · subst at_10
        rfl
      · simp [oldestFirst, oldestLast, still, List.filter_cons, at_0, at_10]
  exact ⟨level, (full_queue_keeps_newest 2).2.1 oldestFirst oldestLast level, rfl⟩

end Montage.FrameQueue
