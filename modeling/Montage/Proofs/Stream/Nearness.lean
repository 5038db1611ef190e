import Mathlib
import Montage.Proofs.Number.Word
import Montage.Proofs.Stream.Queue

/- A queue that drops frames with each pick answers as one that keeps all of them, as long as its
   targets move one way: what is dropped lies behind the picked frame, and is no nearer than that
   one to any target still to come. -/
namespace Montage.FrameQueue

section Least
variable {α β : Type} [LinearOrder β] {key : α → β} {xs ys : List α} {a : α}

/-- Entries that are larger than one behind them make no difference. -/
theorem argmin_after (member : a ∈ ys) (larger : ∀ x ∈ xs, key a < key x) :
    (xs ++ ys).argmin key = ys.argmin key := by
  induction xs with
  | nil => rfl
  | cons x xs ih =>
    obtain ⟨first, rest⟩ := List.forall_mem_cons.mp larger
    rw [List.cons_append, List.argmin_cons, ih rest]
    cases found : ys.argmin key with
    | none =>
      rw [List.argmin_eq_none.mp found] at member
      cases member
    | some m =>
      have least := List.le_of_mem_argmin member found
      exact if_pos (least.trans_lt first)

/-- Entries that are not smaller than one before them make no difference. -/
theorem argmin_before (member : a ∈ xs) (larger : ∀ y ∈ ys, key a ≤ key y) :
    (xs ++ ys).argmin key = xs.argmin key := by
  induction ys using List.reverseRecOn with
  | nil => rw [List.append_nil]
  | append_singleton ys y ih =>
    obtain ⟨rest, last⟩ := List.forall_mem_append.mp larger
    rw [← List.append_assoc, List.argmin_concat, ih rest]
    cases found : xs.argmin key with
    | none =>
      rw [List.argmin_eq_none.mp found] at member
      cases member
    | some m =>
      have least := List.le_of_mem_argmin member found
      exact if_neg (not_lt.mpr (least.trans (last y (List.mem_singleton_self y))))

/-- An entry may stand first or last where no other is as large as it. -/
theorem argmin_cons_concat (different : ∀ x ∈ xs, key x ≠ key a) :
    (a :: xs).argmin key = (xs ++ [a]).argmin key := by
  rw [List.argmin_cons, List.argmin_concat]
  cases found : xs.argmin key with
  | none => rfl
  | some m =>
    rcases lt_or_gt_of_ne (different m (List.argmin_mem found)) with less | more
    · dsimp only
      rw [if_pos less, if_neg less.not_gt]
    · dsimp only
      rw [if_neg more.not_gt, if_pos more]

theorem argmin_concat_congr (same : xs.argmin key = ys.argmin key) (a : α) :
    (xs ++ [a]).argmin key = (ys ++ [a]).argmin key := by
  rw [List.argmin_concat, List.argmin_concat, same]

theorem argmin_cons_congr (same : xs.argmin key = ys.argmin key) (a : α) :
    (a :: xs).argmin key = (a :: ys).argmin key := by
  rw [List.argmin_cons, List.argmin_cons, same]

end Least

/-- The smaller it is, the nearer is a frame to the target; of two at one distance the earlier
frame counts as nearer. -/
def nearness (target : Int) (f : Frame) : Nat ×ₗ Int :=
  toLex ((f.timestamp - target).natAbs, f.timestamp)

section Nearness
variable {target time : Int} {f g : Frame}

theorem nearness_le_iff : nearness target f ≤ nearness target g ↔
    (f.timestamp - target).natAbs < (g.timestamp - target).natAbs ∨
      (f.timestamp - target).natAbs = (g.timestamp - target).natAbs ∧ f.timestamp ≤ g.timestamp :=
  Prod.Lex.toLex_le_toLex

theorem nearness_lt_iff : nearness target f < nearness target g ↔
    (f.timestamp - target).natAbs < (g.timestamp - target).natAbs ∨
      (f.timestamp - target).natAbs = (g.timestamp - target).natAbs ∧ f.timestamp < g.timestamp :=
  Prod.Lex.toLex_lt_toLex

theorem nearness_injective (same : nearness target f = nearness target g) :
    f.timestamp = g.timestamp :=
  congrArg (fun x => (ofLex x).2) same

/-- A frame farther than one behind it is farther from every later target. -/
theorem farther_later (order : g.timestamp ≤ f.timestamp)
    (farther : nearness target f < nearness target g) (later : target ≤ time) :
    nearness time f < nearness time g := by
  rw [nearness_lt_iff] at farther ⊢
  omega

/-- A frame no nearer than one before it is no nearer to any earlier target. -/
theorem farther_earlier (order : f.timestamp ≤ g.timestamp)
    (farther : nearness target f ≤ nearness target g) (earlier : time ≤ target) :
    nearness time f ≤ nearness time g := by
  rw [nearness_le_iff] at farther ⊢
  omega

/-- A push adds one frame to choose from, the last of its equals. -/
theorem insert_argmin (target : Int) (f : Frame) {frames : List Frame} (sorted : Ascending frames) :
    (insert f frames).argmin (nearness target) = (frames ++ [f]).argmin (nearness target) := by
  induction frames with
  | nil => rfl
  | cons g frames ih =>
    obtain ⟨above, rest⟩ := List.pairwise_cons.mp sorted
    rw [insert_cons]
    split
    · exact argmin_cons_congr (ih rest) g
    · rename_i younger
      -- all frames of the queue are later, so that none of them is as near as this one
      refine argmin_cons_concat fun h member same => ?_
      have time := nearness_injective same
      rcases List.mem_cons.mp member with rfl | member
      · omega
      · have := above h member
        omega

end Nearness

/-- A pick as the targets go: forwards it drops what is older than the frame it gives, backwards
what is newer. -/
def answer (q : FrameQueue) (reverse : Bool) (target : Int) : Option Frame × FrameQueue :=
  if reverse then q.pickDescending target else q.pick target

/-- The same, where no distance overflows. -/
def answer? (q : FrameQueue) (reverse : Bool) (target : Int) : Option (Option Frame × FrameQueue) :=
  if reverse then q.pickDescending? target else q.pick? target

theorem answer?_eq_some {q : FrameQueue} {target : Int} (reverse : Bool)
    (near : ∀ f ∈ q.frames, Comparable f.timestamp target) :
    q.answer? reverse target = some (q.answer reverse target) := by
  have reached : q.reaches target = true :=
    List.all_eq_true.mpr fun f member => decide_eq_true (near f member).distance
  cases reverse <;> simp [answer?, answer, pick?, pickDescending?, reached]

section Answers
variable {q : FrameQueue} {reverse : Bool} {target time : Int}

/-- A pick finds nothing, or divides the queue at a frame than which those before it are farther
and those behind it are no nearer. -/
theorem answer_cases (reverse : Bool) (target : Int) (sorted : Ascending q.frames) :
    q.frames = [] ∧ q.answer reverse target = (none, q) ∨
      ∃ before f after, q.frames = before ++ f :: after ∧
        q.answer reverse target =
          (some f, { q with frames := if reverse then before ++ [f] else f :: after }) ∧
        (∀ g ∈ before, nearness target f < nearness target g) ∧
        ∀ g ∈ after, nearness target f ≤ nearness target g := by
  cases found : q.nearest target with
  | none =>
    left
    refine ⟨(nearest_none_iff q target).mp found, ?_⟩
    cases reverse <;> simp [answer, pick, pickDescending, found]
  | some i =>
    obtain ⟨f, stands, least, first⟩ := nearest_spec found
    obtain ⟨inside, here⟩ := List.getElem?_eq_some_iff.mp stands
    have kept : q.frames.drop i = f :: q.frames.drop (i + 1) := by
      rw [List.drop_eq_getElem_cons inside, here]
    have passed : q.frames.take (i + 1) = q.frames.take i ++ [f] := by
      rw [List.take_succ_eq_append_getElem inside, here]
    have whole : q.frames = q.frames.take i ++ f :: q.frames.drop (i + 1) := by
      rw [← kept, List.take_append_drop]
    have ordered : Ascending (q.frames.take i ++ f :: q.frames.drop (i + 1)) := whole ▸ sorted
    obtain ⟨-, behind, -⟩ := List.pairwise_append.mp ordered
    refine .inr ⟨q.frames.take i, f, q.frames.drop (i + 1), whole, ?_, ?_, ?_⟩
    · cases reverse with
      | false => simp [answer, pick, found, kept]
      | true => simp [answer, pickDescending, found, passed]
    · intro g listed
      obtain ⟨j, early, at_j⟩ := List.mem_take_iff_getElem.mp listed
      have nearer := first j g (by omega) (at_j ▸ List.getElem?_eq_getElem _)
      exact nearness_lt_iff.mpr (.inl nearer)
    · intro g listed
      have nearer := least g (List.mem_of_mem_drop listed)
      have later := (List.pairwise_cons.mp behind).1 g listed
      rw [nearness_le_iff]
      omega

theorem answer_argmin (sorted : Ascending q.frames) :
    (q.answer reverse target).1 = q.frames.argmin (nearness target) := by
  rcases answer_cases reverse target sorted with
    ⟨empty, eq⟩ | ⟨before, f, after, whole, eq, farther, noNearer⟩
  · rw [eq, empty]
    rfl
  · rw [eq, whole, argmin_after List.mem_cons_self farther]
    exact (argmin_before (List.mem_singleton_self f) noNearer).symm

/-- Targets that move one way: backwards where the direction is reversed, else forwards. -/
def Onward (reverse : Bool) (target time : Int) : Prop :=
  if reverse then time ≤ target else target ≤ time

/-- What a pick drops is never missed: to all targets that come after it the queue offers the same
nearest frame as before. -/
theorem answer_keeps (sorted : Ascending q.frames) (onward : Onward reverse target time) :
    (q.answer reverse target).2.frames.argmin (nearness time) =
      q.frames.argmin (nearness time) := by
  rcases answer_cases reverse target sorted with
    ⟨empty, eq⟩ | ⟨before, f, after, whole, eq, farther, noNearer⟩
  · rw [eq]
  · rw [eq, whole]
    rw [whole] at sorted
    obtain ⟨-, behind, across⟩ := List.pairwise_append.mp sorted
    cases reverse with
    | false =>
      refine (argmin_after List.mem_cons_self ?_).symm
      intro g member
      exact farther_later (across g member f List.mem_cons_self) (farther g member) onward
    | true =>
      have split : before ++ f :: after = (before ++ [f]) ++ after := by simp
      rw [split]
      refine (argmin_before (List.mem_append_right before (List.mem_singleton_self f)) ?_).symm
      intro g member
      exact farther_earlier ((List.pairwise_cons.mp behind).1 g member) (noNearer g member) onward

theorem answer_sublist (sorted : Ascending q.frames) :
    (q.answer reverse target).2.frames.Sublist q.frames := by
  rcases answer_cases reverse target sorted with
    ⟨-, eq⟩ | ⟨before, f, after, whole, eq, -, -⟩
  · rw [eq]
  · rw [eq, whole]
    cases reverse with
    | false => exact List.sublist_append_right before _
    | true => exact (List.Sublist.refl before).append (by simp)

end Answers

/-- A new queue after pushes and picks: the frames that were pushed, in the order of the pushes,
and the target of the last pick. No push finds the queue full, the targets move one way, and each
of them is comparable to the times of all frames pushed before. -/
inductive Serves (reverse : Bool) : List Frame → Option Int → FrameQueue → Prop where
  | new (n : Nat) : Serves reverse [] none (withCapacity n)
  | push {pushed : List Frame} {last : Option Int} {q : FrameQueue}
      (before : Serves reverse pushed last q) (f : Frame) (room : q.size < q.capacity) :
      Serves reverse (pushed ++ [f]) last (q.push f)
  | pick {pushed : List Frame} {last : Option Int} {q : FrameQueue}
      (before : Serves reverse pushed last q) (target : Int)
      (onward : ∀ earlier ∈ last, Onward reverse earlier target)
      (near : ∀ f ∈ pushed, Comparable f.timestamp target) :
      Serves reverse pushed (some target) (q.answer reverse target).2

/-- For targets to come a queue offers the same nearest frame as all that were pushed. -/
structure Recalls (reverse : Bool) (pushed : List Frame) (last : Option Int) (q : FrameQueue) :
    Prop where
  ascending : Ascending q.frames
  among : ∀ f ∈ q.frames, f ∈ pushed
  agrees : ∀ time, (∀ earlier ∈ last, Onward reverse earlier time) →
    q.frames.argmin (nearness time) = pushed.argmin (nearness time)

section Runs
variable {q : FrameQueue} {reverse : Bool} {pushed : List Frame} {last : Option Int} {target : Int}

theorem Onward.trans {a b c : Int} (first : Onward reverse a b) (next : Onward reverse b c) :
    Onward reverse a c := by
  unfold Onward at first next ⊢
  cases reverse with
  | false => exact le_trans first next
  | true => exact le_trans next first

theorem Recalls.push (h : Recalls reverse pushed last q) (f : Frame) (room : q.size < q.capacity) :
    Recalls reverse (pushed ++ [f]) last (q.push f) := by
  have frames := push_frames f room
  refine ⟨?_, ?_, ?_⟩
  · rw [frames]
    exact insert_ascending f h.ascending
  · intro g member
    rw [frames] at member
    rcases List.mem_cons.mp ((insert_perm f q.frames).mem_iff.mp member) with rfl | old
    · exact List.mem_append_right pushed (List.mem_singleton_self g)
    · exact List.mem_append_left _ (h.among g old)
  · intro time onward
    rw [frames, insert_argmin time f h.ascending]
    exact argmin_concat_congr (h.agrees time onward) f

theorem Recalls.pick (h : Recalls reverse pushed last q)
    (onward : ∀ earlier ∈ last, Onward reverse earlier target) :
    Recalls reverse pushed (some target) (q.answer reverse target).2 := by
  have kept : (q.answer reverse target).2.frames.Sublist q.frames := answer_sublist h.ascending
  refine ⟨h.ascending.sublist kept, fun f member => h.among f (kept.subset member), ?_⟩
  intro time further
  have next : Onward reverse target time := further target rfl
  rw [answer_keeps h.ascending next]
  exact h.agrees time fun earlier member => (onward earlier member).trans next

theorem Serves.recalls (serves : Serves reverse pushed last q) : Recalls reverse pushed last q := by
  induction serves with
  | new n => exact ⟨List.Pairwise.nil, fun f member => member, fun _ _ => rfl⟩
  | push _ f room ih => exact ih.push f room
  | pick _ target onward _ ih => exact ih.pick onward

/-- Whatever earlier picks dropped, a pick does not overflow and gives the nearest of all frames ever
pushed: of several at one distance the earliest, and of several at one time the first that was
pushed. -/
theorem answer_nearest_pushed (serves : Serves reverse pushed last q)
    (onward : ∀ earlier ∈ last, Onward reverse earlier target)
    (near : ∀ f ∈ pushed, Comparable f.timestamp target) :
    q.answer? reverse target = some (q.answer reverse target) ∧
      (q.answer reverse target).1 = pushed.argmin (nearness target) := by
  have recalls := serves.recalls
  refine ⟨answer?_eq_some reverse fun f member => near f (recalls.among f member), ?_⟩
  rw [answer_argmin recalls.ascending]
  exact recalls.agrees target onward

end Runs

/-- The frame at 0 was dropped when two more come, one older than the frame picked before and at
the same distance, and one of the same time as that. -/
theorem answer_nearest_pushed_late :
    ∃ q, Serves false [still 1 0, still 2 40, still 3 10, still 4 40] (some 25) q ∧
      q.size = 3 ∧ (q.answer false 25).1 = some (still 3 10) ∧
      (q.answer false 26).1 = some (still 2 40) := by
  have near : ∀ f ∈ [still 1 0, still 2 40, still 3 10, still 4 40], ∀ target ∈ [(25 : Int), 26],
      Comparable f.timestamp target := by
    intro f member target listed
    simp only [List.mem_cons, List.not_mem_nil, or_false] at member listed
    rcases member with rfl | rfl | rfl | rfl <;> rcases listed with rfl | rfl <;>
      exact ⟨⟨by decide, by decide⟩, ⟨by decide, by decide⟩⟩
  have early : Serves false [still 1 0, still 2 40] none
      (((withCapacity 4).push (still 1 0)).push (still 2 40)) :=
    ((Serves.new 4).push _ (by decide)).push _ (by decide)
  have picked := early.pick 25 (fun _ none => nomatch none)
    fun f member => near f (List.mem_append_left [still 3 10, still 4 40] member) 25 (by decide)
  have late := (picked.push (still 3 10) (by decide)).push (still 4 40) (by decide)
  refine ⟨_, late, by decide, ?_, ?_⟩
  · exact (answer_nearest_pushed late (fun _ same => Option.some.inj same ▸ le_refl 25)
      fun f member => near f member 25 (by decide)).2
  · exact (answer_nearest_pushed late
      (fun _ same => Option.some.inj same ▸ (by decide : (25 : Int) ≤ 26))
      fun f member => near f member 26 (by decide)).2

end Montage.FrameQueue
