import Montage.Proofs.Timeline.Pointwise

/- Spans come one after the other, whatever the grid. No pass lets a span reach beyond the end of
   the spans it was made from, so that those behind it begin where it has ended, or later. -/
namespace Montage

/-- Spans that take time, each after those before it, and none after this end. -/
structure Successive (spans : List (Span Rat)) (stop : Rat) : Prop where
  lasting : ∀ s ∈ spans, s.start < s.stop
  within : ∀ s ∈ spans, s.stop ≤ stop
  apart : spans.Pairwise fun s r => s.stop ≤ r.start

section Spans
variable {spans : List (Span Rat)} {s : Span Rat} {m stop : Rat}

theorem successive_nil : Successive [] stop := ⟨by simp, by simp, .nil⟩

theorem successive_snoc :
    Successive (spans ++ [s]) stop ↔ Successive spans s.start ∧ s.start < s.stop ∧ s.stop ≤ stop := by
  constructor
  · rintro ⟨lasting, within, apart⟩
    obtain ⟨first, -, before⟩ := List.pairwise_append.mp apart
    refine ⟨⟨fun r member => lasting r (List.mem_append_left _ member), ?_, first⟩,
      lasting s (by simp), within s (by simp)⟩
    exact fun r member => before r member s (List.mem_singleton_self s)
  · rintro ⟨⟨lasting, within, apart⟩, valid, high⟩
    refine ⟨?_, ?_, List.pairwise_append.mpr ⟨apart, List.pairwise_singleton _ _, ?_⟩⟩
    · intro r member
      rcases List.mem_append.mp member with member | member
      · exact lasting r member
      · rw [List.mem_singleton.mp member]
        exact valid
    · intro r member
      rcases List.mem_append.mp member with member | member
      · exact (within r member).trans (valid.le.trans high)
      · rw [List.mem_singleton.mp member]
        exact high
    · intro r member q last
      rw [List.mem_singleton.mp last]
      exact within r member

theorem successive_lasting (h : Successive (spans ++ [s]) m) (later : m ≤ stop) :
    Successive (spans ++ [s.lasting stop]) stop := by
  obtain ⟨first, valid, high⟩ := successive_snoc.mp h
  exact successive_snoc.mpr ⟨first, valid.trans_le (high.trans later), le_rfl⟩

theorem successive_later (h : Successive spans m) (later : m ≤ stop) : Successive spans stop :=
  ⟨h.lasting, fun s member => (h.within s member).trans later, h.apart⟩

theorem extend_successive (h : Successive spans m) (later : m ≤ s.start) (valid : s.start < s.stop) :
    Successive (extend spans s) s.stop := by
  have added : Successive (spans ++ [s]) s.stop :=
    successive_snoc.mpr ⟨successive_later h later, valid, le_rfl⟩
  rcases List.eq_nil_or_concat' spans with rfl | ⟨before, last, rfl⟩
  · exact added
  · rw [extend_snoc]
    split
    · exact successive_lasting h (later.trans valid.le)
    · exact added

theorem pass_successive {given : Nat → Span Rat → Bool} {i : Nat} (h : Successive spans m)
    (later : m ≤ s.start) (valid : s.start < s.stop) :
    Successive (pass given spans s i) s.stop := by
  unfold pass
  split
  · rcases List.eq_nil_or_concat' spans with rfl | ⟨before, last, rfl⟩
    · exact extend_successive h later valid
    · simp only [List.getLast?_concat, List.dropLast_concat]
      exact successive_lasting h (later.trans valid.le)
  · exact extend_successive h later valid

section Pass
variable {α : Type} {own : α → Span Rat} {step : List (Span Rat) → α → List (Span Rat)} {xs : List α}

/-- A pass each step of which ends where its own span ends, behind spans that are in order. -/
theorem foldl_successive
    (steps : ∀ spans m x, Successive spans m → m ≤ (own x).start → (own x).start < (own x).stop →
      Successive (step spans x) (own x).stop)
    (h : Successive spans m) (lasting : ∀ x ∈ xs, (own x).start < (own x).stop)
    (later : ∀ x ∈ xs, m ≤ (own x).start)
    (apart : xs.Pairwise fun x y => (own x).stop ≤ (own y).start) :
    ∃ stop, Successive (xs.foldl step spans) stop := by
  induction xs generalizing spans m with
  | nil => exact ⟨m, h⟩
  | cons x xs ih =>
    obtain ⟨next, rest⟩ := List.pairwise_cons.mp apart
    have first := steps spans m x h (later x List.mem_cons_self) (lasting x List.mem_cons_self)
    exact ih first (fun y member => lasting y (List.mem_cons_of_mem x member)) next rest

theorem passed_successive (own : α → Span Rat)
    (steps : ∀ spans m x, Successive spans m → m ≤ (own x).start → (own x).start < (own x).stop →
      Successive (step spans x) (own x).stop)
    (lasting : ∀ x ∈ xs, (own x).start < (own x).stop)
    (apart : xs.Pairwise fun x y => (own x).stop ≤ (own y).start) :
    ∃ stop, Successive (xs.foldl step []) stop := by
  cases xs with
  | nil => exact ⟨0, successive_nil⟩
  | cons x xs =>
    refine foldl_successive steps (m := (own x).start) successive_nil lasting ?_ apart
    intro y member
    rcases List.mem_cons.mp member with rfl | member
    · exact le_rfl
    · exact (lasting x List.mem_cons_self).le.trans ((List.pairwise_cons.mp apart).1 y member)

end Pass

theorem foldTail_successive (step : Rat) (h : Successive spans stop) :
    Successive (foldTail step spans) stop := by
  rcases List.eq_nil_or_concat' spans with rfl | ⟨front, tail, rfl⟩
  · exact h
  rcases List.eq_nil_or_concat' front with rfl | ⟨front, before, rfl⟩
  · exact h
  rw [foldTail_concat]
  split
  · obtain ⟨inner, valid, high⟩ := successive_snoc.mp h
    exact successive_later (successive_lasting inner valid.le) high
  · exact h

end Spans

theorem thinned_go_sublist (kept : Rat) (es : List Rat) : (thinned.go kept es).Sublist es := by
  induction es generalizing kept with
  | nil => exact List.Sublist.refl _
  | cons e es ih =>
    rw [thinned.go]
    split
    · exact (ih kept).cons e
    · exact (ih e).cons_cons e

theorem edges_ordered (cs : List (Contender Rat)) (total : Rat) :
    (edges cs total).Pairwise (· ≤ ·) := by
  have sorted := boundaries_sorted (0 :: total :: cs.flatMap fun c => [c.low, c.high])
  unfold edges
  generalize (0 :: total :: cs.flatMap fun c => [c.low, c.high] : List Rat).mergeSort
    Scalar.totalLe = es at sorted
  cases es with
  | nil => exact .nil
  | cons e es => exact sorted.sublist ((thinned_go_sublist e es).cons_cons e)

theorem intervals_apart {es : List Rat} (sorted : es.Pairwise (· ≤ ·)) :
    (∀ e ∈ intervals es, e.1 < e.2) ∧ (intervals es).Pairwise fun e f => e.2 ≤ f.1 := by
  have small := closeness_pos
  induction es with
  | nil => exact ⟨by simp [intervals], .nil⟩
  | cons a es ih =>
    obtain ⟨-, rest⟩ := List.pairwise_cons.mp sorted
    obtain ⟨lasting, apart⟩ := ih rest
    cases es with
    | nil => exact ⟨by simp [intervals], .nil⟩
    | cons b es =>
      rw [intervals]
      split
      · exact ⟨lasting, apart⟩
      · rename_i far
        have less : a < b := by linarith
        refine ⟨List.forall_mem_cons.mpr ⟨less, lasting⟩, List.pairwise_cons.mpr ⟨?_, apart⟩⟩
        intro f member
        rcases List.mem_cons.mp (intervals_ends (b :: es) f member).1 with same | later
        · exact same.ge
        · exact (List.pairwise_cons.mp rest).1 f.1 later

theorem sweep_successive (cs : List (Contender Rat)) (total : Rat) :
    ∃ stop, Successive (sweep cs total) stop := by
  obtain ⟨lasting, apart⟩ := intervals_apart (edges_ordered cs total)
  rw [sweep_eq]
  refine passed_successive id (fun _ _ _ => extend_successive) ?_ ?_
  · intro s member
    obtain ⟨e, listed, rfl⟩ := List.mem_map.mp member
    exact lasting e listed
  · exact List.pairwise_map.mpr apart

theorem absorb_successive (cs : List (Candidate Rat)) (step : Rat) {spans : List (Span Rat)}
    {stop : Rat} (h : Successive spans stop) :
    ∃ stop, Successive (absorbShortGaps cs step spans) stop := by
  rw [absorb_eq]
  refine passed_successive Prod.fst (fun _ _ _ => pass_successive) ?_ ?_
  · intro x member
    exact h.lasting x.1 (List.mem_of_getElem? (List.mem_zipIdx_iff_getElem?.mp member))
  · have places : (spans.zipIdx 0).map Prod.fst = spans := List.zipIdx_map_fst 0 spans
    have apart := h.apart
    rw [← places] at apart
    exact List.pairwise_map.mp apart

/-- The finished spans take time and come one after the other, on every grid. -/
theorem flatten_successive (cs : List (Candidate Rat)) (total step : Rat) :
    ∃ stop, Successive (flatten cs total step) stop := by
  unfold flatten
  split
  · exact ⟨0, successive_nil⟩
  · obtain ⟨first, swept⟩ := sweep_successive (contenders cs total step) total
    obtain ⟨stop, absorbed⟩ := absorb_successive cs step swept
    exact ⟨stop, foldTail_successive step absorbed⟩

end Montage
