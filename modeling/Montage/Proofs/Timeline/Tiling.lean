import Mathlib.Algebra.Order.Field.Rat
import Mathlib.Data.List.Chain
import Mathlib.Tactic.Linarith
import Montage.Timeline.Span

/- Spans that follow one another without a gap, and what plays at a time. Joining a span to the
   last one changes nothing before it. -/
namespace Montage

namespace Span

def Holds (s : Span Rat) (t : Rat) : Prop := s.start ≤ t ∧ t < s.stop

instance (s : Span Rat) (t : Rat) : Decidable (s.Holds t) :=
  inferInstanceAs (Decidable (s.start ≤ t ∧ t < s.stop))

/-- The same span with another end. -/
def lasting (s : Span Rat) (stop : Rat) : Span Rat := { s with stop }

end Span

inductive Tiles : Rat → List (Span Rat) → Rat → Prop where
  | nil (a : Rat) : Tiles a [] a
  | cons {a b : Rat} {s : Span Rat} {rest : List (Span Rat)} (starts : s.start = a)
      (valid : s.start < s.stop) (tail : Tiles s.stop rest b) : Tiles a (s :: rest) b

/-- At this time a span with this winner plays. -/
def Plays (spans : List (Span Rat)) (t : Rat) (winner : Option Nat) : Prop :=
  ∃ s ∈ spans, s.Holds t ∧ s.winner = winner

variable {spans rest : List (Span Rat)} {a b m t : Rat} {s r : Span Rat} {w : Option Nat}

theorem tiles_le (h : Tiles a spans b) : a ≤ b := by
  induction h with
  | nil => exact le_refl _
  | cons starts valid tail ih => linarith

theorem tiles_append : Tiles a (spans ++ rest) b ↔ ∃ m, Tiles a spans m ∧ Tiles m rest b := by
  induction spans generalizing a with
  | nil =>
    constructor
    · intro h
      exact ⟨a, .nil a, h⟩
    · rintro ⟨m, first, h⟩
      cases first
      exact h
  | cons s spans ih =>
    constructor
    · intro h
      cases h with
      | cons starts valid tail =>
        obtain ⟨m, first, last⟩ := ih.mp tail
        exact ⟨m, .cons starts valid first, last⟩
    · rintro ⟨m, first, last⟩
      cases first with
      | cons starts valid tail => exact .cons starts valid (ih.mpr ⟨m, tail, last⟩)

theorem tiles_snoc :
    Tiles a (spans ++ [s]) b ↔ Tiles a spans s.start ∧ s.start < s.stop ∧ s.stop = b := by
  rw [tiles_append]
  constructor
  · rintro ⟨m, first, last⟩
    cases last with
    | cons starts valid tail =>
      cases tail
      exact ⟨starts ▸ first, valid, rfl⟩
  · rintro ⟨first, valid, rfl⟩
    exact ⟨s.start, first, .cons rfl valid (.nil _)⟩

theorem tiles_member (h : Tiles a spans b) (member : s ∈ spans) :
    a ≤ s.start ∧ s.start < s.stop ∧ s.stop ≤ b := by
  induction h with
  | nil => simp at member
  | cons starts valid tail ih =>
    rcases List.mem_cons.mp member with same | member
    · subst same
      exact ⟨starts.ge, valid, tiles_le tail⟩
    · obtain ⟨low, valid', high⟩ := ih member
      exact ⟨by linarith, valid', high⟩

theorem tiles_holds (h : Tiles a spans b) (low : a ≤ t) (high : t < b) :
    ∃ s ∈ spans, s.Holds t := by
  induction h with
  | nil => linarith
  | @cons a b first rest starts valid tail ih =>
    by_cases early : t < first.stop
    · exact ⟨first, List.mem_cons_self, starts.trans_le low, early⟩
    · obtain ⟨s, member, holds⟩ := ih (not_lt.mp early) high
      exact ⟨s, List.mem_cons_of_mem _ member, holds⟩

theorem tiles_unique (h : Tiles a spans b) (ms : s ∈ spans) (mr : r ∈ spans) (hs : s.Holds t)
    (hr : r.Holds t) : s = r := by
  induction h with
  | nil => simp at ms
  | cons starts valid tail ih =>
    rcases List.mem_cons.mp ms with es | ms
    · rcases List.mem_cons.mp mr with er | mr
      · exact es.trans er.symm
      · have bounds := tiles_member tail mr
        subst es
        linarith [hs.2, hr.1]
    · rcases List.mem_cons.mp mr with er | mr
      · have bounds := tiles_member tail ms
        subst er
        linarith [hr.2, hs.1]
      · exact ih ms mr

theorem tiles_first (h : Tiles a spans b) (stands : spans[0]? = some s) : s.start = a := by
  cases h with
  | nil => simp at stands
  | cons starts valid tail =>
    cases stands
    exact starts

theorem tiles_next {i : Nat} (h : Tiles a spans b) (at_i : spans[i]? = some s)
    (next : spans[i + 1]? = some r) : r.start = s.stop := by
  induction h generalizing i with
  | nil => simp at at_i
  | cons starts valid tail ih =>
    cases i with
    | zero =>
      cases at_i
      exact tiles_first tail next
    | succ i => exact ih at_i next

theorem tiles_last {i : Nat} (h : Tiles a spans b) (at_i : spans[i]? = some s)
    (last : spans.length = i + 1) : s.stop = b := by
  induction h generalizing i with
  | nil => simp at at_i
  | @cons a b first rest starts valid tail ih =>
    cases i with
    | zero =>
      cases at_i
      have none : rest = [] := by simpa using last
      subst none
      cases tail
      rfl
    | succ i => exact ih at_i (by simpa using last)

theorem tiles_end (h : Tiles a spans b) : b = (spans.getLast?.map (·.stop)).getD a := by
  induction h with
  | nil => rfl
  | @cons a b first rest starts valid tail ih =>
    cases rest with
    | nil =>
      cases tail
      rfl
    | cons r rest =>
      rw [List.getLast?_cons_cons, ih, List.getLast?_cons]
      rfl

theorem tiles_filter (h : Tiles a spans b) (low : a ≤ t) (high : t < b) :
    ∃ s, spans.filter (fun s => decide (s.Holds t)) = [s] := by
  induction h with
  | nil => linarith
  | @cons a b first rest starts valid tail ih =>
    by_cases early : t < first.stop
    · have later : rest.filter (fun s => decide (s.Holds t)) = [] := by
        rw [List.filter_eq_nil_iff]
        intro s member holds
        have bounds := tiles_member tail member
        have begun := (of_decide_eq_true holds).1
        linarith
      refine ⟨first, ?_⟩
      have here : first.Holds t := ⟨starts.trans_le low, early⟩
      rw [List.filter_cons, if_pos (decide_eq_true here), later]
    · have skip : ¬ decide (first.Holds t) = true := by
        intro holds
        exact early (of_decide_eq_true holds).2
      rw [List.filter_cons, if_neg skip]
      exact ih (not_lt.mp early) high

theorem plays_unique {w' : Option Nat} (h : Tiles a spans b) (first : Plays spans t w)
    (second : Plays spans t w') : w = w' := by
  obtain ⟨s, ms, hs, rfl⟩ := first
  obtain ⟨r, mr, hr, rfl⟩ := second
  rw [tiles_unique h ms mr hs hr]

theorem plays_append : Plays (spans ++ rest) t w ↔ Plays spans t w ∨ Plays rest t w := by
  constructor
  · rintro ⟨s, member, holds⟩
    rcases List.mem_append.mp member with member | member
    · exact .inl ⟨s, member, holds⟩
    · exact .inr ⟨s, member, holds⟩
  · rintro (⟨s, member, holds⟩ | ⟨s, member, holds⟩)
    · exact ⟨s, List.mem_append_left _ member, holds⟩
    · exact ⟨s, List.mem_append_right _ member, holds⟩

theorem plays_single : Plays [s] t w ↔ s.Holds t ∧ s.winner = w := by
  simp [Plays]

/-- The last span lasts longer, up to a later time. -/
theorem lasting_tiles {stop : Rat} (h : Tiles a (spans ++ [s]) m) (later : m < stop) :
    Tiles a (spans ++ [s.lasting stop]) stop ∧
      ∀ t w, Plays (spans ++ [s.lasting stop]) t w ↔
        Plays (spans ++ [s]) t w ∨ m ≤ t ∧ t < stop ∧ s.winner = w := by
  obtain ⟨first, valid, rfl⟩ := tiles_snoc.mp h
  refine ⟨tiles_snoc.mpr ⟨first, valid.trans later, rfl⟩, ?_⟩
  intro t w
  rw [plays_append, plays_append, plays_single, plays_single, or_assoc]
  apply or_congr_right
  constructor
  · rintro ⟨⟨low, high⟩, same⟩
    by_cases early : t < s.stop
    · exact .inl ⟨⟨low, early⟩, same⟩
    · exact .inr ⟨not_lt.mp early, high, same⟩
  · rintro (⟨⟨low, high⟩, same⟩ | ⟨low, high, same⟩)
    · exact ⟨⟨low, high.trans later⟩, same⟩
    · exact ⟨⟨valid.le.trans low, high⟩, same⟩

/-- No two neighbours have the same winner. -/
def Alternates (spans : List (Span Rat)) : Prop :=
  spans.IsChain fun s r => s.winner ≠ r.winner

theorem alternates_next {i : Nat} (h : Alternates spans) (at_i : spans[i]? = some s)
    (next : spans[i + 1]? = some r) : s.winner ≠ r.winner := by
  obtain ⟨inside, rfl⟩ := List.getElem?_eq_some_iff.mp next
  obtain ⟨-, rfl⟩ := List.getElem?_eq_some_iff.mp at_i
  exact List.isChain_iff_getElem.mp h i inside

theorem span_before {i : Nat} (tiles : Tiles a spans b) (alternates : Alternates spans)
    (at_i : spans[i]? = some s) (later : 0 < i) :
    ∃ p, spans[i - 1]? = some p ∧ p ∈ spans ∧ p.stop = s.start ∧ p.winner ≠ s.winner := by
  have inside := (List.getElem?_eq_some_iff.mp at_i).1
  have at_p := List.getElem?_eq_getElem (show i - 1 < spans.length by omega)
  generalize spans[i - 1] = p at at_p
  have next : spans[i - 1 + 1]? = some s := by rwa [Nat.sub_add_cancel later]
  exact ⟨p, at_p, List.mem_of_getElem? at_p, (tiles_next tiles at_p next).symm,
    alternates_next alternates at_p next⟩

theorem span_after {i : Nat} (tiles : Tiles a spans b) (alternates : Alternates spans)
    (at_i : spans[i]? = some s) (earlier : i + 1 < spans.length) :
    ∃ r ∈ spans, r.start = s.stop ∧ s.winner ≠ r.winner := by
  have at_r := List.getElem?_eq_getElem earlier
  generalize spans[i + 1] = r at at_r
  exact ⟨r, List.mem_of_getElem? at_r, tiles_next tiles at_i at_r,
    alternates_next alternates at_i at_r⟩

theorem extend_snoc (spans : List (Span Rat)) (last s : Span Rat) :
    extend (spans ++ [last]) s =
      if last.winner = s.winner then spans ++ [last.lasting s.stop] else spans ++ [last] ++ [s] := by
  simp only [extend, List.getLast?_concat, List.dropLast_concat, beq_iff_eq]
  rfl

theorem alternates_lasting (h : Alternates (spans ++ [s])) (stop : Rat) :
    Alternates (spans ++ [s.lasting stop]) := by
  rw [Alternates, List.isChain_append] at h ⊢
  refine ⟨h.1, List.isChain_singleton _, ?_⟩
  simpa [Span.lasting] using h.2.2

theorem extend_alternates (h : Alternates spans) (s : Span Rat) : Alternates (extend spans s) := by
  rcases List.eq_nil_or_concat' spans with rfl | ⟨before, last, rfl⟩
  · exact List.isChain_singleton _
  · rw [extend_snoc]
    split
    · exact alternates_lasting h s.stop
    · rename_i other
      rw [Alternates, List.isChain_append]
      refine ⟨h, List.isChain_singleton _, ?_⟩
      simpa using other

/-- A span added at the end plays after the others, and neighbours still differ. -/
theorem extend_tiles (h : Tiles a spans s.start) (valid : s.start < s.stop) :
    Tiles a (extend spans s) s.stop ∧
      (∀ t w, Plays (extend spans s) t w ↔ Plays spans t w ∨ s.Holds t ∧ s.winner = w) ∧
      (Alternates spans → Alternates (extend spans s)) ∧
      (extend spans s).getLast?.map (·.winner) = some s.winner := by
  have apart : Alternates spans → Alternates (extend spans s) := fun h => extend_alternates h s
  rcases List.eq_nil_or_concat' spans with rfl | ⟨before, last, rfl⟩
  · cases h
    refine ⟨.cons rfl valid (.nil _), ?_, apart, rfl⟩
    intro t w
    simp [extend, Plays]
  · rw [extend_snoc] at apart ⊢
    split at apart
    · rename_i same
      rw [if_pos same]
      obtain ⟨tiles, plays⟩ := lasting_tiles h valid
      refine ⟨tiles, ?_, apart, ?_⟩
      · intro t w
        rw [plays, same, Span.Holds, and_assoc]
      · simp [Span.lasting, same]
    · rename_i other
      rw [if_neg other]
      refine ⟨tiles_snoc.mpr ⟨h, valid, rfl⟩, ?_, apart, ?_⟩
      · intro t w
        rw [plays_append, plays_single]
      · simp

theorem extend_wide {d : Rat} (h : Tiles a spans s.start) (valid : s.start < s.stop)
    (wide : ∀ r ∈ spans, d < r.duration) (long : d < s.duration) :
    ∀ r ∈ extend spans s, d < r.duration := by
  rcases List.eq_nil_or_concat' spans with rfl | ⟨before, last, rfl⟩
  · simpa [extend] using long
  · obtain ⟨-, -, ends⟩ := tiles_snoc.mp h
    rw [extend_snoc]
    intro r member
    split at member
    · rcases List.mem_append.mp member with member | member
      · exact wide r (List.mem_append_left _ member)
      · have before := wide last (by simp)
        rw [List.mem_singleton.mp member]
        change d < s.stop - last.start
        change d < last.stop - last.start at before
        linarith
    · rcases List.mem_append.mp member with member | member
      · exact wide r member
      · rw [List.mem_singleton.mp member]
        exact long

end Montage
