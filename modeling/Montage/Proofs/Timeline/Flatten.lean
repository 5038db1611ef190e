import Montage.Proofs.Timeline.Gap

/- What the finished spans play. A span of the sweep plays what it played there, unless it is a
   gap that was given to the span before; joining a short last span to its neighbour changes
   nothing earlier than a step before the end. -/
namespace Montage

/-- What a span plays once the chosen ones were given to the span before them. -/
def passed (given : Nat → Span Rat → Bool) (spans : List (Span Rat)) (i : Nat) (s : Span Rat) :
    Option Nat :=
  if given i s then (spans[i - 1]?).bind (·.winner) else s.winner

/-- Gives a span to the one before, or adds it. -/
def pass (given : Nat → Span Rat → Bool) (out : List (Span Rat)) (s : Span Rat) (i : Nat) :
    List (Span Rat) :=
  if given i s then
    match out.getLast? with
    | some last => out.dropLast ++ [last.lasting s.stop]
    | none => extend out s
  else extend out s

structure Passed (given : Nat → Span Rat → Bool) (spans : List (Span Rat)) (k : Nat)
    (out : List (Span Rat)) (m : Rat) : Prop where
  tiles : Tiles 0 out m
  plays : ∀ t w, Plays out t w ↔
    ∃ i s, i < k ∧ spans[i]? = some s ∧ s.Holds t ∧ passed given spans i s = w
  last : ∀ i s, k = i + 1 → spans[i]? = some s →
    out.getLast?.map (·.winner) = some (passed given spans i s)

section Pass
variable {given : Nat → Span Rat → Bool} {spans out : List (Span Rat)} {k : Nat} {m stop : Rat}
  {s : Span Rat}

theorem pass_plays_iff {t : Rat} {w : Option Nat} (stands : spans[k]? = some s)
    (before : ∀ t w, Plays out t w ↔
      ∃ i s, i < k ∧ spans[i]? = some s ∧ s.Holds t ∧ passed given spans i s = w) :
    (Plays out t w ∨ s.Holds t ∧ passed given spans k s = w) ↔
      ∃ i s, i < k + 1 ∧ spans[i]? = some s ∧ s.Holds t ∧ passed given spans i s = w := by
  rw [before]
  constructor
  · rintro (⟨i, r, early, at_i, holds, same⟩ | ⟨holds, same⟩)
    · exact ⟨i, r, by omega, at_i, holds, same⟩
    · exact ⟨k, s, by omega, stands, holds, same⟩
  · rintro ⟨i, r, early, at_i, holds, same⟩
    rcases Nat.lt_or_eq_of_le (Nat.le_of_lt_succ early) with early | rfl
    · exact .inl ⟨i, r, early, at_i, holds, same⟩
    · rw [stands] at at_i
      cases at_i
      exact .inr ⟨holds, same⟩

theorem pass_step (whole : Tiles 0 spans stop) (alternates : Alternates spans)
    (gaps : ∀ i s, given i s = true → s.winner = none ∧ 0 < i)
    (h : Passed given spans k out m) (stands : spans[k]? = some s) (starts : s.start = m)
    (valid : s.start < s.stop) : Passed given spans (k + 1) (pass given out s k) s.stop := by
  subst starts
  cases chosen : given k s with
  | false =>
    have form : pass given out s k = extend out s := by simp [pass, chosen]
    have own : passed given spans k s = s.winner := by simp [passed, chosen]
    obtain ⟨tiles, plays, -, last⟩ := extend_tiles h.tiles valid
    rw [form]
    refine ⟨tiles, ?_, ?_⟩
    · intro t w
      rw [plays, ← pass_plays_iff stands h.plays, own]
    · intro i r same at_i
      obtain rfl : k = i := by omega
      rw [stands] at at_i
      cases at_i
      rw [last, own]
  | true =>
    obtain ⟨nobody, later⟩ := gaps k s chosen
    obtain ⟨p, at_p, -, -, other⟩ := span_before whole alternates stands later
    have kept : passed given spans (k - 1) p = p.winner := by
      have free : given (k - 1) p = false := by
        by_contra taken
        have silent := (gaps (k - 1) p (by simpa using taken)).1
        exact other (silent.trans nobody.symm)
      simp [passed, free]
    have last := h.last (k - 1) p (by omega) at_p
    rw [kept] at last
    obtain ⟨x, found, winner⟩ := Option.map_eq_some_iff.mp last
    obtain ⟨front, rfl⟩ := List.getLast?_eq_some_iff.mp found
    have own : passed given spans k s = x.winner := by simp [passed, chosen, at_p, winner]
    have form : pass given (front ++ [x]) s k = front ++ [x.lasting s.stop] := by
      simp [pass, chosen]
    obtain ⟨tiles, plays⟩ := lasting_tiles h.tiles valid
    rw [form]
    refine ⟨tiles, ?_, ?_⟩
    · intro t w
      rw [plays, ← pass_plays_iff stands h.plays, own, Span.Holds, and_assoc]
    · intro i r same at_i
      obtain rfl : k = i := by omega
      rw [stands] at at_i
      cases at_i
      rw [own]
      simp [Span.lasting]

theorem pass_all {rest later : List (Span Rat)} {next : Rat} (whole : Tiles 0 spans stop)
    (alternates : Alternates spans)
    (gaps : ∀ i s, given i s = true → s.winner = none ∧ 0 < i)
    (h : Passed given spans k out m) (left : spans.drop k = rest ++ later)
    (tiles : Tiles m rest next) :
    Passed given spans (k + rest.length)
      ((rest.zipIdx k).foldl (fun out x => pass given out x.1 x.2) out) next := by
  induction rest generalizing k out m with
  | nil =>
    cases tiles
    exact h
  | cons s rest ih =>
    cases tiles with
    | cons starts valid tail =>
      have stands : spans[k]? = some s := by
        rw [← Nat.add_zero k, ← List.getElem?_drop, left]
        rfl
      have next : spans.drop (k + 1) = rest ++ later := by
        rw [← List.drop_drop, left]
        rfl
      have count : k + (s :: rest).length = k + 1 + rest.length := by
        rw [List.length_cons]
        omega
      rw [List.zipIdx_cons, List.foldl_cons, count]
      exact ih (pass_step whole alternates gaps h stands starts valid) next tail

end Pass

theorem passed_start (given : Nat → Span Rat → Bool) (spans : List (Span Rat)) :
    Passed given spans 0 [] 0 :=
  ⟨.nil 0, by simp [Plays], by simp⟩

/-- The spans that are given to the one before: gaps inside the timeline between clips less than
a step apart. -/
def isGiven (cs : List (Candidate Rat)) (step : Rat) (count i : Nat) (s : Span Rat) : Bool :=
  s.winner.isNone && (decide (0 < i) && decide (i + 1 < count)) &&
    isShortGap cs step (midpoint s.start s.stop)

theorem isGiven_gap {cs : List (Candidate Rat)} {step : Rat} {count i : Nat} {s : Span Rat}
    (given : isGiven cs step count i s = true) : s.winner = none ∧ 0 < i := by
  simp only [isGiven, Bool.and_eq_true, decide_eq_true_eq, Option.isNone_iff_eq_none] at given
  exact ⟨given.1.1, given.1.2.1⟩

theorem absorb_eq (cs : List (Candidate Rat)) (step : Rat) (spans : List (Span Rat)) :
    absorbShortGaps cs step spans = (spans.zipIdx 0).foldl (fun out x =>
      pass (isGiven cs step spans.length) out x.1 x.2) [] := by
  unfold absorbShortGaps
  congr 1
  funext out x
  unfold pass isGiven
  cases out.getLast? <;> rfl

/-- What the first spans have become when they have been passed on. -/
theorem absorb_prefix (cs : List (Candidate Rat)) (step : Rat) {m stop : Rat}
    {front later : List (Span Rat)} (whole : Tiles 0 (front ++ later) stop)
    (alternates : Alternates (front ++ later)) (tiles : Tiles 0 front m) :
    Passed (isGiven cs step (front ++ later).length) (front ++ later) front.length
      ((front.zipIdx 0).foldl (fun out x =>
        pass (isGiven cs step (front ++ later).length) out x.1 x.2) []) m := by
  have start := passed_start (isGiven cs step (front ++ later).length) (front ++ later)
  have all := pass_all whole alternates (fun _ _ => isGiven_gap) start List.drop_zero tiles
  rwa [Nat.zero_add] at all

theorem absorb_plays (cs : List (Candidate Rat)) (step : Rat) {stop : Rat} {spans : List (Span Rat)}
    (tiles : Tiles 0 spans stop) (alternates : Alternates spans) :
    Tiles 0 (absorbShortGaps cs step spans) stop ∧
      ∀ t w, Plays (absorbShortGaps cs step spans) t w ↔
        ∃ i s, spans[i]? = some s ∧ s.Holds t ∧
          passed (isGiven cs step spans.length) spans i s = w := by
  have nothing : spans ++ [] = spans := List.append_nil spans
  have all := absorb_prefix cs step (nothing.symm ▸ tiles) (nothing.symm ▸ alternates) tiles
  rw [nothing, ← absorb_eq] at all
  refine ⟨all.tiles, ?_⟩
  intro t w
  rw [all.plays]
  constructor
  · rintro ⟨i, s, early, rest⟩
    exact ⟨i, s, rest⟩
  · rintro ⟨i, s, at_i, rest⟩
    exact ⟨i, s, (List.getElem?_eq_some_iff.mp at_i).1, at_i, rest⟩

theorem foldTail_concat (step : Rat) (front : List (Span Rat)) (before tail : Span Rat) :
    foldTail step (front ++ [before] ++ [tail]) =
      if tail.duration < step - closeness then front ++ [before.lasting tail.stop]
      else front ++ [before] ++ [tail] := by
  unfold foldTail
  simp only [List.getLast?_concat, List.dropLast_concat]
  rfl

/-- A last span that is joined to its neighbour begins less than a step before the end. -/
theorem foldTail_plays (step : Rat) {stop : Rat} {spans : List (Span Rat)}
    (tiles : Tiles 0 spans stop) :
    Tiles 0 (foldTail step spans) stop ∧
      ∀ t w, t ≤ stop - (step - closeness) → (Plays (foldTail step spans) t w ↔ Plays spans t w) := by
  rcases List.eq_nil_or_concat' spans with rfl | ⟨front, tail, rfl⟩
  · exact ⟨tiles, fun t w _ => Iff.rfl⟩
  rcases List.eq_nil_or_concat' front with rfl | ⟨front, before, rfl⟩
  · exact ⟨tiles, fun t w _ => Iff.rfl⟩
  rw [foldTail_concat]
  split
  · rename_i short
    obtain ⟨inner, valid, ends⟩ := tiles_snoc.mp tiles
    obtain ⟨tiles', plays⟩ := lasting_tiles inner valid
    refine ⟨ends ▸ tiles', ?_⟩
    intro t w early
    change tail.stop - tail.start < step - closeness at short
    have parts := @plays_append (front ++ [before]) [tail] t w
    rw [plays, parts, plays_single]
    apply or_congr_right
    constructor
    · rintro ⟨late, -, -⟩
      linarith
    · rintro ⟨⟨late, -⟩, -⟩
      linarith
  · exact ⟨tiles, fun t w _ => Iff.rfl⟩

/-- A fold that keeps one of two values ends with one of them all, and each is related to it. -/
theorem foldl_chosen {r : Rat → Rat → Prop} {f : Rat → Rat → Rat} (refl : ∀ x, r x x)
    (trans : ∀ x y z, r x y → r y z → r x z) (choice : ∀ x z, f x z = x ∨ f x z = z)
    (left : ∀ x z, r x (f x z)) (right : ∀ x z, r z (f x z)) (xs : List Rat) (x : Rat) :
    xs.foldl f x ∈ x :: xs ∧ ∀ y ∈ x :: xs, r y (xs.foldl f x) := by
  induction xs generalizing x with
  | nil => simp [refl]
  | cons z xs ih =>
    obtain ⟨member, bound⟩ := ih (f x z)
    have top := bound _ List.mem_cons_self
    rw [List.foldl_cons]
    refine ⟨?_, ?_⟩
    · rcases List.mem_cons.mp member with same | member
      · rcases choice x z with kept | taken
        · rw [same, kept]
          exact List.mem_cons_self
        · rw [same, taken]
          exact List.mem_cons_of_mem _ List.mem_cons_self
      · exact List.mem_cons_of_mem _ (List.mem_cons_of_mem _ member)
    · intro y mem
      rcases List.mem_cons.mp mem with rfl | mem
      · exact trans _ _ _ (left y z) top
      · rcases List.mem_cons.mp mem with rfl | mem
        · exact trans _ _ _ (right x y) top
        · exact bound y (List.mem_cons_of_mem _ mem)

theorem greatest_spec {xs : List Rat} : (greatest xs = none ↔ xs = []) ∧
    ∀ b, greatest xs = some b → b ∈ xs ∧ ∀ x ∈ xs, x ≤ b := by
  cases xs with
  | nil => simp [greatest]
  | cons x xs =>
    refine ⟨by simp [greatest], ?_⟩
    intro b found
    cases found
    exact foldl_chosen (r := (· ≤ ·)) le_refl (fun _ _ _ => le_trans)
      (fun x z => by simpa using max_choice x z) (by simp) (by simp) xs x

theorem least_spec {xs : List Rat} : (least xs = none ↔ xs = []) ∧
    ∀ a, least xs = some a → a ∈ xs ∧ ∀ x ∈ xs, a ≤ x := by
  cases xs with
  | nil => simp [least]
  | cons x xs =>
    refine ⟨by simp [least], ?_⟩
    intro a found
    cases found
    exact foldl_chosen (r := (· ≥ ·)) le_refl (fun _ _ _ first second => second.trans first)
      (fun x z => by simpa using min_choice x z) (by simp) (by simp) xs x

/-- Some candidate ends before the time and some begins after it, with less than a step between:
not always the two that meet at the gap. -/
theorem isShortGap_iff {cs : List (Candidate Rat)} {step mid : Rat} :
    isShortGap cs step mid = true ↔
      ∃ c ∈ cs, ∃ d ∈ cs, c.stop ≤ mid ∧ mid ≤ d.start ∧ d.start - c.stop < step - closeness := by
  have ends : ∀ {x}, x ∈ (cs.map (·.stop)).filter (fun e => decide (e ≤ mid)) ↔
      ∃ c ∈ cs, c.stop = x ∧ x ≤ mid := by
    simp
    grind
  have starts : ∀ {x}, x ∈ (cs.map (·.start)).filter (fun s => decide (mid ≤ s)) ↔
      ∃ d ∈ cs, d.start = x ∧ mid ≤ x := by
    simp
    grind
  unfold isShortGap
  dsimp only
  constructor
  · intro short
    split at short
    · rename_i b a before after
      obtain ⟨c, member, rfl, low⟩ := ends.mp (greatest_spec.2 b before).1
      obtain ⟨d, member', rfl, high⟩ := starts.mp (least_spec.2 a after).1
      exact ⟨c, member, d, member', low, high, of_decide_eq_true short⟩
    · cases short
  · rintro ⟨c, member, d, member', low, high, short⟩
    have left := ends.mpr ⟨c, member, rfl, low⟩
    have right := starts.mpr ⟨d, member', rfl, high⟩
    split
    · rename_i b a before after
      have top := (greatest_spec.2 b before).2 _ left
      have bottom := (least_spec.2 a after).2 _ right
      rw [decide_eq_true_eq]
      linarith
    · rename_i missing
      exfalso
      cases before : greatest ((cs.map (·.stop)).filter fun e => decide (e ≤ mid)) with
      | none => simp [greatest_spec.1.mp before] at left
      | some b =>
        cases after : least ((cs.map (·.start)).filter fun s => decide (mid ≤ s)) with
        | none => simp [least_spec.1.mp after] at right
        | some a => exact missing b a before after

/-- A gap over which the clip before it plays on: clips less than a step apart lie on either side
of its middle. -/
def Swallowed (cs : List (Candidate Rat)) (total step t : Rat) : Prop :=
  ∃ a b, Gap (contenders cs total step) a b ∧ a ≤ t ∧ t < b ∧
    ∃ c ∈ cs, ∃ d ∈ cs, c.stop ≤ (a + b) / 2 ∧ (a + b) / 2 ≤ d.start ∧
      d.start - c.stop < step - closeness

theorem contenders_distinct {cs : List (Candidate Rat)} {total step : Rat} :
    ∀ c ∈ contenders cs total step, ∀ d ∈ contenders cs total step, c.index = d.index → c = d := by
  intro c mc d md same
  obtain ⟨k, at_c, eq⟩ := mem_contenders.mp mc
  obtain ⟨l, at_d, eq'⟩ := mem_contenders.mp md
  rw [same, at_d] at at_c
  cases at_c
  rw [eq, eq', same]

theorem thinned_go_subset (kept : Rat) (es : List Rat) : thinned.go kept es ⊆ es := by
  induction es generalizing kept with
  | nil => exact List.Subset.refl []
  | cons e es ih =>
    rw [thinned.go]
    split
    · exact List.subset_cons_of_subset e (ih kept)
    · exact List.cons_subset_cons e (ih e)

theorem thinned_subset (es : List Rat) : thinned es ⊆ es := by
  cases es with
  | nil => exact List.Subset.refl []
  | cons e es => exact List.cons_subset_cons e (thinned_go_subset e es)

theorem edges_grid {cs : List (Contender Rat)} {total step : Rat} (inside : 0 ≤ total)
    (grid : Aligned cs total step) : ∀ x ∈ edges cs total, OnGrid total step x := by
  intro x member
  rcases mem_boundaries.mp (thinned_subset _ member) with rfl | rfl | ⟨c, listed, rfl | rfl⟩
  · exact ⟨le_refl _, inside, .inr ⟨0, by simp⟩⟩
  · exact ⟨inside, le_refl _, .inl rfl⟩
  · exact (grid c listed).1
  · exact (grid c listed).2

theorem intervals_close {es : List Rat} (close : ∀ a ∈ es, ∀ b ∈ es, b - a ≤ closeness) :
    intervals es = [] := by
  induction es with
  | nil => rfl
  | cons a es ih =>
    cases es with
    | nil => rfl
    | cons b es =>
      rw [intervals, if_pos (close a (by simp) b (by simp))]
      exact ih fun x hx y hy => close x (List.mem_cons_of_mem a hx) y (List.mem_cons_of_mem a hy)

section Flatten
variable {cs : List (Candidate Rat)} {total step stop t : Rat}

theorem flatten_tiles (cs : List (Candidate Rat)) (positive : 0 < total) (fine : closeness < step) :
    ∃ stop, Swept (contenders cs total step) total stop ∧ Tiles 0 (flatten cs total step) stop ∧
      ∀ t w, t ≤ total - step → (Plays (flatten cs total step) t w ↔
        ∃ i s, (sweep (contenders cs total step) total)[i]? = some s ∧ s.Holds t ∧
          passed (isGiven cs step (sweep (contenders cs total step) total).length)
            (sweep (contenders cs total step) total) i s = w) := by
  have grid := contenders_aligned cs positive.le (closeness_pos.trans fine)
  obtain ⟨stop, swept⟩ := sweep_swept positive.le fine grid
  have form : flatten cs total step =
      foldTail step (absorbShortGaps cs step (sweep (contenders cs total step) total)) :=
    if_neg (not_le.mpr positive)
  obtain ⟨tiles, plays⟩ := absorb_plays cs step swept.tiles swept.alternates
  obtain ⟨tiles', plays'⟩ := foldTail_plays step tiles
  refine ⟨stop, swept, form ▸ tiles', ?_⟩
  intro t w early
  have reach := swept.reach
  rw [form, plays' t w (by linarith), plays]

theorem flatten_covered (positive : 0 < total) (fine : closeness < step) (low : 0 ≤ t)
    (early : t ≤ total - step) {b : Contender Rat}
    (found : winnerAt (contenders cs total step) t = some b) :
    Plays (flatten cs total step) t (some b.index) := by
  obtain ⟨stop, swept, -, plays⟩ := flatten_tiles cs positive fine
  have reach := swept.reach
  obtain ⟨s, member, holds, winner⟩ := swept.plays t low (by linarith)
  obtain ⟨i, stands⟩ := List.mem_iff_getElem?.mp member
  rw [found] at winner
  refine (plays t _ early).mpr ⟨i, s, stands, holds, ?_⟩
  simp [passed, isGiven, winner]

/-- Where nobody plays the finished spans show nobody, unless the gap was swallowed. -/
theorem flatten_silent (positive : 0 < total) (fine : closeness < step) (low : 0 ≤ t)
    (early : t ≤ total - step) (silent : winnerAt (contenders cs total step) t = none) :
    ∃ w, Plays (flatten cs total step) t w ∧ (w = none ↔ ¬ Swallowed cs total step t) := by
  have grid := contenders_aligned cs positive.le (closeness_pos.trans fine)
  obtain ⟨stop, swept, -, plays⟩ := flatten_tiles cs positive fine
  have reach := swept.reach
  by_cases swallowed : Swallowed cs total step t
  · obtain ⟨a, b, gap, after, before, short⟩ := swallowed
    obtain ⟨i, s, stands, rfl, rfl, nobody, later, earlier⟩ := gap_span swept fine grid gap after before
    have given : isGiven cs step (sweep (contenders cs total step) total).length i s = true := by
      have brief := isShortGap_iff.mpr short
      rw [← midpoint_rat] at brief
      simp [isGiven, nobody, later, earlier, brief]
    obtain ⟨p, at_p, -, -, other⟩ := span_before swept.tiles swept.alternates stands later
    refine ⟨p.winner, (plays t _ early).mpr ⟨i, s, stands, ⟨after, before⟩, ?_⟩, ?_⟩
    · simp [passed, given, at_p]
    · constructor
      · intro none
        exact absurd (none.trans nobody.symm) other
      · intro free
        exact absurd ⟨s.start, s.stop, gap, after, before, short⟩ free
  · obtain ⟨s, member, holds, winner⟩ := swept.plays t low (by linarith)
    obtain ⟨i, stands⟩ := List.mem_iff_getElem?.mp member
    rw [silent] at winner
    have kept : isGiven cs step (sweep (contenders cs total step) total).length i s = false := by
      by_contra given
      simp only [isGiven, Bool.not_eq_false, Bool.and_eq_true, decide_eq_true_eq] at given
      obtain ⟨⟨-, later, earlier⟩, brief⟩ := given
      apply swallowed
      refine ⟨s.start, s.stop, ?_, holds.1, holds.2, ?_⟩
      · exact span_gap swept fine grid contenders_distinct stands winner later earlier
      · rw [← midpoint_rat]
        exact isShortGap_iff.mp brief
    refine ⟨none, (plays t _ early).mpr ⟨i, s, stands, holds, ?_⟩, ?_⟩
    · simpa [passed, kept] using winner
    · simp [swallowed]

/-- Who plays in a span of the sweep, or is given it, is one of the candidates. -/
theorem passed_listed {given : Nat → Span Rat → Bool} {i w : Nat} {s : Span Rat}
    (swept : Swept (contenders cs total step) total stop)
    (stands : (sweep (contenders cs total step) total)[i]? = some s)
    (winner : passed given (sweep (contenders cs total step) total) i s = some w) :
    ∃ c ∈ contenders cs total step, c.index = w := by
  have named : ∀ r ∈ sweep (contenders cs total step) total, r.winner = some w →
      ∃ c ∈ contenders cs total step, c.index = w := by
    intro r member same
    obtain ⟨c, inside, index, -⟩ := winner_holds swept contenders_distinct member same
    exact ⟨c, inside, index⟩
  unfold passed at winner
  split at winner
  · obtain ⟨r, before, same⟩ := Option.bind_eq_some_iff.mp winner
    exact named r (List.mem_of_getElem? before) same
  · exact named s (List.mem_of_getElem? stands) winner

/-- Who plays in the finished spans is one of the candidates. -/
theorem flatten_listed (positive : 0 < total) (fine : closeness < step) (early : t ≤ total - step)
    {w : Nat} (played : Plays (flatten cs total step) t (some w)) :
    ∃ c ∈ contenders cs total step, c.index = w := by
  obtain ⟨stop, swept, -, plays⟩ := flatten_tiles cs positive fine
  obtain ⟨i, s, stands, -, winner⟩ := (plays t _ early).mp played
  exact passed_listed swept stands winner

/-- A timeline no longer than what counts as nothing has no spans. -/
theorem flatten_brief (positive : 0 < step) (brief : total ≤ closeness) :
    flatten cs total step = [] := by
  unfold flatten
  split
  · rfl
  · rename_i lasts
    have inside : 0 ≤ total := (not_le.mp lasts).le
    have grid := contenders_aligned cs inside positive
    have bounded := edges_grid inside grid
    have none : intervals (edges (contenders cs total step) total) = [] := by
      apply intervals_close
      intro a ha b hb
      linarith [(bounded a ha).low, (bounded b hb).high]
    unfold sweep
    rw [none]
    rfl

end Flatten

end Montage
