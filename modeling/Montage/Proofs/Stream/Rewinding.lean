import Montage.Proofs.Stream.Loading

/- Reversed playback. A slot decodes the whole group of a target once and then only picks from it, as
   far as nothing overflows. -/
namespace Montage.Slot

/-- The place from which a slot serves a target: the last one, unless the target is in another
group. -/
def movedTo (table : List Sample) (place target : Int) : Int :=
  if Sample.keyframeAtOrBefore table target = Sample.keyframeAtOrBefore table place then place
  else target

/-- The targets served since the group of this one was entered. -/
def sinceEntered (table : List Sample) (entered : Nat) (target : Int) (handled : List Int) :
    List Int :=
  if Sample.keyframeAtOrBefore table target = entered then handled else []

/-- What one target asks of an advance and the pick after it. Entering another group resets the
decoder once and brings all of its frames; inside a group an advance changes nothing. The pick of a
target that is not later than those since the group was entered is a frame of the group to which
no other is nearer. -/
structure Served (table : List Sample) (width height entered : Nat) (handled : List Int)
    (target : Int) (s after : Slot) (picked : Option Frame) (shown : Slot) : Prop where
  resets : shown.decoder.usage.resets = s.decoder.usage.resets +
    if Sample.keyframeAtOrBefore table target = entered then 0 else 1
  whole : sinceEntered table entered target handled = [] → after.queue.frames.Perm
    ((Sample.group table (Sample.keyframeAtOrBefore table target)).map (Sample.shot width height))
  still : sinceEntered table entered target handled ≠ [] → after = s
  nearest : (∀ earlier ∈ sinceEntered table entered target handled, target ≤ earlier) →
    ∃ x ∈ Sample.group table (Sample.keyframeAtOrBefore table target),
      picked = some (x.shot width height) ∧
      ∀ y ∈ Sample.group table (Sample.keyframeAtOrBefore table target),
        (x.timestamp - target).natAbs ≤ (y.timestamp - target).natAbs

/-- As far as the targets are reached they are served, after those handled so far in the group of a
keyframe. -/
def Rewinds (table : List Sample) (tuning : SlotTuning) (width height : Nat) :
    Nat → List Int → List Int → Slot → Clock → Prop
  | _, _, [], _, _ => True
  | entered, handled, target :: rest, s, clock =>
    ∀ outcome after later picked shown, s.advance tuning target clock = (.ok outcome, after, later) →
      after.pick? target = some (picked, shown) →
      Served table width height entered handled target s after picked shown ∧
      Rewinds table tuning width height (Sample.keyframeAtOrBefore table target)
        (target :: sinceEntered table entered target handled) rest shown later

/-- Every target is reached, and its pick does not overflow. -/
def Completes (tuning : SlotTuning) : List Int → Slot → Clock → Prop
  | [], _, _ => True
  | target :: rest, s, clock =>
    ∃ outcome after later picked shown, s.advance tuning target clock = (.ok outcome, after, later) ∧
      after.pick? target = some (picked, shown) ∧ Completes tuning rest shown later

/-- What is reckoned for targets, after one before them, has room: the horizon of each, and the floor
of those in another group than the one before. -/
def Reckoned (table : List Sample) (tuning : SlotTuning) : Int → List Int → Prop
  | _, [] => True
  | last, target :: rest =>
    Fits (target + tuning.lookahead) ∧
      (Sample.keyframeAtOrBefore table target ≠ Sample.keyframeAtOrBefore table last →
        Fits (floorAt table true tuning target)) ∧
      Reckoned table tuning target rest

section Run
variable {table : List Sample} {tuning : SlotTuning} {width height depth : Nat}
  {place target last : Int} {handled : List Int} {s after : Slot} {clock later : Clock}
  {outcome : Advanced}

/-- A slot before a call: nothing was fed, or these targets were served from one group. -/
def Standing (table : List Sample) (tuning : SlotTuning) (width height depth : Nat) (place : Int)
    (handled : List Int) (s : Slot) : Prop :=
  handled = [] ∧ s.Blank table tuning width height depth place ∨
    handled ≠ [] ∧ s.Loaded table tuning width height depth place handled

theorem Standing.ready (h : s.Standing table tuning width height depth place handled) :
    s.Ready table tuning width height depth place := by
  rcases h with ⟨-, blank⟩ | ⟨-, loaded⟩
  · exact blank.toReady
  · exact loaded.toReady

theorem seek_resets (s : Slot) (target : Int) :
    (s.seek target).decoder.usage.resets = s.decoder.usage.resets + 1 := rfl

theorem pick_resets (s : Slot) (target : Int) :
    (s.pick target).2.decoder.usage.resets = s.decoder.usage.resets := rfl

theorem movedTo_keyframe (table : List Sample) (place target : Int) :
    Sample.keyframeAtOrBefore table (movedTo table place target) =
      Sample.keyframeAtOrBefore table target := by
  unfold movedTo
  split
  · rename_i same
    exact same.symm
  · rfl

/-- The whole group is loaded at the place that a target is served from. -/
theorem advance_serves (grouped : Grouped table) (late : Late table target)
    (h : s.Standing table tuning width height depth place handled)
    (reached : s.advance tuning target clock = (.ok outcome, after, later)) :
    after.Loaded table tuning width height depth (movedTo table place target)
        (sinceEntered table (Sample.keyframeAtOrBefore table place) target handled) ∧
      Served table width height (Sample.keyframeAtOrBefore table place) handled target s after
        (after.pick target).1 (after.pick target).2 := by
  have opened := h.ready.feedable.opened
  have resets := advance_resets opened reached
  have nearest {since : List Int}
      (loaded : after.Loaded table tuning width height depth (movedTo table place target) since)
      (descends : ∀ earlier ∈ since, target ≤ earlier) := pick_nearest grouped loaded descends
  rw [movedTo_keyframe] at nearest
  by_cases same : Sample.keyframeAtOrBefore table target = Sample.keyframeAtOrBefore table place
  · have moved : movedTo table place target = place := if_pos same
    have since : sinceEntered table (Sample.keyframeAtOrBefore table place) target handled =
      handled := if_pos same
    rw [moved] at nearest ⊢
    have aimed := aimed_stays grouped late h.ready.placed same
    have kept : after.decoder.usage.resets = s.decoder.usage.resets := by rw [resets, aimed]
    rw [since]
    rcases h with ⟨none, blank⟩ | ⟨some, loaded⟩
    · subst none
      rw [← aimed] at blank
      obtain ⟨loaded, whole⟩ := advance_loads grouped opened blank reached
      refine ⟨loaded, ⟨?_, ?_, ?_, ?_⟩⟩
      · rw [pick_resets, kept, if_pos same, Nat.add_zero]
      · rw [same]
        exact fun _ => whole
      · exact fun some => absurd since some
      · rw [since]
        exact nearest loaded
    · have still := advance_stays grouped late loaded same reached
      rw [← still] at loaded
      refine ⟨loaded, ⟨?_, ?_, fun _ => still, ?_⟩⟩
      · rw [pick_resets, kept, if_pos same, Nat.add_zero]
      · exact fun none => absurd (since.symm.trans none) some
      · rw [since]
        exact nearest loaded
  · have moved : movedTo table place target = target := if_neg same
    have since : sinceEntered table (Sample.keyframeAtOrBefore table place) target handled = [] :=
      if_neg same
    have aimed : s.aimed target = s.seek target :=
      if_pos ((needsSeek_late_iff grouped late h.ready.placed).mpr same)
    rw [moved] at nearest ⊢
    rw [since]
    -- the seek forgets what was queued for the group before
    have blank := seek_blank grouped h.ready target
    rw [← aimed] at blank
    obtain ⟨loaded, whole⟩ := advance_loads grouped opened blank reached
    refine ⟨loaded, ⟨?_, fun _ => whole, fun some => absurd since some, ?_⟩⟩
    · rw [pick_resets, resets, aimed, seek_resets, if_neg same]
    · rw [since]
      exact nearest loaded

/-- The slot stands where it did, or in the group of the target, after that was served. -/
theorem standing_onward (grouped : Grouped table) (late : Late table target)
    (h : s.Standing table tuning width height depth place handled)
    (reached : s.advance tuning target clock = (.ok outcome, after, later)) :
    (after.pick target).2.Standing table tuning width height depth (movedTo table place target)
      (target :: sinceEntered table (Sample.keyframeAtOrBefore table place) target handled) :=
  .inr ⟨List.cons_ne_nil _ _, pick_loaded (advance_serves grouped late h reached).1⟩

theorem standing_rewinds (grouped : Grouped table) (targets : List Int)
    (late : ∀ target ∈ targets, Late table target)
    (h : s.Standing table tuning width height depth place handled) :
    Rewinds table tuning width height (Sample.keyframeAtOrBefore table place) handled targets s
      clock := by
  induction targets generalizing place handled s clock with
  | nil => exact trivial
  | cons target rest ih =>
    intro outcome after later picked shown reached eq
    obtain ⟨-, gave⟩ := pick?_eq_some_iff.mp eq
    obtain rfl : (after.pick target).1 = picked := congrArg Prod.fst gave
    obtain rfl : (after.pick target).2 = shown := congrArg Prod.snd gave
    have here := late target List.mem_cons_self
    have onward := @ih _ _ _ later (fun t member => late t (List.mem_cons_of_mem _ member))
      (standing_onward grouped here h reached)
    rw [movedTo_keyframe] at onward
    exact ⟨(advance_serves grouped here h reached).2, onward⟩

/-- A run goes to its end only if there is room for all that is reckoned. -/
theorem reckoned_of_completes (grouped : Grouped table) (targets : List Int)
    (late : ∀ target ∈ targets, Late table target)
    (h : s.Standing table tuning width height depth place handled)
    (same : Sample.keyframeAtOrBefore table last = Sample.keyframeAtOrBefore table place)
    (completes : Completes tuning targets s clock) : Reckoned table tuning last targets := by
  induction targets generalizing place handled s clock last with
  | nil => exact trivial
  | cons target rest ih =>
    obtain ⟨outcome, after, later, picked, shown, reached, eq, onward⟩ := completes
    obtain ⟨-, gave⟩ := pick?_eq_some_iff.mp eq
    obtain rfl : (after.pick target).1 = picked := congrArg Prod.fst gave
    obtain rfl : (after.pick target).2 = shown := congrArg Prod.snd gave
    have here := late target List.mem_cons_self
    obtain ⟨horizon, floor⟩ :=
      (reckons_late_iff grouped here h.ready.placed).mp (advance_begun tuning reached).2
    refine ⟨horizon, same ▸ floor, ih (fun t member => late t (List.mem_cons_of_mem _ member))
      (standing_onward grouped here h reached) (movedTo_keyframe table place target).symm onward⟩

theorem completes_of_reckoned (grouped : Grouped table) (deep : depth < max tuning.depth 1)
    (targets : List Int) (late : ∀ target ∈ targets, Late table target)
    (apart : ∀ target ∈ targets, ∀ x ∈ table, Comparable x.timestamp target)
    (h : s.Standing table tuning width height depth place handled)
    (same : Sample.keyframeAtOrBefore table last = Sample.keyframeAtOrBefore table place)
    (reckoned : Reckoned table tuning last targets) : Completes tuning targets s clock := by
  induction targets generalizing place handled s clock last with
  | nil => exact trivial
  | cons target rest ih =>
    obtain ⟨horizon, floor, reckoned⟩ := reckoned
    have here := late target List.mem_cons_self
    have reckons := (reckons_late_iff grouped here h.ready.placed).mpr ⟨horizon, same ▸ floor⟩
    obtain ⟨outcome, after, reached⟩ := advance_reaches grouped deep h.ready reckons clock
    have loaded := (advance_serves grouped here h reached).1
    have reaches : after.queue.reaches target = true := by
      refine List.all_eq_true.mpr fun f member => ?_
      obtain ⟨x, listed, rfl⟩ := loaded.own f member
      exact decide_eq_true (apart target List.mem_cons_self x (mem_of_group listed)).distance
    refine ⟨outcome, after, clock, _, _, reached, pick?_eq_some_iff.mpr ⟨reaches, rfl⟩, ?_⟩
    exact ih (fun t member => late t (List.mem_cons_of_mem _ member))
      (fun t member => apart t (List.mem_cons_of_mem _ member))
      (standing_onward grouped here h reached) (movedTo_keyframe table place target).symm reckoned

end Run

section Words
variable {K : Type} {source : Source K} {table : List Sample} {tuning : SlotTuning}

/-- A slot can be opened backwards at a target, and reaches all of those that follow. -/
def OpensAndCompletes (source : Source K) (clip : String) (table : List Sample) (tuning : SlotTuning)
    (opening : Int) (targets : List Int) (clock : Clock) : Prop :=
  ∃ s, start? clip table (Decoder.ofSource source) true tuning opening = some s ∧
    Completes tuning targets s clock

/-- A healthy reversed slot whose decoder holds fewer frames than the depth lets in serves its
targets, each from the whole of its group, as far as it goes. It goes to their end only if there is
room for all that is reckoned; and if there is, it does, when the targets are a word apart from the
samples. -/
theorem reversed_playback_rewinds_iff (healthy : source.stalled = false)
    (intact : source.corrupt = none) (grouped : Grouped table)
    (deep : source.reorderDepth < max tuning.depth 1) (clip : String) (opening : Int)
    (targets : List Int) (late : ∀ target ∈ targets, Late table target) (clock : Clock) :
    (∀ s, start? clip table (Decoder.ofSource source) true tuning opening = some s →
      Rewinds table tuning source.width source.height (Sample.keyframeAtOrBefore table opening) []
        targets s clock) ∧
    (OpensAndCompletes source clip table tuning opening targets clock →
      Opens table true tuning opening ∧ Reckoned table tuning opening targets) ∧
    ((∀ target ∈ targets, ∀ x ∈ table, Comparable x.timestamp target) →
      Opens table true tuning opening → Reckoned table tuning opening targets →
      OpensAndCompletes source clip table tuning opening targets clock) := by
  have sound : (Decoder.ofSource source).Sound source.reorderDepth := ⟨rfl, healthy, rfl⟩
  have standing : (start clip table (Decoder.ofSource source) true tuning opening).Standing table
      tuning source.width source.height source.reorderDepth opening [] :=
    .inl ⟨rfl, start_blank grouped clip sound rfl rfl intact⟩
  refine ⟨?_, ?_, ?_⟩
  · intro s opened
    obtain rfl := (start?_eq_some_iff.mp opened).2
    exact standing_rewinds grouped targets late standing
  · rintro ⟨s, opened, completes⟩
    obtain ⟨opens, rfl⟩ := start?_eq_some_iff.mp opened
    exact ⟨opens, reckoned_of_completes grouped targets late standing rfl completes⟩
  · intro apart opens reckoned
    exact ⟨_, start?_eq_some_iff.mpr ⟨opens, rfl⟩,
      completes_of_reckoned grouped deep targets late apart standing rfl reckoned⟩

def shuffledGroup : List Sample :=
  [⟨lowBytes 8 0, 0, 100000, true⟩, ⟨lowBytes 8 1, 200000, 100000, false⟩,
    ⟨lowBytes 8 2, 100000, 100000, false⟩, ⟨lowBytes 8 3, 300000, 100000, true⟩]

theorem shuffledGroup_grouped : Grouped shuffledGroup where
  opens := ⟨_, rfl, rfl⟩
  earliest := by
    intro k member y stands
    have starts : ∀ k ∈ Sample.keyframes shuffledGroup, k = 0 ∨ k = 3 := by decide
    rcases starts k member with rfl | rfl
    · cases stands
      decide
    · cases stands
      decide
  whole := by decide

theorem reversed_playback_rewinds_iff_shuffledGroup :
    let targets : List Int := [350000, 300000, 160000, 140000, 40000, 310000]
    let opened := start "c1" shuffledGroup (Decoder.ofSource promptSource) true shortSighted 250000
    promptSource.stalled = false ∧ promptSource.corrupt = none ∧ Grouped shuffledGroup ∧
      promptSource.reorderDepth < max shortSighted.depth 1 ∧
      (∀ target ∈ targets, Late shuffledGroup target) ∧
      Rewinds shuffledGroup shortSighted 1 1 (Sample.keyframeAtOrBefore shuffledGroup 250000) []
        targets opened (Clock.stepping 1000) ∧
      Completes shortSighted targets opened (Clock.stepping 1000) := by
  intro targets opened
  have late : ∀ target ∈ targets, Late shuffledGroup target := by
    have checked : ∀ target ∈ targets, 0 ≤ target := by decide
    rintro target member x ⟨⟩
    exact checked target member
  have apart : ∀ target ∈ targets, ∀ x ∈ shuffledGroup, Comparable x.timestamp target := by
    have fits : ∀ target ∈ targets, ∀ x ∈ shuffledGroup,
        Fits (x.timestamp - target) ∧ Fits (target - x.timestamp) := by decide
    intro target member x listed
    exact ⟨(fits target member x listed).1, (fits target member x listed).2⟩
  have opens : Opens shuffledGroup true shortSighted 250000 := by decide
  have reckoned : Reckoned shuffledGroup shortSighted 250000 targets := by
    refine ⟨?_, ?_, ?_, ?_, ?_, ?_, ?_, ?_, ?_, ?_, ?_, ?_, trivial⟩ <;> decide
  obtain ⟨served, -, completes⟩ := reversed_playback_rewinds_iff
    (rfl : promptSource.stalled = false) rfl shuffledGroup_grouped
    (by decide : promptSource.reorderDepth < max shortSighted.depth 1) "c1" 250000 targets late
    (Clock.stepping 1000)
  obtain ⟨s, started, whole⟩ := completes apart opens reckoned
  obtain rfl := (start?_eq_some_iff.mp started).2
  exact ⟨rfl, rfl, shuffledGroup_grouped, by decide, late, served _ started, whole⟩

def earlyGroup : List Sample :=
  [⟨lowBytes 8 0, -200000, 100000, true⟩, ⟨lowBytes 8 1, -100000, 100000, false⟩,
    ⟨lowBytes 8 2, 0, 100000, false⟩, ⟨lowBytes 8 3, 100000, 100000, false⟩]

theorem earlyGroup_grouped : Grouped earlyGroup where
  opens := ⟨_, rfl, rfl⟩
  earliest := by
    intro k member y stands
    have starts : ∀ k ∈ Sample.keyframes earlyGroup, k = 0 := by decide
    obtain rfl := starts k member
    cases stands
    decide
  whole := by decide

def tolerant : SlotTuning := ⟨0, 9223372036854775000, 4, 100000⟩

/-- With the widest tolerance a slot cannot be opened on a group that begins before 0. -/
theorem reversed_slot_not_opened :
    Grouped earlyGroup ∧ Late earlyGroup 0 ∧ promptSource.reorderDepth < max tolerant.depth 1 ∧
      start? "c1" earlyGroup (Decoder.ofSource promptSource) true tolerant 0 = none := by
  refine ⟨earlyGroup_grouped, ?_, by decide, if_neg (by decide)⟩
  rintro x ⟨⟩
  decide

end Words

end Montage.Slot
