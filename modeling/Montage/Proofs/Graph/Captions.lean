import Montage.Proofs.Graph.TopClip
import Montage.Proofs.Graph.Wiring
import Montage.Proofs.Sorting
import Montage.Proofs.Timeline.Placement

/- The texts over the picture. A graph switches on the texts that are drawn on the layers at the
   same time, but in another order: it sorts them by start, while layers lie over one another
   track by track. -/
namespace Montage

namespace Graph

section Titles
variable {K : Type}

def Filter.titling? : Filter K → Option (Titling K)
  | .titling t => some t
  | _ => none

def titles (chains : List (Chain K)) : List (Titling K) :=
  (chains.flatMap (·.filters)).filterMap Filter.titling?

theorem titles_append (a b : List (Chain K)) : titles (a ++ b) = titles a ++ titles b := by
  simp [titles]

theorem titles_ofSpan {chains : List (Chain K)} (own : ∀ c ∈ chains, OfSpan c.filters) :
    titles chains = [] := by
  unfold titles
  rw [List.filterMap_eq_nil_iff]
  intro f member
  obtain ⟨c, listed, inside⟩ := List.mem_flatMap.mp member
  have here := own c listed f inside
  cases f with
  | titling => cases here
  | _ => rfl

theorem add_untitled (d : Draft K) {chains : List (Chain K)} (none : titles chains = []) :
    titles (d.add chains).chains = titles d.chains := by
  rw [Draft.add, titles_append, none, List.append_nil]

def Untitled (step : Draft K → Span K → Draft K × Label × Segment K) : Prop :=
  ∀ d span, titles (step d span).1.chains = titles d.chains

theorem addSpans_untitled {step : Draft K → Span K → Draft K × Label × Segment K}
    (untitled : Untitled step) (d : Draft K) (spans : List (Span K)) :
    titles (addSpans step d spans).1.chains = titles d.chains := by
  induction spans generalizing d with
  | nil => rfl
  | cons span spans ih => exact (ih _).trans (untitled d span)

theorem mixdown_untitled (labels : List Label) : titles (mixdown labels : List (Chain K)) = [] := by
  unfold mixdown
  split <;> rfl

variable [Scalar K]

theorem videoClip_ofSpan (s : Scheduled K) (span : Span K) (input : Nat)
    (settings : RenderSettings K) (backdrop : Nat) (out : Label) :
    ∀ c ∈ videoClipChains s span input settings backdrop out, OfSpan c.filters := by
  have material := material_ofSpan s span settings.framerate
  unfold videoClipChains
  dsimp only
  split
  · simp [material, framing_ofSpan, heldFor, Filter.ofSpan]
  · simp [material, heldFor, Filter.ofSpan]

theorem addVideoSpan_untitled (clips : List (Scheduled K)) (settings : RenderSettings K) :
    Untitled (addVideoSpan clips settings) := by
  intro d span
  unfold addVideoSpan
  cases span.winner.bind fun i => clips[i]? with
  | none => exact add_untitled d.fresh.2 rfl
  | some s =>
    refine (add_untitled _ (titles_ofSpan (videoClip_ofSpan s span _ settings _ _))).trans ?_
    exact congrArg titles (inputFor_chains d.fresh.2 s.media.path)

theorem addAudioSpan_untitled (clips : List (Scheduled K)) (shape : AudioShape) :
    Untitled (addAudioSpan clips shape) := by
  intro d span
  unfold addAudioSpan
  cases span.winner.bind fun i => clips[i]? with
  | none => exact add_untitled d.fresh.2 rfl
  | some s =>
    refine (add_untitled _ (titles_ofSpan ?_)).trans ?_
    · simpa using audioClip_ofSpan s span _ shape _
    · exact congrArg titles (inputFor_chains d.fresh.2 s.media.path)

theorem addAudioTracks_untitled (shape : AudioShape) (duration : K)
    (tracks : List (List (Scheduled K))) (d : Draft K) :
    titles (addAudioTracks shape duration d tracks).1.chains = titles d.chains := by
  induction tracks generalizing d with
  | nil => rfl
  | cons clips tracks ih =>
    have track : titles (addAudioTrack shape duration d clips).1.chains = titles d.chains :=
      (add_untitled _ rfl).trans (addSpans_untitled (addAudioSpan_untitled clips shape) d _)
    exact (ih _).trans track

/-- A graph draws the titlings of the clips sorted by start, and each reads a file of its own. -/
theorem compile_titles {p : Project K} {settings : RenderSettings K} {options : Options}
    {g : Compiled K} (compiled : compile p settings options = some g) :
    titles g.chains = (titlings options (byStart p.playedVideo)).map (·.1) ∧
      g.textFiles = (titlings options (byStart p.playedVideo)).map fun t => (t.1.textPath, t.2) := by
  unfold compile at compiled
  dsimp only at compiled
  split at compiled
  · cases compiled
  · obtain rfl := Option.some.inj compiled
    refine ⟨?_, rfl⟩
    generalize titlings options (byStart p.playedVideo) = titled
    refine (add_untitled _ (mixdown_untitled _)).trans
      ((addAudioTracks_untitled _ p.duration p.playedAudioTracks _).trans ?_)
    rw [Draft.add, titles_append, addSpans_untitled (addVideoSpan_untitled _ settings)]
    have drawn : (titled.map fun t => Filter.titling t.1).filterMap Filter.titling? =
        titled.map (·.1) := by
      rw [List.filterMap_map, ← List.filterMap_eq_map]
      rfl
    cases titled with
    | nil => rfl
    | cons t titled =>
      rw [← drawn, List.map_cons, List.filterMap_cons]
      change _ :: List.filterMap _ (_ ++ []) = _
      rw [List.append_nil]
      rfl

end Titles

/-- What one sees of a text, which is none where its file is missing. -/
structure Caption (K : Type) where
  text : Option String
  color : Color
  size : K
  x : K
  y : K

def Titling.caption {K : Type} (files : List (String × String)) (t : Titling K) : Caption K :=
  ⟨files.lookup t.textPath, t.color, t.size, t.x, t.y⟩

/-- The texts that a graph has switched on at a time, from the bottom to the top. -/
def Compiled.captionsAt (g : Compiled Rat) (t : Rat) : List (Caption Rat) :=
  ((titles g.chains).filter fun x => decide (x.start ≤ t) && decide (t ≤ x.stop)).map
    (·.caption g.textFiles)

end Graph

/-- How a graph shows a text: in whole pixels, one at least. -/
def TextOverlay.caption {K : Type} [Scalar K] (o : TextOverlay K) : Graph.Caption K :=
  ⟨some o.text, o.rgba, Scalar.max (Scalar.round o.fontSize) 1, o.x, o.y⟩

namespace Graph

theorem textPath_injective (options : Options) : Function.Injective (textPath options) := by
  have relative : ∀ n : Nat, Path.isAbsolute ("text_" ++ toString n ++ ".txt") = false := by
    intro n
    simp [Path.isAbsolute]
  have names : ∀ m n : Nat, "text_" ++ toString m ++ ".txt" = "text_" ++ toString n ++ ".txt" →
      m = n := by
    intro m n same
    rw [String.append_left_inj, String.append_right_inj] at same
    have digits : Nat.toDigits 10 m = Nat.toDigits 10 n := by
      simpa using congrArg String.toList same
    exact digits_injective digits
  intro m n same
  simp only [textPath, Path.join, relative, Bool.false_eq_true, if_false] at same
  split at same
  · exact names m n ((String.append_right_inj _).mp same)
  · exact names m n ((String.append_right_inj _).mp same)

theorem textFile_lookup {options : Options} {clips : List (Scheduled Rat)} {n : Nat}
    {x : TextOverlay Rat × Rat × Rat} (stands : (shownTexts clips)[n]? = some x) :
    ((titlings options clips).map fun t => (t.1.textPath, t.2)).lookup (textPath options n) =
      some x.1.text := by
  have form : (titlings options clips).map (fun t => (t.1.textPath, t.2)) =
      (shownTexts clips).zipIdx.map fun x => (textPath options x.2, x.1.1.text) := by
    rw [titlings, List.map_map]
    rfl
  obtain ⟨inside, rfl⟩ := List.getElem?_eq_some_iff.mp stands
  have split := List.take_append_drop n (shownTexts clips).zipIdx
  rw [List.drop_eq_getElem_cons (by simpa using inside), List.getElem_zipIdx] at split
  rw [form, List.lookup_eq_some_iff, ← split]
  refine ⟨_, _, by rw [List.map_append, List.map_cons, Nat.zero_add], ?_⟩
  intro y member
  obtain ⟨⟨z, i⟩, early, rfl⟩ := List.mem_map.mp member
  obtain ⟨j, below, same⟩ := List.mem_take_iff_getElem.mp early
  rw [List.getElem_zipIdx, Prod.mk.injEq] at same
  rw [bne_iff_ne]
  intro again
  have later := textPath_injective options again
  omega

/-- No text ends at the time: a graph shows it then, and layers do not. -/
def Aside (clips : List (Scheduled Rat)) (t : Rat) : Prop :=
  ∀ s ∈ clips, ∀ o, s.clip.textOverlay = some o → t ≠ (s.textSpan o).2

theorem textAt?_eq (s : Scheduled Rat) (t : Rat) : s.textAt? t = s.clip.textOverlay.bind fun o =>
    if (s.textSpan o).1 ≤ t ∧ t < (s.textSpan o).2 then some o else none := by
  unfold Scheduled.textAt?
  cases s.clip.textOverlay <;> rfl

theorem shownTexts_at {clips : List (Scheduled Rat)} {t : Rat} (aside : Aside clips t) :
    ((shownTexts clips).filter fun x => decide (x.2.1 ≤ t) && decide (t ≤ x.2.2)).map (·.1) =
      (textsAt clips t).filter fun o => decide (o.text ≠ "") := by
  unfold shownTexts textsAt
  rw [List.filter_filterMap, List.map_filterMap, List.filter_filterMap]
  apply List.filterMap_congr
  intro s member
  rw [textAt?_eq]
  cases texted : s.clip.textOverlay with
  | none => rfl
  | some o =>
    have ended := aside s member o texted
    have window : textWindow s o = s.textSpan o := rfl
    simp only [Option.bind_some, window]
    generalize s.textSpan o = w at ended ⊢
    by_cases shows : w.1 ≤ t ∧ t < w.2
    · have lasts : ¬ w.2 ≤ w.1 := not_le.mpr (shows.1.trans_lt shows.2)
      by_cases blank : o.text = ""
      · simp [Option.filter, blank, shows]
      · simp [Option.filter, blank, shows, lasts, shows.2.le]
    · have outside : ¬ (w.1 ≤ t ∧ t ≤ w.2) :=
        fun inside => shows ⟨inside.1, lt_of_le_of_ne inside.2 ended⟩
      by_cases hidden : o.text = "" ∨ w.2 ≤ w.1
      · simp [hidden, shows]
      · simp [Option.filter, hidden, shows, outside]

theorem captionsAt_texts {p : Project Rat} {settings : RenderSettings Rat} {options : Options}
    {g : Compiled Rat} {t : Rat} (compiled : compile p settings options = some g)
    (aside : Aside (byStart p.playedVideo) t) :
    g.captionsAt t = ((textsAt (byStart p.playedVideo) t).filter
      fun o => decide (o.text ≠ "")).map (·.caption) := by
  obtain ⟨drawn, files⟩ := compile_titles compiled
  have read : ∀ x ∈ (shownTexts (byStart p.playedVideo)).zipIdx,
      g.textFiles.lookup (textPath options x.2) = some x.1.1.text := by
    intro x member
    rw [files]
    exact textFile_lookup (List.mem_zipIdx_iff_getElem?.mp member)
  have keys : (shownTexts (byStart p.playedVideo)).zipIdx.map (·.1) =
      shownTexts (byStart p.playedVideo) := List.zipIdx_map_fst 0 _
  rw [← shownTexts_at aside, List.map_map, ← keys, Compiled.captionsAt, drawn, titlings,
    List.map_map, List.filter_map, List.filter_map, List.map_map, List.map_map]
  apply List.map_congr_left
  intro x member
  have text := read x (List.mem_of_mem_filter member)
  change Caption.mk (g.textFiles.lookup (textPath options x.2)) _ _ _ _ = _
  rw [text]
  rfl

end Graph

/-- Layers draw nothing of other texts. -/
def TextOverlay.legible (o : TextOverlay Rat) : Bool := decide (o.text ≠ "") && decide (0 < o.fontSize)

theorem drawTexts_legible (S : Type) [Scalar S] [Narrowing Rat S] (canvas : Image)
    (face : Option (Typeface S)) (texts : List (TextOverlay Rat)) :
    canvas.drawTexts S face texts = canvas.drawTexts S face (texts.filter (·.legible)) := by
  cases face with
  | none => rfl
  | some f =>
    have nothing : ∀ (canvas : Image) (o : TextOverlay Rat), o.legible = false →
        canvas.drawText S f o = canvas := by
      intro canvas o hidden
      refine if_pos ?_
      simpa [TextOverlay.legible, or_iff_not_imp_left] using hidden
    change texts.foldl _ canvas = (texts.filter _).foldl _ canvas
    induction texts generalizing canvas with
    | nil => rfl
    | cons o texts ih =>
      cases form : o.legible with
      | true => rw [List.filter_cons_of_pos form, List.foldl_cons, List.foldl_cons, ih]
      | false => rw [List.filter_cons_of_neg (by simp [form]), List.foldl_cons, nothing _ o form, ih]

namespace Scheduled

/-- A text of the clip is drawn at the time. -/
def captioned (t : Rat) (s : Scheduled Rat) : Bool := (s.textAt? t).any (·.legible)

/-- Begins before the other one does, or together with it on the same track. -/
def InStep (a b : Scheduled Rat) : Prop :=
  a.timing.start < b.timing.start ∨ a.timing.start = b.timing.start ∧ a.trackIndex = b.trackIndex

instance (a b : Scheduled Rat) : Decidable (a.InStep b) := inferInstanceAs (Decidable (_ ∨ _))

end Scheduled

theorem textsAt_legible (clips : List (Scheduled Rat)) (t : Rat) :
    (textsAt clips t).filter (·.legible) =
      (clips.filter (·.captioned t)).filterMap (·.textAt? t) := by
  unfold textsAt
  rw [List.filter_filterMap, List.filterMap_filter]
  apply List.filterMap_congr
  intro s member
  unfold Scheduled.captioned
  cases s.textAt? t with
  | none => rfl
  | some o => rfl

namespace Project

theorem layers_perm (p : Project Rat) : p.layers.Perm p.playedVideo := by
  have groups := groups_flatten (playedVideo_sorted p) fun s member => playedVideo_track member
  have own : p.layers = (List.range p.tracks.length).reverse.flatMap fun i =>
      p.playedVideo.filter fun s => s.trackIndex == i := by
    refine List.flatMap_congr fun i _ => ?_
    apply List.filter_congr
    intro s member
    simp [playedVideo_lasts member]
  rw [own]
  conv_rhs => rw [← groups]
  exact (List.reverse_perm _).flatMap_right _

/-- Clips lie over one another in the order of their starts exactly when each begins after those
beneath it, or together with them on one track. -/
theorem layers_byStart_iff (p : Project Rat) (shown : Scheduled Rat → Bool) :
    p.layers.filter shown = (Graph.byStart p.playedVideo).filter shown ↔
      (p.layers.filter shown).Pairwise Scheduled.InStep := by
  have tracks := (layers_sorted p).filter shown
  have starts := (Graph.byStart_sorted p.playedVideo).filter shown
  constructor
  · intro same
    rw [← same] at starts
    refine (starts.and tracks).imp ?_
    rintro a b ⟨first, lower⟩
    rcases (Graph.startsFirst_iff a b).mp first with less | ⟨together, higher⟩
    · exact .inl less
    · exact .inr ⟨together, le_antisymm higher lower⟩
  · intro inStep
    have sorted : (p.layers.filter shown).Pairwise fun a b => Graph.startsFirst a b = true := by
      refine inStep.imp ?_
      rintro a b (less | ⟨together, same⟩)
      · exact (Graph.startsFirst_iff a b).mpr (.inl less)
      · exact (Graph.startsFirst_iff a b).mpr (.inr ⟨together, same.le⟩)
    refine sorted_unique ?_ sorted starts ?_
    · intro a
      exact (Graph.startsFirst_iff a a).mpr (.inr ⟨rfl, le_refl _⟩)
    · intro a either
      have member : a ∈ p.playedVideo := by
        rcases either with drawn | sorted
        · exact mem_layers.mp (List.mem_of_mem_filter drawn)
        · exact Graph.byStart_mem.mp (List.mem_of_mem_filter sorted)
      -- clips that begin together on one track keep the order in which they were put there
      have together : ∀ x, ((Graph.startsFirst a x && Graph.startsFirst x a) && shown x) = true →
          x.timing.start = a.timing.start ∧ x.trackIndex = a.trackIndex := by
        intro x level
        simp only [Bool.and_eq_true] at level
        have first := (Graph.startsFirst_iff a x).mp level.1.1
        have second := (Graph.startsFirst_iff x a).mp level.1.2
        rcases first with less | ⟨same, lower⟩
        · rcases second with less' | ⟨same', -⟩
          · linarith
          · linarith
        · rcases second with less' | ⟨-, higher⟩
          · linarith
          · exact ⟨same.symm, le_antisymm higher lower⟩
      rw [List.filter_filter, List.filter_filter,
        layers_filter (playedVideo_track member) fun x level => (together x level).2,
        Graph.byStart_filter]
      intro x y hx hy
      have first := together x hx
      have second := together y hy
      exact ⟨first.1.trans second.1.symm, first.2.trans second.2.symm⟩

end Project

/-- Lists of the same members that a mapping tells apart are one where their images are. -/
theorem perm_eq_of_map_eq {α β : Type} {f : α → β} {a b : List α} (perm : a.Perm b)
    (apart : (a.map f).Nodup) (same : a.map f = b.map f) : a = b := by
  refine List.ext_getElem perm.length_eq ?_
  intro i first second
  have images : f a[i] = f b[i] := by
    have entry := congrArg (·[i]?) same
    simpa [first, second] using entry
  exact List.inj_on_of_nodup_map apart (List.getElem_mem first)
    (perm.mem_iff.mpr (List.getElem_mem second)) images

/-- Captions of the legible texts of some clips, each under its clip. -/
theorem captions_map (clips : List (Scheduled Rat)) (t : Rat) :
    (((textsAt clips t).filter (·.legible)).map (·.caption)).map some =
      (clips.filter (·.captioned t)).map fun s => (s.textAt? t).map (·.caption) := by
  rw [textsAt_legible, List.map_map, List.map_filterMap, ← List.filterMap_eq_map]
  apply List.filterMap_congr
  intro s member
  have shown := List.of_mem_filter member
  rw [Scheduled.captioned] at shown
  cases texted : s.textAt? t with
  | none =>
    rw [texted] at shown
    cases shown
  | some o => simp [texted]

namespace Graph

/-- What a graph shows, if it is what is drawn on the layers, leaves out no text. -/
theorem captions_sized {clips layers : List (Scheduled Rat)} {t : Rat} (perm : layers.Perm clips)
    (same : ((textsAt clips t).filter fun o => decide (o.text ≠ "")).map (·.caption) =
      ((textsAt layers t).filter (·.legible)).map (·.caption)) :
    ∀ o ∈ textsAt layers t, o.text ≠ "" → 0 < o.fontSize := by
  have texts : (textsAt layers t).Perm (textsAt clips t) := perm.filterMap _
  have counts := congrArg List.length same
  rw [List.length_map, List.length_map, ← (texts.filter _).length_eq] at counts
  have fewer : (textsAt layers t).filter (·.legible) =
      ((textsAt layers t).filter fun o => decide (o.text ≠ "")).filter
        fun o => decide (0 < o.fontSize) := by
    rw [List.filter_filter]
    apply List.filter_congr
    intro o member
    simp [TextOverlay.legible, Bool.and_comm]
  rw [fewer, eq_comm, List.length_filter_eq_length_iff] at counts
  intro o member worded
  exact of_decide_eq_true (counts o (List.mem_filter.mpr ⟨member, decide_eq_true worded⟩))

/-- A graph shows at a time the texts that are drawn on the layers then, one over the other in the
order of their clips' starts; on the layers the lower track lies on top. The two orders are one
exactly when each clip with a text begins after those beneath it, or together with them on the
same track. A text of no size is shown by a graph and never drawn on the layers; where there is
none, and no caption is there twice, both show the same captions exactly when the orders are one. -/
theorem captions_in_step_iff {p : Project Rat} {t : Rat} (settings : RenderSettings Rat)
    (options : Options) (lasts : 0 < p.duration) (aside : Aside p.playedVideo t) :
    ∃ g, compile p settings options = some g ∧
      g.captionsAt t = ((textsAt (byStart p.playedVideo) t).filter
        fun o => decide (o.text ≠ "")).map (·.caption) ∧
      (∀ (S : Type) [Scalar S] [Narrowing Rat S] (canvas : Image) (face : Option (Typeface S)),
        canvas.drawTexts S face (textsAt p.layers t) =
          canvas.drawTexts S face ((textsAt p.layers t).filter (·.legible))) ∧
      (p.layers.filter (·.captioned t)).Perm ((byStart p.playedVideo).filter (·.captioned t)) ∧
      (p.layers.filter (·.captioned t)).Pairwise (fun a b => b.trackIndex ≤ a.trackIndex) ∧
      (p.layers.filter (·.captioned t) = (byStart p.playedVideo).filter (·.captioned t) ↔
        (p.layers.filter (·.captioned t)).Pairwise Scheduled.InStep) ∧
      ((p.layers.filter (·.captioned t)).Pairwise Scheduled.InStep →
        (∀ o ∈ textsAt p.layers t, o.text ≠ "" → 0 < o.fontSize) →
        g.captionsAt t = ((textsAt p.layers t).filter (·.legible)).map (·.caption)) ∧
      (g.captionsAt t = ((textsAt p.layers t).filter (·.legible)).map (·.caption) →
        (∀ o ∈ textsAt p.layers t, o.text ≠ "" → 0 < o.fontSize) ∧
        ((((textsAt p.layers t).filter (·.legible)).map (·.caption)).Nodup →
          (p.layers.filter (·.captioned t)).Pairwise Scheduled.InStep)) := by
  obtain ⟨g, compiled, -⟩ := compile_video settings options lasts
  have texts := captionsAt_texts compiled fun s member => aside s (byStart_mem.mp member)
  have order := p.layers_byStart_iff (·.captioned t)
  have same : p.layers.Perm (byStart p.playedVideo) :=
    p.layers_perm.trans (List.mergeSort_perm _ _).symm
  have shown (sized : ∀ o ∈ textsAt p.layers t, o.text ≠ "" → 0 < o.fontSize) :
      g.captionsAt t = ((textsAt (byStart p.playedVideo) t).filter (·.legible)).map (·.caption) := by
    rw [texts]
    congr 1
    apply List.filter_congr
    intro o member
    have listed : o ∈ textsAt p.layers t := (same.filterMap _).mem_iff.mpr member
    by_cases worded : o.text = ""
    · simp [TextOverlay.legible, worded]
    · simp [TextOverlay.legible, sized o listed worded]
  refine ⟨g, compiled, texts, fun S _ _ canvas face => drawTexts_legible S canvas face _,
    same.filter _, p.layers_sorted.filter _, order, ?_, ?_⟩
  · intro inStep sized
    rw [shown sized, textsAt_legible, ← order.mpr inStep, ← textsAt_legible]
  · intro agree
    have sized := captions_sized same (texts.symm.trans agree)
    refine ⟨sized, ?_⟩
    intro apart
    rw [shown sized] at agree
    have images := congrArg (List.map some) agree
    rw [captions_map, captions_map] at images
    have distinct := apart.map (Option.some_injective (Caption Rat))
    rw [captions_map] at distinct
    exact order.mp (perm_eq_of_map_eq (same.filter _) distinct images.symm)

def titled (text : String) (start : Rat) : Clip Rat :=
  { Clip.new text "m" start with
    textOverlay := some ⟨text, 1 / 2, 1 / 2, 20, "#ffffff", 0, none⟩ }

def twoTitles (top under : Rat) : Project Rat :=
  { oneTrack [] with
    tracks := [⟨"over", .video, [titled "top" top], false⟩,
      ⟨"below", .video, [titled "under" under], false⟩] }

theorem twoTitles_layers : ∀ top ∈ [(0 : Rat), 2], ∀ under ∈ [(0 : Rat), 2],
    0 < (twoTitles top under).duration ∧
      (textsAt (twoTitles top under).layers 5).map (·.text) = ["under", "top"] ∧
      ∀ s ∈ (twoTitles top under).playedVideo, ∀ o ∈ s.clip.textOverlay.toList,
        5 ≠ (s.textSpan o).1 ∧ 5 ≠ (s.textSpan o).2 := by
  decide +kernel

theorem captions_in_step_iff_twoTitles :
    ∃ g, compile (twoTitles 2 0) (framed 10) plainOptions = some g ∧
      (g.captionsAt 5).map (·.text) = [some "under", some "top"] ∧
      (textsAt (twoTitles 2 0).layers 5).map (·.text) = ["under", "top"] := by
  obtain ⟨lasts, drawn, ends⟩ := twoTitles_layers 2 (by simp) 0 (by simp)
  have aside : Aside (twoTitles 2 0).playedVideo 5 :=
    fun s member o texted => (ends s member o (by simp [texted])).2
  obtain ⟨g, compiled, -, -, -, -, -, agree, -⟩ :=
    captions_in_step_iff (framed 10) plainOptions lasts aside
  refine ⟨g, compiled, ?_, drawn⟩
  rw [agree (by decide +kernel) (by decide +kernel)]
  decide +kernel

/-- The clip on the upper track begins first: its text is beneath the other one in a graph, and
over it on the layers. -/
theorem upper_title_beneath :
    ∃ g, compile (twoTitles 0 2) (framed 10) plainOptions = some g ∧
      (g.captionsAt 5).map (·.text) = [some "top", some "under"] ∧
      (textsAt (twoTitles 0 2).layers 5).map (·.text) = ["under", "top"] ∧
      ∀ s ∈ (twoTitles 0 2).playedVideo, ∀ o ∈ s.clip.textOverlay.toList,
        5 ≠ (s.textSpan o).1 ∧ 5 ≠ (s.textSpan o).2 := by
  obtain ⟨lasts, drawn, ends⟩ := twoTitles_layers 0 (by simp) 2 (by simp)
  have ordered : (twoTitles 0 2).playedVideo.Pairwise fun a b => startsFirst a b = true := by
    decide +kernel
  have sorted : byStart (twoTitles 0 2).playedVideo = (twoTitles 0 2).playedVideo :=
    List.mergeSort_of_pairwise ordered
  have aside : Aside (byStart (twoTitles 0 2).playedVideo) 5 :=
    fun s member o texted => (ends s (byStart_mem.mp member) o (by simp [texted])).2
  obtain ⟨g, compiled, -⟩ := compile_video (framed 10) plainOptions lasts
  refine ⟨g, compiled, ?_, drawn, ends⟩
  rw [captionsAt_texts compiled aside, sorted]
  decide +kernel

end Graph
end Montage
