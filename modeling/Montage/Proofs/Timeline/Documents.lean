import Montage.Proofs.Json.Records
import Montage.Timeline.Store

/- Every part of a project is read back from the document that is written for it. -/
namespace Montage
open Json Json.Codec Json.Fields

/-- A finite number whose text is read as that number. -/
structure Stored (x : Float) : Prop where
  finite : x.isFinite = true
  read_back : double.parse (Value.number x).compact = .ok x

structure StoredSample (x : Float32) : Prop where
  finite : x.isFinite = true
  read_back : single.parse (Value.sample x).compact = .ok x

/-! The numbers that a project holds. -/

def Transform.numbers (t : Transform Float) : List Float := [t.x, t.y, t.scaleX, t.scaleY, t.rotation]

def TextOverlay.numbers (o : TextOverlay Float) : List Float :=
  o.x :: o.y :: o.fontSize :: o.start :: o.duration.toList

def Effect.numbers : Effect Float → List Float
  | .brightness x | .contrast x | .saturation x => [x]
  | .grayscale => []

def Clip.numbers (c : Clip Float) : List Float :=
  c.startTime :: c.trimStart :: c.trimEnd :: c.speed :: c.opacity ::
    (c.transform.toList.flatMap Transform.numbers ++ (c.crop.toList.flatMap Crop.edges ++
      (c.textOverlay.toList.flatMap TextOverlay.numbers ++ c.effects.flatMap Effect.numbers)))

def Track.numbers (t : Track Float) : List Float := t.clips.flatMap Clip.numbers

namespace MediaFile

def numbers (m : MediaFile Float) : List Float := m.duration :: m.framerate.toList

def samples (m : MediaFile Float) : List Float32 := m.waveform.toList.flatten

def sizes (m : MediaFile Float) : List Nat := m.width.toList ++ m.height.toList

end MediaFile

namespace Project

def numbers (p : Project Float) : List Float :=
  p.framerate :: (p.mediaFiles.flatMap MediaFile.numbers ++ (p.tracks.flatMap Track.numbers ++
    p.transitions.map (·.duration)))

def samples (p : Project Float) : List Float32 := p.mediaFiles.flatMap MediaFile.samples

def sizes (p : Project Float) : List Nat := p.mediaFiles.flatMap MediaFile.sizes

end Project

theorem Stored.readsBack {x : Float} (stored : Stored x) (height : Nat) : double.ReadsBack height x :=
  double_readsBack stored.finite stored.read_back

/-- An optional part reads back when the part does. -/
theorem optional_part {α : Type} {c : Codec α} {x : Option α} {height : Nat}
    (back : ∀ y ∈ x.toList, c.ReadsBack height y) (solid : ∀ y, (c.toValue y).Solid) :
    ∀ y, x = some y → c.ReadsBack height y ∧ (c.toValue y).Solid := by
  rintro y rfl
  exact ⟨back y (List.mem_singleton.mpr rfl), solid y⟩

theorem optional_text {t : Option String} {height : Nat} :
    ∀ y, t = some y → text.ReadsBack height y ∧ (text.toValue y).Solid :=
  optional_part (fun y _ => text_readsBack y) fun _ => trivial

theorem optional_number {x : Option Float} (stored : ∀ y ∈ x.toList, Stored y) {height : Nat} :
    ∀ y, x = some y → double.ReadsBack height y ∧ (double.toValue y).Solid := by
  rintro y rfl
  have number := stored y (List.mem_singleton.mpr rfl)
  exact ⟨number.readsBack height, number.finite⟩

theorem optional_size {n : Option Nat} (fits : ∀ k ∈ n.toList, (k : Int) ≤ unsignedMax 32)
    {height : Nat} : ∀ k, n = some k →
      (natural 32 "u32").ReadsBack height k ∧ ((natural 32 "u32").toValue k).Solid :=
  optional_part (fun k member => natural_readsBack "u32" (by decide) (fits k member)) fun _ => trivial

theorem crop_readsBack {c : Crop Float} (stored : ∀ x ∈ c.edges, Stored x) :
    cropDocument.ReadsBack 1 c := by
  simp only [Crop.edges, List.forall_mem_cons] at stored
  obtain ⟨left, right, top, bottom, -⟩ := stored
  exact imap_readsBack rfl <| record_readsBack (by decide) <|
    .required (left.readsBack 0) <| .required (right.readsBack 0) <|
    .required (top.readsBack 0) <| .required (bottom.readsBack 0) .done

theorem transform_readsBack {t : Transform Float} (stored : ∀ x ∈ t.numbers, Stored x) :
    transformDocument.ReadsBack 1 t := by
  simp only [Transform.numbers, List.forall_mem_cons] at stored
  obtain ⟨x, y, scaleX, scaleY, rotation, -⟩ := stored
  exact imap_readsBack rfl <| record_readsBack (by decide) <|
    .defaulted (x.readsBack 0) <| .defaulted (y.readsBack 0) <|
    .defaulted (scaleX.readsBack 0) <| .defaulted (scaleY.readsBack 0) <|
    .defaulted (rotation.readsBack 0) .done

theorem textOverlay_readsBack {o : TextOverlay Float} (stored : ∀ x ∈ o.numbers, Stored x) :
    textOverlayDocument.ReadsBack 1 o := by
  simp only [TextOverlay.numbers, List.forall_mem_cons] at stored
  obtain ⟨x, y, fontSize, start, duration⟩ := stored
  exact imap_readsBack rfl <| record_readsBack (by decide) <|
    .required (text_readsBack o.text) <| .defaulted (x.readsBack 0) <|
    .defaulted (y.readsBack 0) <| .defaulted (fontSize.readsBack 0) <|
    .defaulted (text_readsBack o.color) <| .defaulted (start.readsBack 0) <|
    .optional (optional_number duration) .done

/-! Effects: the tag comes first. -/

namespace EffectDocument
variable {sp : Spacing} (lawful : sp.Lawful) (level : Nat) {depth : Nat} (s : List Char)
include lawful

theorem others_none (tag : Option Kind) {fuel : Nat} (enough : 0 < fuel) :
    readFieldsFuel depth fuel false tag (Value.writeFields sp level [] ++ s) = .ok ((tag, []), s) := by
  obtain ⟨fuel, rfl⟩ := Nat.exists_eq_succ_of_ne_zero (by omega : fuel ≠ 0)
  rw [readFieldsFuel, fields_end lawful]
  rfl

theorem others_strength {x : Float} (stored : Stored x) (deep : 0 < depth) :
    ∃ v, double.ofValue v = .ok x ∧ ∀ (tag : Option Kind) (fuel : Nat), 1 < fuel →
      readFieldsFuel depth fuel false tag (Value.writeFields sp level [(valueName, .number x)] ++ s) =
        .ok ((tag, [(valueName, v)]), s) := by
  obtain ⟨v, value, kept⟩ := double_kept stored.finite stored.read_back
  obtain ⟨depth, rfl⟩ := Nat.exists_eq_succ_of_ne_zero (by omega : depth ≠ 0)
  have apart := apart_fields lawful level [] s
  obtain ⟨gap, blank, after⟩ := colon_gap lawful ((Value.number x).write sp (level + 1) ++
    (Value.writeFields sp level [] ++ s))
  have other : valueName ≠ tagName := by decide
  refine ⟨v, value, fun tag fuel enough => ?_⟩
  obtain ⟨fuel, rfl⟩ := Nat.exists_eq_succ_of_ne_zero (by omega : fuel ≠ 0)
  rw [readFieldsFuel, fields_next lawful]
  simp only [ok_bind, entryText, readString_unquoted, if_neg other, after,
    kept sp (level + 1) depth gap _ blank apart, others_none lawful level s tag (by omega : 0 < fuel),
    pure_ok]

/-- An effect is what its tag and its other entries make. -/
theorem tagged_read {name : String} (kind : Kind) (named : nameIndex kinds name = .ok kind)
    {others entries : List (String × Value)} {e : Effect Float} (deep : 1 < depth)
    (rest : ∀ (tag : Option Kind) (fuel : Nat), others.length < fuel →
      readFieldsFuel (depth - 1) fuel false tag (Value.writeFields sp level others ++ s) =
        .ok ((tag, entries), s))
    (built : build kind (.fields entries) = .ok e) {pad : List Char} (blank : Blank pad) :
    read depth (pad ++ ((tagged name others).write sp level ++ s)) = .ok (e, s) := by
  have brace : isBlank '\x7b' = false := rfl
  obtain ⟨r, text, count, next⟩ := object_next lawful level (tagName, .text name) others s
  obtain ⟨gap, blankGap, after⟩ := colon_gap lawful ((Value.text name).write sp (level + 1) ++
    (Value.writeFields sp level others ++ s))
  have tag : readName kinds (depth - 1) (gap ++ ((Value.text name).write sp (level + 1) ++
      (Value.writeFields sp level others ++ s))) = .ok (kind, Value.writeFields sp level others ++ s) :=
    readName_read named blankGap (depth - 1) _
  have remaining := rest (some kind) (r ++ s).length (by rw [List.length_append]; omega)
  rw [tagged, text, List.cons_append]
  simp only [read, skipBlanks_text blank brace, if_neg (show ¬ depth ≤ 1 by omega), readFieldsFuel,
    next, ok_bind, entryText, readString_unquoted, if_true, Option.isSome_none, Bool.false_eq_true,
    if_false, after, tag, remaining, built, pure_ok]

end EffectDocument

open EffectDocument in
theorem effect_readsBack {e : Effect Float} (stored : ∀ x ∈ e.numbers, Stored x) :
    EffectDocument.codec.ReadsBack 1 e := by
  intro sp level depth pad s lawful deep blank _
  have number {x : Float} (stored : Stored x) (title : String) :
      ∃ v, strength title (.fields [(valueName, v)]) = .ok x ∧ ∀ (tag : Option Kind) (fuel : Nat),
        [(valueName, Value.number x)].length < fuel → readFieldsFuel (depth - 1) fuel false tag
          (Value.writeFields sp level [(valueName, .number x)] ++ s) = .ok ((tag, [(valueName, v)]), s) :=
    others_strength lawful level s stored (by omega)
  cases e with
  | brightness x =>
    obtain ⟨v, value, rest⟩ := number (stored x List.mem_cons_self) "Brightness"
    exact tagged_read lawful level s .brightness rfl deep rest (by rw [build, value]; rfl) blank
  | contrast x =>
    obtain ⟨v, value, rest⟩ := number (stored x List.mem_cons_self) "Contrast"
    exact tagged_read lawful level s .contrast rfl deep rest (by rw [build, value]; rfl) blank
  | saturation x =>
    obtain ⟨v, value, rest⟩ := number (stored x List.mem_cons_self) "Saturation"
    exact tagged_read lawful level s .saturation rfl deep rest (by rw [build, value]; rfl) blank
  | grayscale =>
    exact tagged_read lawful level s .grayscale rfl deep
      (fun tag fuel enough => others_none lawful level s tag enough) rfl blank

theorem clip_readsBack {c : Clip Float} (stored : ∀ x ∈ c.numbers, Stored x) :
    clipDocument.ReadsBack 3 c := by
  simp only [Clip.numbers, List.forall_mem_cons, List.forall_mem_append, List.forall_mem_flatMap] at stored
  obtain ⟨startTime, trimStart, trimEnd, speed, opacity, transform, crop, overlay, effects⟩ := stored
  have framing := fun t member => (transform_readsBack (transform t member)).mono (show 1 ≤ 2 by decide)
  have cut := fun r member => (crop_readsBack (crop r member)).mono (show 1 ≤ 2 by decide)
  have caption := fun o member => (textOverlay_readsBack (overlay o member)).mono (show 1 ≤ 2 by decide)
  exact imap_readsBack rfl <| record_readsBack (by decide) <|
    .required (text_readsBack c.id) <| .required (text_readsBack c.mediaId) <|
    .required (startTime.readsBack 2) <| .defaulted (trimStart.readsBack 2) <|
    .defaulted (trimEnd.readsBack 2) <| .defaulted (speed.readsBack 2) <|
    .defaulted (boolean_readsBack c.reverse) <| .defaulted (opacity.readsBack 2) <|
    .optional (optional_part framing fun _ => trivial) <|
    .optional (optional_part cut fun _ => trivial) <|
    .optional (optional_part caption fun _ => trivial) <|
    .listing (list_readsBack fun e member => effect_readsBack (effects e member)) <|
    .optional optional_text .done

theorem mediaKind_readsBack (k : MediaKind) {height : Nat} : mediaKindDocument.ReadsBack height k :=
  choice_readsBack (by cases k <;> rfl)

theorem transitionKind_readsBack (k : TransitionKind) {height : Nat} :
    transitionKindDocument.ReadsBack height k :=
  choice_readsBack (by cases k <;> rfl)

theorem mediaFile_readsBack {m : MediaFile Float} (stored : ∀ x ∈ m.numbers, Stored x)
    (samples : ∀ x ∈ m.samples, StoredSample x) (fits : ∀ n ∈ m.sizes, (n : Int) ≤ unsignedMax 32) :
    mediaFileDocument.ReadsBack 2 m := by
  simp only [MediaFile.numbers, List.forall_mem_cons] at stored
  simp only [MediaFile.sizes, List.forall_mem_append] at fits
  have wave : ∀ w ∈ m.waveform.toList, (list single).ReadsBack 1 w := fun w member =>
    list_readsBack fun x sample =>
      have coarse := samples x (List.mem_flatten.mpr ⟨w, member, sample⟩)
      single_readsBack coarse.finite coarse.read_back
  exact imap_readsBack rfl <| record_readsBack (by decide) <|
    .required (text_readsBack m.id) <| .required (text_readsBack m.name) <|
    .required (mediaKind_readsBack m.kind) <| .required (text_readsBack m.path) <|
    .required (stored.1.readsBack 1) <| .optional (optional_number stored.2) <|
    .optional (optional_size fits.1) <| .optional (optional_size fits.2) <|
    .optional optional_text <| .optional (optional_part wave fun _ => trivial) .done

theorem track_readsBack {t : Track Float} (stored : ∀ x ∈ t.numbers, Stored x) :
    trackDocument.ReadsBack 5 t := by
  simp only [Track.numbers, List.forall_mem_flatMap] at stored
  exact imap_readsBack rfl <| record_readsBack (by decide) <|
    .required (text_readsBack t.id) <| .required (mediaKind_readsBack t.kind) <|
    .defaulted (list_readsBack fun c member => clip_readsBack (stored c member)) <|
    .defaulted (boolean_readsBack t.muted) .done

theorem transition_readsBack {t : Transition Float} (stored : Stored t.duration) :
    transitionDocument.ReadsBack 1 t :=
  imap_readsBack rfl <| record_readsBack (by decide) <|
    .required (text_readsBack t.id) <| .required (text_readsBack t.clipId) <|
    .required (transitionKind_readsBack t.kind) <| .required (stored.readsBack 0) .done

section Projects
variable {p : Project Float} (stored : ∀ x ∈ p.numbers, Stored x)
  (samples : ∀ x ∈ p.samples, StoredSample x) (fits : ∀ n ∈ p.sizes, (n : Int) ≤ unsignedMax 32)
include stored samples fits

theorem projectFields_readBack :
    projectFields.ReadBack 6 (p.id, p.name, p.mediaFiles, p.tracks, p.transitions, p.framerate, ()) := by
  simp only [Project.numbers, List.forall_mem_cons, List.forall_mem_append, List.forall_mem_flatMap,
    List.forall_mem_map] at stored
  simp only [Project.samples, List.forall_mem_flatMap] at samples
  simp only [Project.sizes, List.forall_mem_flatMap] at fits
  obtain ⟨framerate, media, tracks, transitions⟩ := stored
  have files := list_readsBack fun m member =>
    mediaFile_readsBack (media m member) (samples m member) (fits m member)
  have lanes := list_readsBack fun t member => track_readsBack (tracks t member)
  have joins := list_readsBack fun t member => transition_readsBack (transitions t member)
  exact .required (text_readsBack p.id) <| .required (text_readsBack p.name) <|
    .defaulted (files.mono (by decide)) <| .defaulted lanes <|
    .defaulted (joins.mono (by decide)) <| .defaulted (framerate.readsBack 6) .done

/-- A project is read from its document. -/
theorem project_readsBack : projectDocument.ReadsBack 7 p :=
  imap_readsBack rfl <| record_readsBack (by decide) (projectFields_readBack stored samples fits)

/-- The length behind the fields of a sent project is a key of no field. -/
theorem wire_reads : projectDocument.Reads 7 p.toWire p := by
  have foreign : "duration" ∉ projectFields.names := by decide
  refine Reads.imap (record_reads (by decide) (projectFields_readBack stored samples fits) ?_ ?_) _ _
  · rintro e member
    obtain rfl := List.mem_singleton.mp member
    exact ⟨foreign, number_passed _⟩
  · simp

end Projects
end Montage
