import Montage.Proofs.Text.Encoding
import Montage.Proofs.Timeline.Documents
import Montage.Service.Client

/- A project that is saved and loaded, and one that is sent to a service, is the same project. -/
namespace Montage
open Json

/-- A written file has what was written. -/
theorem FileTree.read_write {t after : FileTree} {path : String} {content : Bytes}
    (written : t.write path content = .ok after) : after.read path = .ok content := by
  unfold write at written
  split at written
  · exact nomatch written
  rename_i named
  split at written
  · exact nomatch written
  · exact nomatch written
  split at written
  · exact nomatch written
  rename_i slash
  obtain rfl := Except.ok.inj written
  have found : (t.add path content).entryAt (settle (Path.components path)) = .file content := by
    simp [entryAt, add]
  rw [read, entry, if_neg named, found]
  simp only [if_neg slash]

theorem Project.load_save {p : Project Float} (reads : Project.parse p.savedText = .ok p)
    {files after : FileTree} {path : String} (saved : p.save files path = .ok after) :
    Project.load after path = .ok p := by
  unfold save at saved
  cases made : madeParent files path with
  | error f =>
    rw [made] at saved
    exact nomatch saved
  | ok files =>
    rw [made, ok_bind] at saved
    cases written : files.write path (Utf8.encode p.savedText) with
    | error f =>
      simp only [written] at saved
      exact nomatch saved
    | ok tree =>
      simp only [written] at saved
      obtain rfl := Except.ok.inj saved
      have text : tree.readText path = .ok p.savedText := by
        rw [FileTree.readText, FileTree.read_write written, ok_bind, Utf8.decode_encode]
        rfl
      rw [load, text]
      simp only [reads]

/-- What is sent of a project are the members of its document, and its length behind them. -/
theorem Project.toWire_members (p : Project Float) :
    ∃ members, projectDocument.toValue p = .object members ∧
      p.toWire = .object (members ++ [("duration", .number p.duration)]) :=
  ⟨_, rfl, rfl⟩

/-- The bytes of a sent project are its first part. -/
theorem renderForm_project {files : FileTree} {p : Project Float} {settings : RenderSettings Float}
    {form : List FormPart} (built : renderForm files p settings = .ok form) :
    form.head? = some (.text "project" p.toWire.compact) := by
  unfold renderForm at built
  cases media : p.mediaFiles.mapM (mediaPart files) with
  | error e =>
    rw [media] at built
    exact nomatch built
  | ok parts =>
    rw [media, ok_bind] at built
    obtain rfl := Except.ok.inj built
    rfl

/-- Saving then loading gives back every project with finite numbers, and so does reading what is
sent to a service: the members of the document with the length behind them, as the first part of a
form. Sizes are 32-bit words, and the text of a finite number is taken to be read as that number. -/
theorem Project.saved_and_sent_read_back (p : Project Float) (sizes : ∀ n ∈ p.sizes, n < twoTo 32)
    (finite : ∀ x ∈ p.numbers, x.isFinite = true) (finiteSamples : ∀ x ∈ p.samples, x.isFinite = true)
    (numberText : ∀ x ∈ p.numbers, x.isFinite = true →
      Codec.double.parse (Value.number x).compact = .ok x)
    (sampleText : ∀ x ∈ p.samples, x.isFinite = true →
      Codec.single.parse (Value.sample x).compact = .ok x) :
    Project.parse p.savedText = .ok p ∧
    (∀ files path after, p.save files path = .ok after → Project.load after path = .ok p) ∧
    (∃ members, projectDocument.toValue p = .object members ∧
      p.toWire = .object (members ++ [("duration", .number p.duration)])) ∧
    Project.parse p.toWire.compact = .ok p ∧
    ∀ files settings form, renderForm files p settings = .ok form →
      ∃ part, form.head? = some part ∧ part.body = Utf8.encode p.toWire.compact ∧
        projectDocument.parseBytes part.body = .ok p := by
  have stored : ∀ x ∈ p.numbers, Stored x := fun x member =>
    ⟨finite x member, numberText x member (finite x member)⟩
  have samples : ∀ x ∈ p.samples, StoredSample x := fun x member =>
    ⟨finiteSamples x member, sampleText x member (finiteSamples x member)⟩
  have fits : ∀ n ∈ p.sizes, (n : Int) ≤ unsignedMax 32 := by
    intro n member
    have small := sizes n member
    rw [unsignedMax]
    omega
  have saved : Project.parse p.savedText = .ok p :=
    (project_readsBack stored samples fits).parse (by decide) indented_lawful
  have sent : Project.parse p.toWire.compact = .ok p :=
    (wire_reads stored samples fits).parse (by decide) compact_lawful
  refine ⟨saved, fun files path after => Project.load_save saved, p.toWire_members, sent, ?_⟩
  intro files settings form built
  refine ⟨_, renderForm_project built, rfl, ?_⟩
  rw [Codec.parseBytes, FormPart.text, Utf8.decode_encode]
  exact sent

/-- A project with every part present and a text that needs every kind of escape. -/
def Project.everyPart : Project Float where
  id := "p-1"
  name := "Intro \"a\\b\" \t\n\x01 é 🎬"
  mediaFiles := [{
    id := "m-1"
    name := "take.mp4"
    kind := .video
    path := "media/take.mp4"
    duration := 12.5
    framerate := some 29.97
    width := some 1920
    height := some 1080
    thumbnail := some "data:image/png"
    waveform := some [0, 0.25, -0.5] }]
  tracks := [{
    id := "t-1"
    kind := .video
    muted := true
    clips := [{
      id := "c-1"
      mediaId := "m-1"
      startTime := 0.1
      trimStart := 1.25
      trimEnd := 0
      speed := -2
      reverse := true
      opacity := 0.5
      transform := some ⟨10, -3.5, 1, 1.5, 90⟩
      crop := some ⟨0.1, 0, 0.2, 0⟩
      textOverlay := some ⟨"Hello", 0.5, 0.5, 48, "#ffffff", 0, some 3⟩
      effects := [.brightness 0.2, .contrast 1e-7, .saturation 1e21, .grayscale]
      linkedClipId := some "c-2" }] }]
  transitions := [⟨"x-1", "c-1", .crossfade, 0.75⟩]
  framerate := 30

theorem except_of_toOption {ε α : Type} {r : Except ε α} {x : α} (found : r.toOption = some x) :
    r = .ok x := by
  cases r with
  | error e => exact nomatch found
  | ok y => exact congrArg Except.ok (Option.some.inj found)

theorem Project.saved_and_sent_read_back_everyPart :
    (∃ after, everyPart.save .empty "films/intro.json" = .ok after ∧
      Project.load after "films/intro.json" = .ok everyPart) ∧
    Project.parse everyPart.savedText = .ok everyPart ∧
    Project.parse everyPart.toWire.compact = .ok everyPart := by
  have numbers : ∀ x ∈ everyPart.numbers, x.isFinite = true ∧
      (Codec.double.parse (Value.number x).compact).toOption = some x := by decide +kernel
  have samples : ∀ x ∈ everyPart.samples, x.isFinite = true ∧
      (Codec.single.parse (Value.sample x).compact).toOption = some x := by decide +kernel
  obtain ⟨saved, loaded, -, sent, -⟩ := saved_and_sent_read_back everyPart (by decide)
    (fun x member => (numbers x member).1) (fun x member => (samples x member).1)
    (fun x member _ => except_of_toOption (numbers x member).2)
    (fun x member _ => except_of_toOption (samples x member).2)
  exact ⟨⟨_, rfl, loaded .empty "films/intro.json" _ rfl⟩, saved, sent⟩

end Montage
