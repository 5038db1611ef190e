import Montage.Proofs.Graph.Command
import Montage.Proofs.Graph.Windows

/- Where a compiled graph reads. A file gets its place among the inputs when it is first asked for,
   and places never move, so that when the graph is done each piece still reads the file of the clip
   that it shows. -/
namespace Montage.Graph

section Inputs
variable {K : Type}

/-- What a list of inputs becomes when it is asked for the place of a file. -/
structure Listed (before after : List String) (input : Nat) (path : String) : Prop where
  grown : before <+: after
  distinct : (before.map Path.components).Nodup → (after.map Path.components).Nodup
  new : ∀ i < after.length, i < before.length ∨ i = input
  found : ∃ file, after[input]? = some file ∧ Path.same file path = true

theorem inputFor_listed (d : Draft K) (path : String) :
    Listed d.inputs (d.inputFor path).2.inputs (d.inputFor path).1 path := by
  unfold Draft.inputFor
  split
  · rename_i input found
    obtain ⟨inside, same, -⟩ := List.findIdx?_eq_some_iff_getElem.mp found
    exact ⟨List.prefix_rfl, id, fun i below => .inl below,
      ⟨_, List.getElem?_eq_getElem inside, same⟩⟩
  · rename_i absent
    refine ⟨List.prefix_append _ _, ?_, ?_, ⟨path, List.getElem?_concat_length, beq_self_eq_true _⟩⟩
    · intro distinct
      rw [List.map_append, List.map_singleton, ← List.concat_eq_append]
      refine distinct.concat ?_
      rw [List.mem_map]
      rintro ⟨file, member, same⟩
      have different := List.findIdx?_eq_none_iff.mp absent file member
      rw [Path.same, same, beq_self_eq_true] at different
      cases different
    · intro i below
      rw [List.length_append, List.length_singleton] at below
      dsimp only
      omega

/-- Chains that read an input. -/
def readers (chains : List (Chain K)) : List (Chain K) :=
  chains.filter fun c => c.consumes.any Label.isSource

theorem readers_append (a b : List (Chain K)) : readers (a ++ b) = readers a ++ readers b :=
  List.filter_append _ _

theorem readers_piece {d e : Draft K} {x : Piece K} (chains : e.chains = d.chains ++ x.chains) :
    readers e.chains = readers d.chains ++ [x].flatMap fun x => readers x.chains := by
  rw [chains, readers_append, List.flatMap_singleton]

theorem readers_inner {chains : List (Chain K)}
    (inner : ∀ c ∈ chains, ∀ l ∈ c.consumes, l.isSource = false) : readers chains = [] := by
  rw [readers, List.filter_eq_nil_iff]
  intro c member reads
  obtain ⟨l, consumed, source⟩ := List.any_eq_true.mp reads
  rw [inner c member l consumed] at source
  cases source

/-- What pieces do to the inputs of a draft. None is moved, none comes a second time, and each that
comes is shown by one of the pieces. -/
structure Intake (before after : Draft K) (pieces : List (Piece K)) : Prop where
  grown : before.inputs <+: after.inputs
  distinct : (before.inputs.map Path.components).Nodup → (after.inputs.map Path.components).Nodup
  used : ∀ i < after.inputs.length, i < before.inputs.length ∨
    ∃ x ∈ pieces, ∃ id, x.segment.source = some (id, i)
  chains : readers after.chains = readers before.chains ++ pieces.flatMap fun x => readers x.chains

namespace Intake
variable {a b c d e : Draft K} {x : Piece K} {xs ys : List (Piece K)}

theorem append (first : Intake a b xs) (second : Intake b c ys) : Intake a c (xs ++ ys) where
  grown := first.grown.trans second.grown
  distinct := second.distinct ∘ first.distinct
  used := by
    intro i below
    rcases second.used i below with before | ⟨x, member, shows⟩
    · rcases first.used i before with before | ⟨x, member, shows⟩
      · exact .inl before
      · exact .inr ⟨x, List.mem_append_left _ member, shows⟩
    · exact .inr ⟨x, List.mem_append_right _ member, shows⟩
  chains := by rw [second.chains, first.chains, List.flatMap_append, List.append_assoc]

/-- Pieces that show nobody, or none at all. -/
theorem idle (inputs : e.inputs = d.inputs)
    (chains : readers e.chains = readers d.chains ++ xs.flatMap fun x => readers x.chains) :
    Intake d e xs where
  grown := inputs ▸ List.prefix_rfl
  distinct := by
    rw [inputs]
    exact id
  used := by
    rw [inputs]
    exact fun i below => .inl below
  chains := chains

/-- Chains that read other chains only. -/
theorem add {chains : List (Chain K)} (inputs : e.inputs = d.inputs)
    (added : e.chains = d.chains ++ chains)
    (inner : ∀ c ∈ chains, ∀ l ∈ c.consumes, l.isSource = false) : Intake d e [] := by
  refine idle inputs ?_
  rw [added, readers_append, readers_inner inner, List.flatMap_nil]

/-- A piece that shows a clip from a file. -/
theorem shows {path id : String} {input : Nat} (listed : Listed d.inputs e.inputs input path)
    (chains : e.chains = d.chains ++ x.chains) (source : x.segment.source = some (id, input)) :
    Intake d e [x] where
  grown := listed.grown
  distinct := listed.distinct
  used := by
    intro i below
    rcases listed.new i below with before | rfl
    · exact .inl before
    · exact .inr ⟨x, List.mem_singleton_self x, id, source⟩
  chains := readers_piece chains

end Intake

end Inputs

def Medium.mark : Medium → String
  | .video => ":v"
  | .audio => ":a"

/-- The piece of a span that a clip owns shows that clip, and reads it by one chain from the input
that is the clip's own file; the piece of any other span is filler and reads nothing. -/
def Piece.Reads (medium : Medium) (clips : List (Scheduled Float)) (inputs : List String)
    (x : Piece Float) : Prop :=
  match x.owner clips with
  | none => x.segment = filler x.span ∧ readers x.chains = []
  | some s => ∃ input, x.segment = shown x.span s input ∧
      (∃ file, inputs[input]? = some file ∧ Path.same file s.media.path = true) ∧
      ∃ c rest, readers x.chains = [c] ∧ c.consumes = [.source input medium] ∧
        c.text = "[" ++ toString input ++ medium.mark ++ "]" ++ rest

section Pieces
variable {medium : Medium} {clips : List (Scheduled Float)} {inputs more : List String}
  {x : Piece Float}

/-- Inputs that come later change nothing. -/
theorem Piece.Reads.mono (grown : inputs <+: more) (reads : x.Reads medium clips inputs) :
    x.Reads medium clips more := by
  obtain ⟨new, rfl⟩ := grown
  unfold Reads at reads ⊢
  split
  · rename_i nobody
    rwa [nobody] at reads
  · rename_i s owned
    rw [owned] at reads
    obtain ⟨input, shows, ⟨file, stands, same⟩, chain⟩ := reads
    have inside := (List.getElem?_eq_some_iff.mp stands).1
    exact ⟨input, shows, ⟨file, (List.getElem?_append_left inside).trans stands, same⟩, chain⟩

theorem source_text {c : Chain Float} {input : Nat} (consumes : c.consumes = [.source input medium]) :
    ∃ rest, c.text = "[" ++ toString input ++ medium.mark ++ "]" ++ rest := by
  refine ⟨",".intercalate (c.filters.map Filter.text) ++ c.produces.bracketed, ?_⟩
  rw [Chain.text, consumes]
  cases medium <;>
    simp [Label.bracketed, Label.text, Medium.mark, String.join, String.append_assoc]

theorem videoClipChains_readers (s : Scheduled Float) (span : Span Float) (input : Nat)
    (settings : RenderSettings Float) (base : Nat) (out : Label) :
    ∃ c, readers (videoClipChains s span input settings base out) = [c] ∧
      c.consumes = [.source input .video] := by
  unfold videoClipChains
  dsimp only
  split
  · exact ⟨_, rfl, rfl⟩
  · exact ⟨_, rfl, rfl⟩

/-- A step that adds the piece of a span, with the inputs that the piece needs, under a label. -/
def Sourcing (medium : Medium) (clips : List (Scheduled Float))
    (step : Draft Float → Span Float → Draft Float × Label × Segment Float) : Prop :=
  ∀ d span, (step d span).2.1.isSource = false ∧
    ∃ x : Piece Float, x.span = span ∧ x.segment = (step d span).2.2 ∧
      Intake d (step d span).1 [x] ∧ x.Reads medium clips (step d span).1.inputs

theorem addVideoSpan_sourcing (clips : List (Scheduled Float)) (settings : RenderSettings Float) :
    Sourcing .video clips (addVideoSpan clips settings) := by
  intro d span
  unfold addVideoSpan
  cases owner : span.winner.bind fun i => clips[i]? with
  | none =>
    refine ⟨rfl, ⟨span, _, .videoSpan d.next, _⟩, rfl, rfl, .idle rfl (readers_piece rfl), ?_⟩
    rw [Piece.Reads, Piece.owner, owner]
    exact ⟨rfl, rfl⟩
  | some s =>
    have listed := inputFor_listed d.fresh.2 s.media.path
    have kept : (d.fresh.2.inputFor s.media.path).2.fresh.2.chains = d.chains :=
      inputFor_chains d.fresh.2 s.media.path
    refine ⟨rfl, ⟨span, _, .videoSpan d.next, _⟩, rfl, rfl,
      .shows listed (congrArg (· ++ _) kept) rfl, ?_⟩
    rw [Piece.Reads, Piece.owner, owner]
    obtain ⟨c, reads, consumes⟩ := videoClipChains_readers s span _ settings _ _
    obtain ⟨rest, text⟩ := source_text consumes
    exact ⟨_, rfl, listed.found, c, rest, reads, consumes, text⟩

theorem addAudioSpan_sourcing (clips : List (Scheduled Float)) (shape : AudioShape) :
    Sourcing .audio clips (addAudioSpan clips shape) := by
  intro d span
  unfold addAudioSpan
  cases owner : span.winner.bind fun i => clips[i]? with
  | none =>
    refine ⟨rfl, ⟨span, _, .audioSpan d.next, _⟩, rfl, rfl, .idle rfl (readers_piece rfl), ?_⟩
    rw [Piece.Reads, Piece.owner, owner]
    exact ⟨rfl, rfl⟩
  | some s =>
    have listed := inputFor_listed d.fresh.2 s.media.path
    have kept : (d.fresh.2.inputFor s.media.path).2.chains = d.chains :=
      inputFor_chains d.fresh.2 s.media.path
    refine ⟨rfl, ⟨span, _, .audioSpan d.next, _⟩, rfl, rfl,
      .shows listed (congrArg (· ++ _) kept) rfl, ?_⟩
    rw [Piece.Reads, Piece.owner, owner]
    obtain ⟨rest, text⟩ := source_text (c := audioClipChain s span _ shape _) rfl
    exact ⟨_, rfl, listed.found, _, rest, rfl, rfl, text⟩

/-- Pieces of some spans, each of which reads the file of its own clip. -/
structure Sourced (medium : Medium) (clips : List (Scheduled Float)) (spans : List (Span Float))
    (inputs : List String) (pieces : List (Piece Float)) : Prop where
  spans : pieces.map (·.span) = spans
  reads : ∀ x ∈ pieces, x.Reads medium clips inputs

theorem Sourced.mono {spans : List (Span Float)} {pieces : List (Piece Float)}
    (grown : inputs <+: more) (row : Sourced medium clips spans inputs pieces) :
    Sourced medium clips spans more pieces :=
  ⟨row.spans, fun x member => (row.reads x member).mono grown⟩

theorem addSpans_sourced {step : Draft Float → Span Float → Draft Float × Label × Segment Float}
    (sourcing : Sourcing medium clips step) (d : Draft Float) (spans : List (Span Float)) :
    (∀ l ∈ (addSpans step d spans).2.1, l.isSource = false) ∧
      ∃ pieces, Sourced medium clips spans (addSpans step d spans).1.inputs pieces ∧
        (addSpans step d spans).2.2 = pieces.map (·.segment) ∧
        Intake d (addSpans step d spans).1 pieces := by
  induction spans generalizing d with
  | nil => exact ⟨by simp [addSpans], [], ⟨rfl, by simp⟩, rfl, .idle rfl (by simp [addSpans])⟩
  | cons span spans ih =>
    obtain ⟨named, x, own, segment, taken, reads⟩ := sourcing d span
    obtain ⟨labels, pieces, row, segments, intake⟩ := ih (step d span).1
    refine ⟨?_, x :: pieces, ⟨?_, ?_⟩, ?_, taken.append intake⟩
    · intro l member
      rcases List.mem_cons.mp member with rfl | member
      · exact named
      · exact labels l member
    · rw [List.map_cons, own, row.spans]
    · intro y member
      rcases List.mem_cons.mp member with rfl | member
      · exact reads.mono intake.grown
      · exact row.reads y member
    · rw [List.map_cons, segment, ← segments]
      rfl

/-- The spans of an audio track. -/
def trackSpans (clips : List (Scheduled Float)) (duration : Float) : List (Span Float) :=
  flatten (clips.map fun s => ⟨0, s.timing.start, s.timing.stop⟩) duration audioStep

theorem addAudioTrack_sourced (shape : AudioShape) (duration : Float) (d : Draft Float)
    (clips : List (Scheduled Float)) :
    ∃ pieces, Sourced .audio clips (trackSpans clips duration)
        (addAudioTrack shape duration d clips).1.inputs pieces ∧
      (addAudioTrack shape duration d clips).2.2 = pieces.map (·.segment) ∧
      Intake d (addAudioTrack shape duration d clips).1 pieces := by
  obtain ⟨labels, pieces, row, segments, intake⟩ := addSpans_sourced
    (addAudioSpan_sourcing clips shape) d (trackSpans clips duration)
  have joined : Intake (addSpans (addAudioSpan clips shape) d (trackSpans clips duration)).1
      (addAudioTrack shape duration d clips).1 [] := by
    refine .add rfl rfl ?_
    intro c member
    rw [List.mem_singleton.mp member]
    exact labels
  have whole := intake.append joined
  rw [List.append_nil] at whole
  exact ⟨pieces, row, segments, whole⟩

theorem addAudioTracks_sourced (shape : AudioShape) (duration : Float)
    (tracks : List (List (Scheduled Float))) (d : Draft Float) :
    (∀ l ∈ (addAudioTracks shape duration d tracks).2.1, l.isSource = false) ∧
      ∃ rows : List (List (Piece Float)),
        List.Forall₂ (fun clips pieces => Sourced .audio clips (trackSpans clips duration)
          (addAudioTracks shape duration d tracks).1.inputs pieces) tracks rows ∧
        (addAudioTracks shape duration d tracks).2.2 = rows.map (·.map (·.segment)) ∧
        Intake d (addAudioTracks shape duration d tracks).1 rows.flatten := by
  induction tracks generalizing d with
  | nil => exact ⟨by simp [addAudioTracks], [], .nil, rfl, .idle rfl (by simp [addAudioTracks])⟩
  | cons clips tracks ih =>
    obtain ⟨pieces, row, segments, taken⟩ := addAudioTrack_sourced shape duration d clips
    obtain ⟨labels, rows, all, later, intake⟩ := ih (addAudioTrack shape duration d clips).1
    refine ⟨?_, pieces :: rows, .cons (row.mono intake.grown) all, ?_, taken.append intake⟩
    · intro l member
      rcases List.mem_cons.mp member with rfl | member
      · rfl
      · exact labels l member
    · rw [List.map_cons, ← segments, ← later]
      rfl

theorem joining_inner {labels : List Label} (inner : ∀ l ∈ labels, l.isSource = false)
    (titles : List (Titling Float × String)) :
    ∀ c ∈ joining labels titles, ∀ l ∈ c.consumes, l.isSource = false := by
  unfold joining
  split
  · simpa using inner
  · simpa [Label.isSource] using inner

theorem mixdown_inner {labels : List Label} (inner : ∀ l ∈ labels, l.isSource = false) :
    ∀ c ∈ (mixdown labels : List (Chain Float)), ∀ l ∈ c.consumes, l.isSource = false := by
  unfold mixdown
  split
  · simp
  · simpa using inner
  · simpa using inner

/-- A compiled graph takes in what the pieces of its video and of its audio tracks need. -/
theorem compile_sourced {p : Project Float} {settings : RenderSettings Float} {options : Options}
    {g : Compiled Float} (compiled : compile p settings options = some g) :
    ∃ (video : List (Piece Float)) (tracks : List (List (Piece Float))) (d : Draft Float),
      Sourced .video (byStart p.playedVideo) (videoSpans p settings) g.inputs video ∧
      List.Forall₂ (fun clips pieces => Sourced .audio clips (trackSpans clips p.duration) g.inputs
        pieces) p.playedAudioTracks tracks ∧
      g.videoSegments = video.map (·.segment) ∧ g.audioTracks = tracks.map (·.map (·.segment)) ∧
      g.inputs = d.inputs ∧ g.chains = d.chains ∧
      Intake Draft.empty d (video ++ tracks.flatten) := by
  have shot := addSpans_sourced (addVideoSpan_sourcing (byStart p.playedVideo) settings) Draft.empty
    (videoSpans p settings)
  unfold videoSpans at shot ⊢
  unfold compile at compiled
  dsimp only at compiled
  generalize addSpans (addVideoSpan (byStart p.playedVideo) settings) Draft.empty _ = made
    at shot compiled
  obtain ⟨labels, video, row, segments, taken⟩ := shot
  split at compiled
  · cases compiled
  · obtain rfl := Option.some.inj compiled
    have joined : Intake made.1 (made.1.add (joining made.2.1 (titlings options _))) [] :=
      .add rfl rfl (joining_inner labels (titlings options (byStart p.playedVideo)))
    obtain ⟨tracked, tracks, rows, sound, heard⟩ := addAudioTracks_sourced
      ⟨options.audioSampleRate, options.audioChannels == 1⟩ p.duration p.playedAudioTracks
      (made.1.add (joining made.2.1 (titlings options (byStart p.playedVideo))))
    have mixed := heard.append (.add (e := Draft.add _ _) rfl rfl (mixdown_inner tracked))
    have whole := (taken.append joined).append mixed
    rw [List.append_nil, List.append_nil] at whole
    exact ⟨video, tracks, _, row.mono (joined.grown.trans mixed.grown), rows, segments, sound, rfl,
      rfl, whole⟩

end Pieces

/-- However the media of a project share their paths, a compiled graph has each file among its
inputs once and none that no clip shows; each of its pieces shows a clip from the input that is the
clip's own file, by the only chain of the piece that reads; no other chain reads; and the transcoder
gets exactly these inputs, in this order, before the filter. -/
theorem clips_read_own_inputs {p : Project Float} {settings : RenderSettings Float}
    {options : Options} {g : Compiled Float} (compiled : compile p settings options = some g)
    (output : String) :
    (g.inputs.map Path.components).Nodup ∧
    (∃ (video : List (Piece Float)) (tracks : List (List (Piece Float))),
      Sourced .video (byStart p.playedVideo) (videoSpans p settings) g.inputs video ∧
      List.Forall₂ (fun clips pieces => Sourced .audio clips (trackSpans clips p.duration) g.inputs
        pieces) p.playedAudioTracks tracks ∧
      g.videoSegments = video.map (·.segment) ∧ g.audioTracks = tracks.map (·.map (·.segment)) ∧
      readers g.chains = (video ++ tracks.flatten).flatMap (fun x => readers x.chains) ∧
      ∀ i < g.inputs.length, ∃ x ∈ video ++ tracks.flatten, ∃ id,
        x.segment.source = some (id, i)) ∧
    ∃ later, (∀ o ∈ later, o.1 ≠ "-i") ∧
      arguments g settings options output = ["-y", "-hide_banner", "-nostats"] ++
        optionWords (("-progress", "pipe:1") :: g.inputs.map (fun path => ("-i", path)) ++
          ("-filter_complex", text g.chains) :: later) ++ [output] := by
  obtain ⟨video, tracks, d, row, rows, segments, sound, inputs, chains, intake⟩ :=
    compile_sourced compiled
  refine ⟨?_, ⟨video, tracks, row, rows, segments, sound, ?_, ?_⟩,
    arguments_inputs g settings options output⟩
  · rw [inputs]
    exact intake.distinct List.nodup_nil
  · rw [chains]
    exact intake.chains
  · rw [inputs]
    intro i below
    exact (intake.used i below).resolve_left (Nat.not_lt_zero i)

theorem Sourced.file {medium : Medium} {clips : List (Scheduled Float)} {spans : List (Span Float)}
    {inputs : List String} {pieces : List (Piece Float)} {x : Piece Float} {id : String} {i : Nat}
    (row : Sourced medium clips spans inputs pieces) (member : x ∈ pieces)
    (source : x.segment.source = some (id, i)) :
    ∃ s ∈ clips, ∃ file, inputs[i]? = some file ∧ Path.same file s.media.path = true := by
  have reads := row.reads x member
  unfold Piece.Reads at reads
  split at reads
  · rw [reads.1] at source
    cases source
  · rename_i s owned
    obtain ⟨input, shows, found, -⟩ := reads
    rw [shows] at source
    cases source
    obtain ⟨n, -, stands⟩ := Option.bind_eq_some_iff.mp owned
    exact ⟨s, List.mem_of_getElem? stands, found⟩

theorem tracks_file {tracks : List (List (Scheduled Float))} {rows : List (List (Piece Float))}
    {inputs : List String} {duration : Float} {x : Piece Float} {id : String} {i : Nat}
    (all : List.Forall₂ (fun clips pieces => Sourced .audio clips (trackSpans clips duration) inputs
      pieces) tracks rows) (member : x ∈ rows.flatten) (source : x.segment.source = some (id, i)) :
    ∃ clips ∈ tracks, ∃ s ∈ clips, ∃ file,
      inputs[i]? = some file ∧ Path.same file s.media.path = true := by
  induction all with
  | nil => cases member
  | cons row _ ih =>
    rcases List.mem_append.mp (List.flatten_cons ▸ member) with here | there
    · exact ⟨_, List.mem_cons_self, row.file here source⟩
    · obtain ⟨clips, listed, found⟩ := ih there
      exact ⟨clips, List.mem_cons_of_mem _ listed, found⟩

/-- One file under two spellings, seen in one clip and heard in another. -/
def respelled : Project Float :=
  { id := "p"
    name := "p"
    mediaFiles := [MediaFile.ofVideo "m" "/v/a.mp4" 1 64 64 10, MediaFile.ofAudio "n" "/v//./a.mp4" 1]
    tracks :=
      [⟨"v", .video, [(Clip.new "seen" "m" 0 : Clip Float)], false⟩,
        ⟨"a", .audio, [Clip.new "heard" "n" 0], false⟩]
    transitions := []
    framerate := 10 }

/-- Boundaries where one clip fills the timeline. -/
theorem edges_filled {K : Type} [Scalar K] {cs : List (Contender K)} {total : K}
    (ends : cs.map (fun c => (c.low, c.high)) = [(0, total)])
    (low : Scalar.totalLe (0 : K) 0 = true) (rises : Scalar.totalLe 0 total = true)
    (high : Scalar.totalLe total total = true) (falls : Scalar.totalLe total 0 = false) :
    edges cs total = thinned [0, 0, total, total] := by
  have sides : (cs.flatMap fun c => [c.low, c.high]) = [0, total] := by
    obtain ⟨c, rfl, same⟩ := List.map_eq_singleton_iff.mp ends
    simpa using same
  rw [edges, sides]
  simp [List.mergeSort, List.MergeSort.Internal.splitInTwo, low, rises, high, falls]

theorem respelled_owner : ∃ s, respelled.playedVideo = [s] ∧ s.media.path = "/v/a.mp4" ∧
    byStart respelled.playedVideo = [s] ∧
    (videoSpans respelled RenderSettings.standard).map (·.winner) = [some 0] := by
  have paths : respelled.playedVideo.map (·.media.path) = ["/v/a.mp4"] := by
    decide +kernel
  obtain ⟨s, alone, path⟩ := List.map_eq_singleton_iff.mp paths
  have sorted : byStart respelled.playedVideo = respelled.playedVideo := by
    rw [alone]
    exact List.mergeSort_singleton s
  refine ⟨s, alone, path, sorted.trans alone, ?_⟩
  unfold videoSpans flatten sweep
  rw [sorted, edges_filled (by decide +kernel) (by decide +kernel) (by decide +kernel)
    (by decide +kernel) (by decide +kernel)]
  decide +kernel

theorem clips_read_own_inputs_respelled :
    ∃ g file, compile respelled RenderSettings.standard plainOptions = some g ∧
      g.inputs = [file] ∧ Path.same file "/v/a.mp4" = true := by
  obtain ⟨s, -, path, sorted, winners⟩ := respelled_owner
  have lasts : (compile respelled RenderSettings.standard plainOptions).isSome = true := by
    decide +kernel
  have heard : respelled.playedAudioTracks.all (fun clips =>
      clips.all fun s => Path.same "/v/a.mp4" s.media.path) = true := by
    decide +kernel
  obtain ⟨g, compiled⟩ := Option.isSome_iff_exists.mp lasts
  obtain ⟨distinct, ⟨video, tracks, row, rows, -, -, -, used⟩, -⟩ :=
    clips_read_own_inputs compiled "out.mp4"
  rw [sorted] at row
  have alike : ∀ file ∈ g.inputs, Path.same file "/v/a.mp4" = true := by
    intro file member
    obtain ⟨i, below, rfl⟩ := List.getElem_of_mem member
    obtain ⟨x, member, id, source⟩ := used i below
    rcases List.mem_append.mp member with seen | sounds
    · obtain ⟨t, listed, file, stands, same⟩ := row.file seen source
      rw [List.mem_singleton.mp listed, path] at same
      rwa [(List.getElem?_eq_some_iff.mp stands).2]
    · obtain ⟨clips, track, t, listed, file, stands, same⟩ := tracks_file rows sounds source
      have own := List.all_eq_true.mp (List.all_eq_true.mp heard clips track) t listed
      rw [Path.same, beq_iff_eq] at own same ⊢
      rw [(List.getElem?_eq_some_iff.mp stands).2, same, own]
  rw [← row.spans, List.map_map] at winners
  obtain ⟨x, rfl, winner⟩ := List.map_eq_singleton_iff.mp winners
  have reads := row.reads x (List.mem_singleton_self x)
  have owned : x.owner [s] = some s := by
    change x.span.winner = some 0 at winner
    rw [Piece.owner, winner]
    rfl
  rw [Piece.Reads, owned] at reads
  obtain ⟨input, -, ⟨file, stands, -⟩, -⟩ := reads
  cases listed : g.inputs with
  | nil => simp [listed] at stands
  | cons first rest =>
    refine ⟨g, first, compiled, ?_, alike first (by simp [listed])⟩
    rw [listed, List.cons.injEq]
    refine ⟨rfl, List.eq_nil_iff_forall_not_mem.mpr fun second member => ?_⟩
    have same := alike first (by simp [listed])
    have same' := alike second (by simp [listed, member])
    rw [Path.same, beq_iff_eq] at same same'
    rw [listed, List.map_cons, List.nodup_cons] at distinct
    exact distinct.1 (List.mem_map.mpr ⟨second, member, same'.trans same.symm⟩)

end Montage.Graph
