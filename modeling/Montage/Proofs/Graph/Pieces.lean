import Montage.Proofs.Graph.Wiring

/- A compiled graph piece by piece. Each span adds its chains behind those that are there, one
   label and one segment, so that a graph begins with the chains of its video spans, in order. -/
namespace Montage.Graph

/-- What one span adds to a graph. -/
structure Piece (K : Type) where
  span : Span K
  chains : List (Chain K)
  label : Label
  segment : Segment K

variable {K : Type}

/-- A step that adds the piece of a span and changes no chain that was there. -/
def Adding (step : Draft K → Span K → Draft K × Label × Segment K) (made : Piece K → Prop) : Prop :=
  ∀ d span, ∃ x : Piece K, x.span = span ∧ (step d span).1.chains = d.chains ++ x.chains ∧
    (step d span).2.1 = x.label ∧ (step d span).2.2 = x.segment ∧ made x

/-- Chains, labels and segments of a row of spans are those of their pieces, in order. -/
theorem addSpans_pieces {step : Draft K → Span K → Draft K × Label × Segment K}
    {made : Piece K → Prop} (adding : Adding step made) (d : Draft K) (spans : List (Span K)) :
    ∃ pieces : List (Piece K), pieces.map (·.span) = spans ∧
      (addSpans step d spans).1.chains = d.chains ++ pieces.flatMap (·.chains) ∧
      (addSpans step d spans).2.1 = pieces.map (·.label) ∧
      (addSpans step d spans).2.2 = pieces.map (·.segment) ∧ ∀ x ∈ pieces, made x := by
  induction spans generalizing d with
  | nil => exact ⟨[], rfl, (List.append_nil _).symm, rfl, rfl, by simp⟩
  | cons span spans ih =>
    obtain ⟨x, own, chains, label, segment, good⟩ := adding d span
    obtain ⟨pieces, spans', chains', labels, segments, all⟩ := ih (step d span).1
    refine ⟨x :: pieces, ?_, ?_, ?_, ?_, ?_⟩
    · rw [List.map_cons, own, spans']
    · change (addSpans step (step d span).1 spans).1.chains = _
      rw [chains', chains, List.flatMap_cons, List.append_assoc]
    · change (step d span).2.1 :: (addSpans step (step d span).1 spans).2.1 = _
      rw [labels, label, List.map_cons]
    · change (step d span).2.2 :: (addSpans step (step d span).1 spans).2.2 = _
      rw [segments, segment, List.map_cons]
    · intro y member
      rcases List.mem_cons.mp member with rfl | member
      · exact good
      · exact all y member

variable [Scalar K]

/-- What a video span adds: the chains of the clip that owns it, or black. -/
def VideoPiece (clips : List (Scheduled K)) (settings : RenderSettings K) (x : Piece K) : Prop :=
  match x.span.winner.bind fun i => clips[i]? with
  | none => x.segment = filler x.span
  | some s => ∃ input base, x.segment = shown x.span s input ∧
      x.chains = videoClipChains s x.span input settings base x.label

/-- What an audio span adds: the chain of the clip that owns it, or silence. -/
def AudioPiece (clips : List (Scheduled K)) (shape : AudioShape) (x : Piece K) : Prop :=
  match x.span.winner.bind fun i => clips[i]? with
  | none => x.segment = filler x.span
  | some s => ∃ input, x.segment = shown x.span s input ∧
      x.chains = [audioClipChain s x.span input shape x.label]

theorem addVideoSpan_adding (clips : List (Scheduled K)) (settings : RenderSettings K) :
    Adding (addVideoSpan clips settings) (VideoPiece clips settings) := by
  intro d span
  unfold addVideoSpan
  cases owner : span.winner.bind fun i => clips[i]? with
  | none =>
    refine ⟨⟨span, _, _, _⟩, rfl, rfl, rfl, rfl, ?_⟩
    simp [VideoPiece, owner]
  | some s =>
    have kept : (d.fresh.2.inputFor s.media.path).2.fresh.2.chains = d.chains :=
      inputFor_chains d.fresh.2 s.media.path
    refine ⟨⟨span, _, _, _⟩, rfl, congrArg (· ++ _) kept, rfl, rfl, ?_⟩
    rw [VideoPiece, owner]
    exact ⟨_, _, rfl, rfl⟩

theorem addAudioSpan_adding (clips : List (Scheduled K)) (shape : AudioShape) :
    Adding (addAudioSpan clips shape) (AudioPiece clips shape) := by
  intro d span
  unfold addAudioSpan
  cases owner : span.winner.bind fun i => clips[i]? with
  | none =>
    refine ⟨⟨span, _, _, _⟩, rfl, rfl, rfl, rfl, ?_⟩
    simp [AudioPiece, owner]
  | some s =>
    have kept : (d.fresh.2.inputFor s.media.path).2.chains = d.chains :=
      inputFor_chains d.fresh.2 s.media.path
    refine ⟨⟨span, _, _, _⟩, rfl, congrArg (· ++ _) kept, rfl, rfl, ?_⟩
    rw [AudioPiece, owner]
    exact ⟨_, rfl, rfl⟩

theorem addAudioTrack_adds (shape : AudioShape) (duration : K) (d : Draft K)
    (clips : List (Scheduled K)) :
    ∃ rest, (addAudioTrack shape duration d clips).1.chains = d.chains ++ rest := by
  obtain ⟨pieces, -, chains, -⟩ := addSpans_pieces (addAudioSpan_adding clips shape) d
    (flatten (clips.map fun s => (⟨0, s.timing.start, s.timing.stop⟩ : Candidate K)) duration
      audioStep)
  change ∃ rest, (addSpans (addAudioSpan clips shape) d _).1.chains ++ _ = d.chains ++ rest
  rw [chains, List.append_assoc]
  exact ⟨_, rfl⟩

/-- What follows the video adds chains and changes none. -/
theorem addAudioTracks_adds (shape : AudioShape) (duration : K) (tracks : List (List (Scheduled K)))
    (d : Draft K) :
    ∃ rest, (addAudioTracks shape duration d tracks).1.chains = d.chains ++ rest := by
  induction tracks generalizing d with
  | nil => exact ⟨[], (List.append_nil _).symm⟩
  | cons clips tracks ih =>
    obtain ⟨first, adds⟩ := addAudioTrack_adds shape duration d clips
    obtain ⟨rest, later⟩ := ih (addAudioTrack shape duration d clips).1
    refine ⟨first ++ rest, ?_⟩
    change (addAudioTracks shape duration (addAudioTrack shape duration d clips).1
      tracks).1.chains = _
    rw [later, adds, List.append_assoc]

/-- Joined video, with its titles where there are any. -/
def joining (labels : List Label) (titles : List (Titling K × String)) : List (Chain K) :=
  if titles.isEmpty then [⟨labels, [.joinVideo labels.length], .videoOut⟩]
  else [⟨labels, [.joinVideo labels.length], .untitled⟩,
    ⟨[.untitled], titles.map fun t => .titling t.1, .videoOut⟩]

/-- The spans of a project's video. -/
def videoSpans (p : Project K) (settings : RenderSettings K) : List (Span K) :=
  flatten (videoCandidates (byStart p.playedVideo)) p.duration (1 / settings.framerate)

theorem compile_chains {p : Project K} {settings : RenderSettings K} {options : Options}
    {g : Compiled K} {video : Draft K × List Label × List (Segment K)}
    (compiled : compile p settings options = some g)
    (added : addSpans (addVideoSpan (byStart p.playedVideo) settings) Draft.empty
      (videoSpans p settings) = video) :
    ∃ rest, g.chains = video.1.chains ++
        (joining video.2.1 (titlings options (byStart p.playedVideo)) ++ rest) ∧
      g.videoSegments = video.2.2 := by
  unfold videoSpans at added
  unfold compile at compiled
  dsimp only at compiled
  rw [added] at compiled
  split at compiled
  · cases compiled
  · obtain rfl := Option.some.inj compiled
    have adds := addAudioTracks_adds
      ⟨options.audioSampleRate, options.audioChannels == 1⟩ p.duration p.playedAudioTracks
      (video.1.add (joining video.2.1 (titlings options (byStart p.playedVideo))))
    unfold joining at adds ⊢
    obtain ⟨sound, adds⟩ := adds
    refine ⟨sound ++ mixdown (addAudioTracks
      ⟨options.audioSampleRate, options.audioChannels == 1⟩ p.duration
      (video.1.add (joining video.2.1 (titlings options (byStart p.playedVideo))))
      p.playedAudioTracks).2.1, ?_, rfl⟩
    rw [← List.append_assoc, ← List.append_assoc]
    exact congrArg (· ++ _) adds

/-- A compiled graph begins with the chains of its video pieces, whose labels one chain joins. -/
theorem compile_pieces {p : Project K} {settings : RenderSettings K} {options : Options}
    {g : Compiled K} (compiled : compile p settings options = some g) :
    ∃ (pieces : List (Piece K)) (join : Chain K) (rest : List (Chain K)),
      pieces.map (·.span) = videoSpans p settings ∧
      g.chains = pieces.flatMap (·.chains) ++ join :: rest ∧
      join.consumes = pieces.map (·.label) ∧ g.videoSegments = pieces.map (·.segment) ∧
      ∀ x ∈ pieces, VideoPiece (byStart p.playedVideo) settings x := by
  obtain ⟨pieces, spans, chains, labels, segments, made⟩ := addSpans_pieces
    (addVideoSpan_adding (byStart p.playedVideo) settings) Draft.empty (videoSpans p settings)
  obtain ⟨rest, parts, shows⟩ := compile_chains compiled rfl
  have start : (Draft.empty : Draft K).chains ++ pieces.flatMap (·.chains) =
      pieces.flatMap (·.chains) := List.nil_append _
  rw [chains, start, labels] at parts
  rw [segments] at shows
  unfold joining at parts
  split at parts
  · exact ⟨pieces, _, _, spans, parts, rfl, shows, made⟩
  · exact ⟨pieces, _, _, spans, parts, rfl, shows, made⟩

end Montage.Graph
