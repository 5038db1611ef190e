import Montage.Proofs.Render.Conduct
import Montage.Proofs.Render.Fallback
import Montage.Proofs.Stream.Recorded
import Montage.Proofs.Timeline.Placement

/- Which projects stay on their host. The service neither frames clips nor draws text, so a project
   that needs either is planned without it, and no other strategy sends a request. -/
namespace Montage

namespace Project

/-- On a video track, muted or not, a clip whose media is known has what is asked for. -/
def Shows (p : Project Float) (asked : Clip Float → Prop) : Prop :=
  ∃ track ∈ p.tracks, track.kind = .video ∧ ∃ clip ∈ track.clips,
    (∃ media, p.media? clip.mediaId = some media) ∧ asked clip

/-- Some clip is moved, scaled, turned or cut. -/
def Framed (p : Project Float) : Prop :=
  p.Shows fun clip => (∃ t, clip.transform = some t ∧ t.isIdentity = false) ∨
    ∃ crop, clip.crop = some crop ∧ crop.isIdentity = false

/-- Some clip carries text. -/
def Captioned (p : Project Float) : Prop :=
  p.Shows fun clip => ∃ text, clip.textOverlay = some text

variable {p : Project Float}

/-- What a clip shows is found whatever other tracks and clips there are, and whatever media they
miss. -/
theorem shows_detected {asked : Clip Float → Prop} {found : Clip Float → Bool}
    (finds : ∀ clip, asked clip → found clip = true) (shows : p.Shows asked) :
    (p.placedClips.any fun c => c.track.isVideo && found c.clip) = true := by
  obtain ⟨track, listed, video, clip, member, ⟨media, known⟩, has⟩ := shows
  obtain ⟨i, stands⟩ := List.mem_iff_getElem?.mp listed
  have placed : (⟨i, track, clip, media⟩ : Placed Float) ∈ p.placedClips :=
    mem_placedClips.mpr ⟨stands, member, known⟩
  rw [List.any_eq_true]
  refine ⟨_, placed, ?_⟩
  simp [Track.isVideo, video, finds clip has]

theorem framed_detected (framed : p.Framed) : (Features.detect p).hasFraming = true := by
  apply shows_detected _ framed
  intro clip has
  unfold Clip.hasFraming
  rcases has with ⟨t, transformed, moves⟩ | ⟨crop, cropped, cuts⟩
  · simp [transformed, moves]
  · simp [cropped, cuts]

theorem captioned_detected (captioned : p.Captioned) : (Features.detect p).hasText = true := by
  refine @shows_detected p _ (fun clip => clip.textOverlay.isSome) ?_ captioned
  intro clip has
  obtain ⟨text, carried⟩ := has
  simp [carried]

end Project

section Plan
variable {features : Features} {host : Capabilities} {format : Container} {engine : Engine}
  {plan : List Strategy} {p : Project Float} {settings : RenderSettings Float}

theorem automatic_avoids_service (shown : features.hasFraming = true ∨ features.hasText = true)
    (planned : strategies .automatic features host format = .ok plan) :
    .nativeService ∉ plan := by
  have avoided : (!features.hasFraming && !features.hasText) = false := by
    cases shown with
    | inl framing => simp [framing]
    | inr text => simp [text]
  simp only [strategies, avoided] at planned
  cases planned
  intro member
  cases List.mem_append.mp member with
  | inl early =>
    simp only [Bool.false_eq_true, if_false, List.nil_append] at early
    split at early <;> simp at early
  | inr last => simp at last

/-- A plan is refused for a fault of the settings or of the project, or by the choice of
strategies. -/
theorem planRender_cases (host : Capabilities) (p : Project Float)
    (settings : RenderSettings Float) :
    (∃ e, planRender host p settings = .error e ∧ e.faultClass = .configuration) ∨
      planRender host p settings =
        strategies settings.engine (Features.detect p) host settings.format := by
  unfold planRender
  simp only [bind, Except.bind]
  split
  · exact .inl ⟨_, rfl, rfl⟩
  · split
    · exact .inl ⟨_, rfl, rfl⟩
    · split
      · exact .inl ⟨_, rfl, rfl⟩
      · exact .inr rfl

theorem framed_service_refused (host : Capabilities) (framed : p.Framed)
    (pinned : settings.engine = .service) :
    ∃ e, planRender host p settings = .error e ∧ e.faultClass = .configuration := by
  rcases planRender_cases host p settings with refused | same
  · exact refused
  · refine ⟨.configuration .framedForService, ?_, rfl⟩
    simp only [same, pinned, strategies, Project.framed_detected framed, if_true]

/-- A render that the service has no part in. -/
def StaysLocal (p : Project Float) (engine : Engine) : Prop :=
  p.Framed ∧ (engine = .automatic ∨ engine = .service) ∨ p.Captioned ∧ engine = .automatic

theorem local_avoids_service (stays : StaysLocal p settings.engine)
    (planned : planRender host p settings = .ok plan) : .nativeService ∉ plan := by
  have shown : (Features.detect p).hasFraming = true ∨ (Features.detect p).hasText = true := by
    rcases stays with ⟨framed, -⟩ | ⟨captioned, -⟩
    · exact .inl (Project.framed_detected framed)
    · exact .inr (Project.captioned_detected captioned)
  by_cases automatic : settings.engine = .automatic
  · rcases planRender_cases host p settings with ⟨e, refused, -⟩ | same
    · rw [refused] at planned
      cases planned
    · rw [same, automatic] at planned
      exact automatic_avoids_service shown planned
  · rcases stays with ⟨framed, engine⟩ | ⟨-, engine⟩
    · obtain ⟨e, refused, -⟩ :=
        framed_service_refused host framed (engine.resolve_left automatic)
      rw [refused] at planned
      cases planned
    · exact absurd engine automatic

end Plan

/-- Of all strategies at most that of the service sends requests. -/
def OthersOffline (attempt : Strategy → Run Bytes) : Prop :=
  ∀ strategy s, strategy ≠ .nativeService → (attempt strategy s).2.requests = Session.requests s

theorem attempt_othersOffline (h : Host) (p : Project Float) (settings : RenderSettings Float) :
    OthersOffline (h.attempt p settings) :=
  fun strategy s offline => (attempt_atWork h p settings strategy s offline).requests

section Quiet
variable {attempt : Strategy → Run Bytes} {capabilities : Capabilities} {p : Project Float}
  {settings : RenderSettings Float} {s t passed : Session}

theorem tried_requests (offline : OthersOffline attempt) {tries : List Try}
    (tried : Tried attempt s tries t) (avoided : ∀ x ∈ tries, x.strategy ≠ .nativeService) :
    t.requests = s.requests := by
  induction tried with
  | start s => rfl
  | @next s passed after t x rest clear ran later ih =>
    have kept := offline x.strategy passed.afresh (avoided x List.mem_cons_self)
    rw [ran] at kept
    have rest := ih fun y member => avoided y (List.mem_cons_of_mem x member)
    calc t.requests = after.requests := rest
      _ = passed.requests := kept
      _ = s.requests := Run.check_requests clear

theorem walk_requests (offline : OthersOffline attempt) {pinned : Bool} {mime : String}
    {plan : List Strategy} (avoided : .nativeService ∉ plan) (s : Session) :
    (walk attempt pinned mime plan none s).2.requests = s.requests := by
  obtain ⟨tries, t, falls, tells⟩ := @walk_fallsBack attempt pinned mime plan none s
  have kept : t.requests = s.requests := by
    apply tried_requests offline falls.tried
    intro x member same
    have inside := falls.inOrder.subset (List.mem_map_of_mem (f := (·.strategy)) member)
    rw [same] at inside
    exact avoided inside
  rcases tells with ⟨-, stopped, -⟩ | ⟨same, -⟩
  · rw [Run.check_requests stopped, kept]
  · rw [(Prod.mk.inj same).2, kept]

theorem announce_requests (result : Except RenderFault RenderOutput) (s : Session) :
    (announce result s).requests = s.requests := by
  unfold announce
  split
  · exact Session.reported_requests _ _
  · rfl
  · rfl
  · exact Session.reported_requests _ _

theorem renderWith_requests (offline : OthersOffline attempt)
    (stays : StaysLocal p settings.engine) :
    (renderWith capabilities attempt p settings s).2.requests = s.requests := by
  have begun : (s.report .preparing 0 "Validating project").requests = s.requests :=
    Session.reported_requests _ _
  change (announce _ (runChain capabilities attempt p settings s).2).requests = s.requests
  rw [announce_requests]
  cases planned : planRender capabilities p settings with
  | error e =>
    rcases runChain_refused attempt planned with ⟨final, stopped, ran⟩ | ⟨passed, clear, ran⟩
    · rw [ran, Run.check_requests stopped, begun]
    · rw [ran, Run.check_requests clear, begun]
  | ok plan =>
    rcases runChain_walk attempt planned with ⟨final, stopped, ran⟩ | ⟨passed, clear, ran⟩
    · rw [ran, Run.check_requests stopped, begun]
    · have ready : (passed.report .preparing 100 "Render planned").requests = passed.requests :=
        Session.reported_requests _ _
      rw [ran, walk_requests offline (local_avoids_service stays planned), ready,
        Run.check_requests clear, begun]

/-- What is refused is refused before any attempt, so no attempt makes a difference. -/
theorem renderWith_refused {e : RenderFault}
    (refused : planRender capabilities p settings = .error e) :
    ∃ failure final, (∀ attempt, renderWith capabilities attempt p settings s =
        (.error failure, final)) ∧
      (failure = e ∨ failure = .cancelled ∧
        Stopped (s.report .preparing 0 "Validating project") final) := by
  rcases check_cases (s.report .preparing 0 "Validating project") with
    ⟨passed, clear⟩ | ⟨final, stopped⟩
  · refine ⟨e, announce (.error e) passed, ?_, .inl rfl⟩
    intro attempt
    unfold renderWith
    rcases runChain_refused attempt refused with ⟨final, stopped, -⟩ | ⟨again, looked, ran⟩
    · cases clear.symm.trans stopped
    · cases clear.symm.trans looked
      rw [ran]
  · refine ⟨.cancelled, final, ?_, .inr ⟨rfl, stopped⟩⟩
    intro attempt
    unfold renderWith
    rcases runChain_refused attempt refused with ⟨again, looked, ran⟩ | ⟨passed, clear, -⟩
    · cases stopped.symm.trans looked
      rw [ran]
      rfl
    · cases clear.symm.trans stopped

end Quiet

/-- A project with a framed clip, or under the automatic choice one with text, is rendered without
one request, whatever the host can do and whatever the strategies meet. Where only the service may
render it, a framed project is refused before any attempt, unless the flag stopped the render. -/
theorem framed_stays_local (p : Project Float) (settings : RenderSettings Float) (s : Session) :
    (StaysLocal p settings.engine →
      (∀ h : Host, (renderProject h p settings s).2.requests = s.requests) ∧
      ∀ capabilities attempt, OthersOffline attempt →
        (renderWith capabilities attempt p settings s).2.requests = s.requests) ∧
    (p.Framed → settings.engine = .service → ∀ capabilities, ∃ e final,
      (∀ attempt, renderWith capabilities attempt p settings s = (.error e, final)) ∧
      (e.faultClass = .configuration ∨
        e = .cancelled ∧ Stopped (s.report .preparing 0 "Validating project") final)) := by
  constructor
  · intro stays
    constructor
    · intro h
      exact renderWith_requests (attempt_othersOffline h p settings) stays
    · intro capabilities attempt offline
      exact renderWith_requests offline stays
  · intro framed pinned capabilities
    obtain ⟨e, refused, kind⟩ := framed_service_refused capabilities framed pinned
    obtain ⟨failure, final, same, told⟩ := @renderWith_refused capabilities p settings s e refused
    refine ⟨failure, final, same, ?_⟩
    rcases told with told | stopped
    · subst told
      exact .inl kind
    · exact .inr stopped

/-- The one clip at half its size. -/
def halvedClip : Project Float :=
  { oneClip with
    tracks := [⟨"v", .video, [{ (Clip.new "c" "m" 0 : Clip Float) with
      transform := some ⟨0, 0, 0.5, 0.5, 0⟩ }], true⟩] }

def serviceOnly : RenderSettings Float := { (RenderSettings.standard : RenderSettings Float) with
  engine := .service }

theorem framed_stays_local_halved :
    (renderProject shortHost halvedClip RenderSettings.standard shortSession).2.requests = [] ∧
    ∃ e final, renderProject shortHost halvedClip serviceOnly shortSession = (.error e, final) ∧
      final.requests = [] ∧ e.faultClass = .configuration := by
  have half : (⟨0, 0, 0.5, 0.5, 0⟩ : Transform Float).isIdentity = false := by decide +kernel
  have framed : halvedClip.Framed :=
    ⟨_, List.mem_singleton_self _, rfl, _, List.mem_singleton_self _, ⟨_, rfl⟩,
      .inl ⟨_, rfl, half⟩⟩
  have untripped : (Run.check (shortSession.report .preparing 0 "Validating project")).1.isOk =
      true := by
    decide +kernel
  obtain ⟨automatic, -⟩ := framed_stays_local halvedClip RenderSettings.standard shortSession
  obtain ⟨pinned, refused⟩ := framed_stays_local halvedClip serviceOnly shortSession
  obtain ⟨e, final, same, told⟩ := refused framed rfl shortHost.capabilities
  have rendered := same (shortHost.attempt halvedClip serviceOnly)
  have silent := (pinned (.inl ⟨framed, .inr rfl⟩)).1 shortHost
  have made : renderProject shortHost halvedClip serviceOnly shortSession = (.error e, final) :=
    rendered
  rw [made] at silent
  refine ⟨(automatic (.inl ⟨framed, .inl rfl⟩)).1 shortHost, e, final, made, silent, ?_⟩
  rcases told with kind | ⟨-, stopped⟩
  · exact kind
  · rw [stopped] at untripped
    cases untripped

end Montage
