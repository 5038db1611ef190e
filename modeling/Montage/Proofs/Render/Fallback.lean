import Montage.Proofs.Stream.Shooting
import Montage.Render.Chain

/- The walk over the strategies of a plan. A try is a strategy with what came of it; the flag
   is looked at before each. The walk goes on after a try only where the engine is chosen
   automatically and the try leaves the others a chance, and the last try speaks for the
   walk unless the flag stopped it. -/
namespace Montage

structure Try where
  strategy : Strategy
  outcome : Except RenderFault Bytes

namespace Try

/-- What is told when this try is the last. -/
def verdict (mime : String) (x : Try) : Except RenderFault RenderOutput :=
  match x.outcome with
  | .ok bytes =>
    if bytes = [] then .error (.backend (.emptyOutput x.strategy.name))
    else .ok ⟨bytes, mime, x.strategy⟩
  | .error e => .error e

def Recoverable (x : Try) : Prop :=
  match x.outcome with
  | .ok bytes => bytes = []
  | .error e =>
    e.faultClass ≠ .configuration ∧ e.faultClass ≠ .cancelled ∧ e.faultClass ≠ .halted

theorem verdict_ok_iff {mime : String} {x : Try} {out : RenderOutput} :
    x.verdict mime = .ok out ↔
      out.mime = mime ∧ out.strategy = x.strategy ∧ x.outcome = .ok out.bytes ∧ out.bytes ≠ [] := by
  obtain ⟨strategy, outcome⟩ := x
  obtain ⟨bytes, kind, used⟩ := out
  cases outcome with
  | error e => simp [verdict]
  | ok given =>
    by_cases empty : given = []
    · simp only [verdict, empty, if_true, reduceCtorEq, false_iff]
      rintro ⟨-, -, same, full⟩
      cases same
      exact full rfl
    · simp only [verdict, empty, if_false]
      constructor
      · intro same
        cases same
        exact ⟨rfl, rfl, rfl, empty⟩
      · rintro ⟨rfl, rfl, same, -⟩
        cases same
        rfl

theorem verdict_error {mime : String} {x : Try} {e : RenderFault} (told : x.verdict mime = .error e) :
    x.outcome = .error e ∨ x.outcome = .ok [] ∧ e = .backend (.emptyOutput x.strategy.name) := by
  unfold verdict at told
  split at told
  · rename_i bytes given
    split at told
    · rename_i empty
      cases told
      exact .inr ⟨empty ▸ given, rfl⟩
    · cases told
  · rename_i fault given
    cases told
    exact .inl given

end Try

/-- The next attempt may begin its progress at zero. -/
def Session.afresh (s : Session) : Session := { s with progress := s.progress.restart }

/-- These strategies were attempted one after the other, each after a look at the flag that let it
pass, and nothing else was done in between but to restart the progress. -/
inductive Tried (attempt : Strategy → Run Bytes) : Session → List Try → Session → Prop where
  | start (s : Session) : Tried attempt s [] s
  | next {s passed after t : Session} {x : Try} {rest : List Try}
      (clear : Run.check s = (.ok (), passed))
      (ran : attempt x.strategy passed.afresh = (x.outcome, after))
      (later : Tried attempt after rest t) : Tried attempt s (x :: rest) t

/-- The flag was found tripped, and looking at it was the last that happened. -/
def Stopped (s final : Session) : Prop := Run.check s = (.error .cancelled, final)

/-- Tries in the order of a plan, where only a recoverable one has another after it, and that only
where the engine is chosen automatically. -/
structure FallsBack (attempt : Strategy → Run Bytes) (automatic : Prop) (plan : List Strategy)
    (s : Session) (tries : List Try) (t : Session) : Prop where
  tried : Tried attempt s tries t
  inOrder : tries.map (·.strategy) <+: plan
  further : ∀ x ∈ tries.dropLast, automatic ∧ x.Recoverable

/-- The flag stops a walk that could go on, or else the last try speaks for it: one that no other
may follow, or the last of the plan. An earlier failure speaks where nothing was tried. -/
def Tells (mime : String) (automatic : Prop) (plan : List Strategy) (failure : RenderFault)
    (tries : List Try) (t : Session) (result : Except RenderFault RenderOutput) (final : Session) :
    Prop :=
  (result = .error .cancelled ∧ Stopped t final ∧
    ∀ x, tries.getLast? = some x → automatic ∧ x.Recoverable) ∨
  (result, final) = ((tries.getLast?.map (Try.verdict mime)).getD (.error failure), t) ∧
    (tries.map (·.strategy) = plan ∨ ∃ x, tries.getLast? = some x ∧ ¬ (automatic ∧ x.Recoverable))

theorem check_cases (s : Session) :
    (∃ passed, Run.check s = (.ok (), passed)) ∨ ∃ final, Stopped s final := by
  rw [Run.check_eq, Cancel.check]
  unfold Stopped
  rw [Run.check_eq, Cancel.check]
  dsimp only
  split
  · exact .inr ⟨_, rfl⟩
  · exact .inl ⟨_, rfl⟩

theorem endsWalk_eq_false_iff (e : RenderFault) :
    e.endsWalk = false ↔
      e.faultClass ≠ .configuration ∧ e.faultClass ≠ .cancelled ∧ e.faultClass ≠ .halted := by
  unfold RenderFault.endsWalk
  cases e.faultClass <;> simp

section Walk
variable {attempt : Strategy → Run Bytes} {pinned : Bool} {mime : String} {strategy : Strategy}
  {rest : List Strategy} {failure : Option RenderFault} {s passed after final : Session}

theorem walk_stopped (stopped : Stopped s final) :
    walk attempt pinned mime (strategy :: rest) failure s = (.error .cancelled, final) := by
  rw [walk, Steps.bind_run, stopped]

/-- A walk that may not go on ends with the verdict of its try. -/
theorem walk_ends {x : Try} (clear : Run.check s = (.ok (), passed))
    (ran : attempt x.strategy passed.afresh = (x.outcome, after))
    (last : pinned = true ∨ ¬ x.Recoverable) :
    walk attempt pinned mime (x.strategy :: rest) failure s = (x.verdict mime, after) := by
  have restarted : Run.restart passed = (.ok (), passed.afresh) := rfl
  obtain ⟨strategy, outcome⟩ := x
  rw [walk, Steps.bind_run, clear]
  simp only [Steps.bind_run, restarted, Steps.lift_run, ran]
  cases outcome with
  | ok bytes =>
    cases bytes with
    | nil =>
      have chosen : pinned = true := last.resolve_right fun stuck => stuck rfl
      subst chosen
      rfl
    | cons b bs => rfl
  | error e =>
    have ends : (e.endsWalk || pinned) = true := by
      rcases last with chosen | stuck
      · simp [chosen]
      · have final : e.endsWalk = true := by
          cases kind : e.endsWalk with
          | true => rfl
          | false => exact absurd ((endsWalk_eq_false_iff e).mp kind) stuck
        simp [final]
    simp only [ends, if_true]
    rfl

theorem walk_goes_on {x : Try} (clear : Run.check s = (.ok (), passed))
    (ran : attempt x.strategy passed.afresh = (x.outcome, after)) (free : pinned = false)
    (recoverable : x.Recoverable) :
    ∃ e, x.verdict mime = .error e ∧ walk attempt pinned mime (x.strategy :: rest) failure s =
      walk attempt pinned mime rest (some e) after := by
  have restarted : Run.restart passed = (.ok (), passed.afresh) := rfl
  obtain ⟨strategy, outcome⟩ := x
  subst free
  rw [walk, Steps.bind_run, clear]
  simp only [Steps.bind_run, restarted, Steps.lift_run, ran]
  cases outcome with
  | ok bytes =>
    have empty : bytes = [] := recoverable
    subst empty
    exact ⟨_, rfl, rfl⟩
  | error e =>
    have goes : e.endsWalk = false := (endsWalk_eq_false_iff e).mpr recoverable
    refine ⟨e, rfl, ?_⟩
    simp only [goes, Bool.or_self, Bool.false_eq_true, if_false]

theorem fallsBack_next {automatic : Prop} {x : Try} {tries : List Try} {t : Session}
    (clear : Run.check s = (.ok (), passed))
    (ran : attempt x.strategy passed.afresh = (x.outcome, after)) (free : automatic)
    (recoverable : x.Recoverable)
    (h : FallsBack attempt automatic rest after tries t) :
    FallsBack attempt automatic (x.strategy :: rest) s (x :: tries) t where
  tried := .next clear ran h.tried
  inOrder := by
    obtain ⟨left, whole⟩ := h.inOrder
    exact ⟨left, by rw [List.map_cons, List.cons_append, whole]⟩
  further := by
    cases tries with
    | nil => simp
    | cons y tries =>
      intro z member
      rw [List.dropLast_cons_of_ne_nil (by simp)] at member
      rcases List.mem_cons.mp member with rfl | member
      · exact ⟨free, recoverable⟩
      · exact h.further z member

theorem last_next {x y : Try} {tries : List Try} (last : tries.getLast? = some y) :
    (x :: tries).getLast? = some y := by
  rw [List.getLast?_cons, last]
  rfl

theorem tells_next {automatic : Prop} {x : Try} {e e' : RenderFault} {tries : List Try}
    {t : Session} {result : Except RenderFault RenderOutput} (free : automatic)
    (recoverable : x.Recoverable) (told : x.verdict mime = .error e)
    (h : Tells mime automatic rest e tries t result final) :
    Tells mime automatic (x.strategy :: rest) e' (x :: tries) t result final := by
  rcases h with ⟨cancelled, stopped, may⟩ | ⟨same, ends⟩
  · refine .inl ⟨cancelled, stopped, ?_⟩
    intro y final
    cases last : tries.getLast? with
    | none =>
      rw [List.getLast?_eq_none_iff.mp last] at final
      cases final
      exact ⟨free, recoverable⟩
    | some z =>
      cases (last_next last).symm.trans final
      exact may _ last
  · refine .inr ⟨?_, ?_⟩
    · rw [same]
      cases last : tries.getLast? with
      | none =>
        rw [List.getLast?_eq_none_iff.mp last, ← told]
        rfl
      | some z =>
        rw [last_next last]
        rfl
    · rcases ends with whole | ⟨y, last, stuck⟩
      · left
        rw [List.map_cons, whole]
      · exact .inr ⟨y, last_next last, stuck⟩

theorem walk_fallsBack (plan : List Strategy) (failure : Option RenderFault) (s : Session) :
    ∃ tries t, FallsBack attempt (pinned = false) plan s tries t ∧
      Tells mime (pinned = false) plan (failure.getD (.unavailable .noStrategy)) tries t
        (walk attempt pinned mime plan failure s).1 (walk attempt pinned mime plan failure s).2 := by
  induction plan generalizing failure s with
  | nil => exact ⟨[], s, ⟨.start s, List.prefix_rfl, by simp⟩, .inr ⟨rfl, .inl rfl⟩⟩
  | cons strategy rest ih =>
    rcases check_cases s with ⟨passed, clear⟩ | ⟨final, stopped⟩
    · obtain ⟨x, after, rfl, ran⟩ : ∃ (x : Try) (after : Session), strategy = x.strategy ∧
          attempt x.strategy passed.afresh = (x.outcome, after) :=
        ⟨⟨strategy, (attempt strategy passed.afresh).1⟩, (attempt strategy passed.afresh).2, rfl, rfl⟩
      by_cases goes : pinned = false ∧ x.Recoverable
      · obtain ⟨free, recoverable⟩ := goes
        obtain ⟨e, told, same⟩ := walk_goes_on clear ran free recoverable
        obtain ⟨tries, t, falls, tells⟩ := ih (some e) after
        rw [same]
        exact ⟨x :: tries, t, fallsBack_next clear ran free recoverable falls,
          tells_next free recoverable told tells⟩
      · have last : pinned = true ∨ ¬ x.Recoverable := by
          cases pinned with
          | true => exact .inl rfl
          | false => exact .inr fun recoverable => goes ⟨rfl, recoverable⟩
        rw [walk_ends clear ran last]
        exact ⟨[x], after, ⟨.next clear ran (.start after), ⟨rest, rfl⟩, by simp⟩,
          .inr ⟨rfl, .inr ⟨x, rfl, goes⟩⟩⟩
    · rw [walk_stopped stopped]
      exact ⟨[], s, ⟨.start s, List.nil_prefix, by simp⟩, .inl ⟨rfl, stopped, by simp⟩⟩

end Walk

section Result
variable {mime : String} {automatic : Prop} {plan : List Strategy} {failure : RenderFault}
  {tries : List Try} {t final : Session} {result : Except RenderFault RenderOutput}

/-- A walk over some strategies that was not stopped ends with a try. -/
theorem tells_cases (h : Tells mime automatic plan failure tries t result final)
    (some_plan : plan ≠ []) :
    (result = .error .cancelled ∧ Stopped t final ∧
      ∀ x, tries.getLast? = some x → automatic ∧ x.Recoverable) ∨
    final = t ∧ ∃ x, tries.getLast? = some x ∧ result = x.verdict mime ∧
      (tries.map (·.strategy) = plan ∨ ¬ (automatic ∧ x.Recoverable)) := by
  rcases h with stopped | ⟨same, ends⟩
  · exact .inl stopped
  · obtain ⟨told, rfl⟩ := Prod.mk.inj same
    refine .inr ⟨rfl, ?_⟩
    cases last : tries.getLast? with
    | none =>
      have empty := List.getLast?_eq_none_iff.mp last
      subst empty
      rcases ends with whole | ⟨x, missing, -⟩
      · exact absurd whole.symm some_plan
      · cases missing
    | some x =>
      rw [last] at told ends
      refine ⟨x, rfl, told, ends.imp_right ?_⟩
      rintro ⟨y, same, stuck⟩
      cases same
      exact stuck

theorem recoverable_verdict {x : Try} (recoverable : x.Recoverable) (out : RenderOutput) :
    x.verdict mime ≠ .ok out := by
  intro told
  obtain ⟨-, -, given, full⟩ := Try.verdict_ok_iff.mp told
  unfold Try.Recoverable at recoverable
  rw [given] at recoverable
  exact full recoverable

theorem tells_ok_iff (h : Tells mime automatic plan failure tries t result final)
    (some_plan : plan ≠ []) (out : RenderOutput) :
    result = .ok out ↔ out.mime = mime ∧ ∃ x, tries.getLast? = some x ∧
      out.strategy = x.strategy ∧ x.outcome = .ok out.bytes ∧ out.bytes ≠ [] := by
  have verdict : (∃ x, tries.getLast? = some x ∧ x.verdict mime = .ok out) ↔
      out.mime = mime ∧ ∃ x, tries.getLast? = some x ∧
        out.strategy = x.strategy ∧ x.outcome = .ok out.bytes ∧ out.bytes ≠ [] := by
    simp only [Try.verdict_ok_iff]
    constructor
    · rintro ⟨x, last, kind, used⟩
      exact ⟨kind, x, last, used⟩
    · rintro ⟨kind, x, last, used⟩
      exact ⟨x, last, kind, used⟩
  rw [← verdict]
  rcases tells_cases h some_plan with ⟨cancelled, -, may⟩ | ⟨-, x, last, told, -⟩
  · constructor
    · intro given
      rw [cancelled] at given
      cases given
    · rintro ⟨x, last, given⟩
      exact absurd given (recoverable_verdict (may x last).2 out)
  · rw [told]
    constructor
    · intro given
      exact ⟨x, last, given⟩
    · rintro ⟨y, same, given⟩
      cases last.symm.trans same
      exact given

theorem tells_error (h : Tells mime automatic plan failure tries t result final)
    (some_plan : plan ≠ []) {e : RenderFault} (failed : result = .error e) :
    e = .cancelled ∧ Stopped t final ∨
      final = t ∧ ∃ x, tries.getLast? = some x ∧ (x.outcome = .error e ∨
        x.outcome = .ok [] ∧ e = .backend (.emptyOutput x.strategy.name)) := by
  rcases tells_cases h some_plan with ⟨cancelled, stopped, -⟩ | ⟨same, x, last, told, -⟩
  · rw [cancelled] at failed
    cases failed
    exact .inl ⟨rfl, stopped⟩
  · exact .inr ⟨same, x, last, Try.verdict_error (told.symm.trans failed)⟩

theorem tells_thorough (h : Tells mime automatic plan failure tries t result final)
    (some_plan : plan ≠ []) (may : ∀ x, tries.getLast? = some x → automatic ∧ x.Recoverable) :
    Stopped t final ∨ tries.map (·.strategy) = plan := by
  rcases tells_cases h some_plan with ⟨-, stopped, -⟩ | ⟨-, x, last, -, ends⟩
  · exact .inl stopped
  · exact .inr (ends.resolve_right fun stuck => stuck (may x last))

end Result

theorem strategies_nonempty {engine : Engine} {features : Features} {host : Capabilities}
    {format : Container} {plan : List Strategy}
    (planned : strategies engine features host format = .ok plan) : plan ≠ [] := by
  rintro rfl
  unfold strategies at planned
  split at planned
  · split at planned <;> cases planned
  · split at planned <;> cases planned
  · cases planned
  · simp at planned

theorem planRender_nonempty {capabilities : Capabilities} {p : Project Float}
    {settings : RenderSettings Float} {plan : List Strategy}
    (planned : planRender capabilities p settings = .ok plan) : plan ≠ [] := by
  unfold planRender at planned
  simp only [bind, Except.bind] at planned
  split at planned
  · cases planned
  · split at planned
    · cases planned
    · split at planned
      · cases planned
      · exact strategies_nonempty planned

/-- What a render says and looks at before its first attempt. -/
theorem runChain_walk {capabilities : Capabilities} (attempt : Strategy → Run Bytes)
    {p : Project Float} {settings : RenderSettings Float} {plan : List Strategy} {s : Session}
    (planned : planRender capabilities p settings = .ok plan) :
    (∃ final, Stopped (s.report .preparing 0 "Validating project") final ∧
        runChain capabilities attempt p settings s = (.error .cancelled, final)) ∨
      ∃ passed, Run.check (s.report .preparing 0 "Validating project") = (.ok (), passed) ∧
        runChain capabilities attempt p settings s =
          walk attempt (settings.engine != .automatic) settings.format.mime plan none
            (passed.report .preparing 100 "Render planned") := by
  have reported : Run.report .preparing 0 "Validating project" s =
      (.ok (), s.report .preparing 0 "Validating project") := rfl
  unfold runChain
  rw [Steps.bind_run, reported]
  dsimp only
  rw [Steps.bind_run]
  rcases check_cases (s.report .preparing 0 "Validating project") with
    ⟨passed, clear⟩ | ⟨final, stopped⟩
  · refine .inr ⟨passed, clear, ?_⟩
    rw [clear, planned]
    rfl
  · refine .inl ⟨final, stopped, ?_⟩
    rw [stopped]

/-- A render that may not begin attempts nothing. -/
theorem runChain_refused {capabilities : Capabilities} (attempt : Strategy → Run Bytes)
    {p : Project Float} {settings : RenderSettings Float} {e : RenderFault} {s : Session}
    (refused : planRender capabilities p settings = .error e) :
    (∃ final, Stopped (s.report .preparing 0 "Validating project") final ∧
        runChain capabilities attempt p settings s = (.error .cancelled, final)) ∨
      ∃ passed, Run.check (s.report .preparing 0 "Validating project") = (.ok (), passed) ∧
        runChain capabilities attempt p settings s = (.error e, passed) := by
  have reported : Run.report .preparing 0 "Validating project" s =
      (.ok (), s.report .preparing 0 "Validating project") := rfl
  unfold runChain
  rw [Steps.bind_run, reported]
  dsimp only
  rw [Steps.bind_run]
  rcases check_cases (s.report .preparing 0 "Validating project") with
    ⟨passed, clear⟩ | ⟨final, stopped⟩
  · refine .inr ⟨passed, clear, ?_⟩
    rw [clear, refused]
    rfl
  · refine .inl ⟨final, stopped, ?_⟩
    rw [stopped]

/-- A render that may begin attempts the strategies of its plan in order, each after a look at the
flag. It goes on to another one exactly where the engine is chosen automatically and the one before
gave nothing or failed for no reason of configuration or cancellation and without an overflow. Its
result is that of the last attempt, unless the flag stopped it. -/
theorem chain_falls_back {capabilities : Capabilities} (attempt : Strategy → Run Bytes)
    {p : Project Float} {settings : RenderSettings Float} {plan : List Strategy} (s : Session)
    (planned : planRender capabilities p settings = .ok plan) :
    ∃ result final, runChain capabilities attempt p settings s = (result, final) ∧
      (Stopped (s.report .preparing 0 "Validating project") final ∧ result = .error .cancelled ∨
      ∃ passed tries t, Run.check (s.report .preparing 0 "Validating project") = (.ok (), passed) ∧
        FallsBack attempt (settings.engine = .automatic) plan
          (passed.report .preparing 100 "Render planned") tries t ∧
        ((∀ x, tries.getLast? = some x → settings.engine = .automatic ∧ x.Recoverable) →
          Stopped t final ∨ tries.map (·.strategy) = plan) ∧
        (∀ out, result = .ok out ↔ out.mime = settings.format.mime ∧
          ∃ x, tries.getLast? = some x ∧ out.strategy = x.strategy ∧
            x.outcome = .ok out.bytes ∧ out.bytes ≠ []) ∧
        ∀ e, result = .error e → e = .cancelled ∧ Stopped t final ∨
          final = t ∧ ∃ x, tries.getLast? = some x ∧ (x.outcome = .error e ∨
            x.outcome = .ok [] ∧ e = .backend (.emptyOutput x.strategy.name))) := by
  have some_plan := planRender_nonempty planned
  have free : ((settings.engine != .automatic) = false) = (settings.engine = .automatic) := by
    simp
  rcases runChain_walk attempt planned with ⟨final, stopped, ran⟩ | ⟨passed, clear, ran⟩
  · exact ⟨_, final, ran, .inl ⟨stopped, rfl⟩⟩
  · obtain ⟨tries, t, falls, tells⟩ := @walk_fallsBack attempt
      (settings.engine != .automatic) settings.format.mime plan none
      (passed.report .preparing 100 "Render planned")
    rw [free] at falls tells
    exact ⟨_, _, ran, .inr ⟨passed, tries, t, clear, falls, tells_thorough tells some_plan,
      tells_ok_iff tells some_plan, fun e => tells_error tells some_plan⟩⟩

/-- One clip of ten seconds. -/
def oneClip : Project Float :=
  { id := "p"
    name := "p"
    mediaFiles := [MediaFile.ofVideo "m" "/v/a.mp4" 10 64 64 10]
    tracks := [⟨"v", .video, [Clip.new "c" "m" 0], false⟩]
    transitions := []
    framerate := 10 }

/-- The service cannot be reached, the pipeline gives nothing, and the filter graph one byte. -/
def thirdWorks : Strategy → Run Bytes
  | .nativeService => throw (.network "unreachable")
  | .streaming => return []
  | .filterGraph => return [0x66]

def idleSession : Session := Session.start Progress.channel Cancel.clear (Clock.stepping 10) ⟨[], []⟩

theorem oneClip_planned : planRender ⟨true, true⟩ oneClip RenderSettings.standard =
    .ok [.nativeService, .streaming, .filterGraph] := by
  have known : (planRender ⟨true, true⟩ oneClip RenderSettings.standard).toOption =
      some [.nativeService, .streaming, .filterGraph] := by
    decide +kernel
  cases planned : planRender ⟨true, true⟩ oneClip RenderSettings.standard with
  | error e =>
    rw [planned] at known
    cases known
  | ok plan =>
    rw [planned] at known
    cases known
    rfl

theorem chain_falls_back_twice :
    ∃ (passed t : Session) (tries : List Try),
      FallsBack thirdWorks True [.nativeService, .streaming, .filterGraph]
        (passed.report .preparing 100 "Render planned") tries t ∧
      ∃ x, tries.getLast? = some x ∧ x.strategy = .filterGraph ∧ x.outcome = .ok [0x66] := by
  obtain ⟨result, final, ran, law⟩ := chain_falls_back thirdWorks idleSession oneClip_planned
  have works : ((runChain ⟨true, true⟩ thirdWorks oneClip RenderSettings.standard
      idleSession).1.toOption.map fun out => (out.bytes, out.strategy)) =
        some ([0x66], .filterGraph) := by
    decide +kernel
  rw [ran] at works
  cases result with
  | error e => cases works
  | ok out =>
    obtain ⟨bytes, mime, strategy⟩ := out
    cases works
    rcases law with ⟨-, failed⟩ | ⟨passed, tries, t, -, falls, -, succeeds, -⟩
    · cases failed
    · obtain ⟨-, x, last, same, given, -⟩ := (succeeds _).mp rfl
      have automatic : ((RenderSettings.standard : RenderSettings Float).engine = .automatic) =
          True := eq_true rfl
      rw [automatic] at falls
      exact ⟨passed, t, tries, falls, x, last, same.symm, given⟩

end Montage
