import Montage.Proofs.Render.Conduct
import Montage.Proofs.Render.Fallback
import Montage.Proofs.Stream.Recorded

/- The reports of a whole render. They are cut at the restarts, one before each attempt: within
   a piece nothing goes back, and the report that tells the end is the last of all. -/
namespace Montage

/-- What came through in each of some attempts, from the restart before it on. -/
inductive Heard (attempt : Strategy → Run Bytes) : Session → List (List Report) → Session → Prop where
  | start (s : Session) : Heard attempt s [] s
  | next {s passed t : Session} {strategy : Strategy} {piece : List Report}
      {rest : List (List Report)} (clear : Run.check s = (.ok (), passed))
      (told : passed.afresh.progress.Carries piece (attempt strategy passed.afresh).2.progress)
      (later : Heard attempt (attempt strategy passed.afresh).2 rest t) :
      Heard attempt s (piece :: rest) t

/-- What is told of the end of a render. One that is cancelled or overflows ends in silence. -/
def closing : Except RenderFault RenderOutput → List Report
  | .ok output => [⟨.complete, 100, "Rendered with " ++ output.strategy.name⟩]
  | .error .cancelled | .error .overflow => []
  | .error e => [⟨.failed, 100, e.message⟩]

/-- The reports of a render up to its end: an opening, then a piece for each attempt. -/
structure Narrated (attempt : Strategy → Run Bytes) (s : Session) (opening : List Report)
    (pieces : List (List Report)) (t : Session) : Prop where
  opened : ∃ begun, s.progress.Carries opening begun.progress ∧ Heard attempt begun pieces t
  working : ∀ r ∈ opening ++ pieces.flatten, r.stage.isWork = true

section Pieces
variable {attempt : Strategy → Run Bytes} {s t : Session} {opening : List Report}
  {pieces : List (List Report)}

theorem heard_listened (heard : Heard attempt s pieces t) (h : s.progress.Listened) :
    t.progress.Listened := by
  induction heard with
  | start s => exact h
  | next clear told later ih => exact ih told.listened

theorem check_progress {s passed : Session} {result : Except RenderFault Unit}
    (looked : Run.check s = (result, passed)) : passed.progress = s.progress := by
  rw [Run.check_eq] at looked
  cases looked
  rfl

theorem heard_delivered (heard : Heard attempt s pieces t) :
    t.progress.delivered.toList = s.progress.delivered.toList ++ pieces.flatten := by
  induction heard with
  | start s => simp
  | @next s passed t strategy piece rest clear told later ih =>
    have same : passed.afresh.progress.delivered = s.progress.delivered := by
      rw [← check_progress clear]
      rfl
    rw [ih, told.delivered, same]
    simp

theorem heard_steady (heard : Heard attempt s pieces t) :
    ∀ piece ∈ pieces, piece.IsChain Report.Follows ∧ ∀ r ∈ piece, r.percent ≤ 100 := by
  induction heard with
  | start s => simp
  | next clear told later ih =>
    intro piece member
    cases List.mem_cons.mp member with
    | inl same =>
      subst same
      exact ⟨told.steady, told.percents⟩
    | inr other => exact ih piece other

theorem tried_heard (works : ReportsWork attempt)
    {tries : List Try} (tried : Tried attempt s tries t) (h : s.progress.Listened) :
    ∃ pieces, Heard attempt s pieces t ∧ ∀ r ∈ pieces.flatten, r.stage.isWork = true := by
  induction tried with
  | start s => exact ⟨[], .start s, by simp⟩
  | @next s passed after t x rest clear ran later ih =>
    have again : passed.afresh.progress.Listened := by
      have kept : passed.progress.Listened := by
        rw [check_progress clear]
        exact h
      exact kept.restart
    have worked := works x.strategy passed.afresh
    obtain ⟨piece, told, staged⟩ := Progress.worked_carries again worked
    have reached : after = (attempt x.strategy passed.afresh).2 := by rw [ran]
    subst reached
    obtain ⟨pieces, heard, working⟩ := ih told.listened
    refine ⟨piece :: pieces, .next clear told heard, ?_⟩
    intro r member
    cases List.mem_append.mp member with
    | inl early => exact staged r early
    | inr late => exact working r late

theorem Narrated.delivered (narrated : Narrated attempt s opening pieces t) :
    t.progress.delivered.toList =
      s.progress.delivered.toList ++ (opening ++ pieces.flatten) := by
  obtain ⟨begun, carried, heard⟩ := narrated.opened
  rw [heard_delivered heard, carried.delivered, List.append_assoc]

theorem Narrated.listened (narrated : Narrated attempt s opening pieces t) :
    t.progress.Listened := by
  obtain ⟨begun, carried, heard⟩ := narrated.opened
  exact heard_listened heard carried.listened

/-- Each stretch between restarts, the last of them up to the end. -/
theorem Narrated.steady (narrated : Narrated attempt s opening pieces t) :
    opening.IsChain Report.Follows ∧ (∀ piece ∈ pieces, piece.IsChain Report.Follows) ∧
      ∀ r ∈ opening ++ pieces.flatten, r.percent ≤ 100 := by
  obtain ⟨begun, carried, heard⟩ := narrated.opened
  refine ⟨carried.steady, fun piece member => (heard_steady heard piece member).1, ?_⟩
  intro r member
  cases List.mem_append.mp member with
  | inl early => exact carried.percents r early
  | inr late =>
    obtain ⟨piece, inside, within⟩ := List.mem_flatten.mp late
    exact (heard_steady heard piece inside).2 r within

end Pieces

section Chain
variable {capabilities : Capabilities} {attempt : Strategy → Run Bytes} {p : Project Float}
  {settings : RenderSettings Float} {s : Session}

theorem walk_narrated (works : ReportsWork attempt)
    {pinned : Bool} {mime : String} (plan : List Strategy) (h : s.progress.Listened) :
    ∃ pieces t, Heard attempt s pieces t ∧ (∀ r ∈ pieces.flatten, r.stage.isWork = true) ∧
      (walk attempt pinned mime plan none s).2.progress = t.progress := by
  obtain ⟨tries, t, falls, tells⟩ := @walk_fallsBack attempt pinned mime plan none s
  obtain ⟨pieces, heard, working⟩ := tried_heard works falls.tried h
  refine ⟨pieces, t, heard, working, ?_⟩
  rcases tells with ⟨-, stopped, -⟩ | ⟨same, -⟩
  · exact check_progress stopped
  · rw [(Prod.mk.inj same).2]

/-- What a render says before it attempts anything. -/
theorem opening_carries (h : s.progress.Listened) (message : String) (percent : Nat) :
    ∃ told, s.progress.Carries told (s.report .preparing percent message).progress ∧
      ∀ r ∈ told, r.stage.isWork = true := by
  obtain ⟨told, carried, staged⟩ :=
    @Progress.report_carries s.progress .preparing percent message h
  refine ⟨told, ?_, ?_⟩
  · unfold Session.report
    rw [Session.reported_progress]
    exact carried
  · intro r member
    rw [staged r member]
    rfl

theorem runChain_narrated (works : ReportsWork attempt) (h : s.progress.Listened) :
    ∃ opening pieces t, Narrated attempt s opening pieces t ∧
      (runChain capabilities attempt p settings s).2.progress = t.progress := by
  obtain ⟨one, first, staged⟩ := opening_carries h "Validating project" 0
  have alone : ∃ opening pieces t, Narrated attempt s opening pieces t ∧
      (s.report .preparing 0 "Validating project").progress = t.progress :=
    ⟨one, [], _, ⟨⟨_, first, .start _⟩, by simpa using staged⟩, rfl⟩
  cases planned : planRender capabilities p settings with
  | error e =>
    rcases runChain_refused attempt planned with ⟨final, stopped, ran⟩ | ⟨passed, clear, ran⟩
    · rw [ran, check_progress stopped]
      exact alone
    · rw [ran, check_progress clear]
      exact alone
  | ok plan =>
    rcases runChain_walk attempt planned with ⟨final, stopped, ran⟩ | ⟨passed, clear, ran⟩
    · rw [ran, check_progress stopped]
      exact alone
    · have carried : s.progress.Carries one passed.progress := by
        rw [check_progress clear]
        exact first
      obtain ⟨two, second, ready⟩ := opening_carries carried.listened "Render planned" 100
      obtain ⟨pieces, t, heard, working, reached⟩ := walk_narrated works plan second.listened
      rw [ran]
      refine ⟨one ++ two, pieces, t, ⟨⟨_, carried.trans second, heard⟩, ?_⟩, reached⟩
      intro r member
      rw [List.mem_append, List.mem_append] at member
      rcases member with (early | later) | late
      · exact staged r early
      · exact ready r later
      · exact working r late

end Chain

section Closing
variable {told : List Report} {result : Except RenderFault RenderOutput} {t : Session}

theorem closing_failed {e : RenderFault} (loud : e ≠ .cancelled) (finite : e ≠ .overflow) :
    closing (.error e) = [⟨.failed, 100, e.message⟩] := by
  cases e with
  | cancelled => exact absurd rfl loud
  | overflow => exact absurd rfl finite
  | _ => rfl

theorem announce_carries (h : t.progress.Listened) :
    t.progress.Carries (closing result) (announce result t).progress := by
  cases result with
  | ok output =>
    simp only [announce, Session.reported_progress]
    exact Progress.report_full h
  | error e =>
    by_cases silent : e = .cancelled ∨ e = .overflow
    · rcases silent with rfl | rfl
      · exact Progress.carries_nothing h
      · exact Progress.carries_nothing h
    · obtain ⟨loud, finite⟩ := not_or.mp silent
      have said : announce (.error e) t = t.reported (t.progress.fail e.message) := by
        cases e with
        | cancelled => exact absurd rfl loud
        | overflow => exact absurd rfl finite
        | _ => rfl
      rw [closing_failed loud finite, said, Session.reported_progress]
      exact Progress.report_full h

/-- The report of an end does not go back, whatever was told before. -/
theorem closing_steady (steady : told.IsChain Report.Follows)
    (percents : ∀ r ∈ told, r.percent ≤ 100) :
    (told ++ closing result).IsChain Report.Follows := by
  have full : ∀ r ∈ closing result, r.percent = 100 := by
    intro r member
    unfold closing at member
    split at member <;> simp at member
    · rw [member]
    · rw [member]
  have single : (closing result).IsChain Report.Follows := by
    unfold closing
    split
    · exact .singleton _
    · exact .nil
    · exact .nil
    · exact .singleton _
  apply steady.append single
  intro before last r head _
  have high := full r (List.mem_of_mem_head? head)
  have low := percents before (List.mem_of_mem_getLast? last)
  omega

theorem count_working (working : ∀ r ∈ told, r.stage.isWork = true) (stage : Stage)
    (ends : stage.isWork = false) : told.countP (·.stage = stage) = 0 := by
  rw [List.countP_eq_zero]
  intro r member same
  have works := working r member
  rw [of_decide_eq_true same, ends] at works
  cases works

end Closing

/-- The reports of a render, as long as somebody listens and the strategies report on work alone.
After a success the last one says so, and after a failure the last one has its message; nothing
else does, and a render that is cancelled or overflows says neither. Between two restarts nothing goes
back. -/
theorem progress_tells_the_end (capabilities : Capabilities) {attempt : Strategy → Run Bytes}
    (works : ReportsWork attempt) (p : Project Float) (settings : RenderSettings Float)
    {s : Session} (listened : s.progress.Listened) :
    ∃ result final told, renderWith capabilities attempt p settings s = (result, final) ∧
      final.progress.delivered.toList = s.progress.delivered.toList ++ told ∧
      (∀ output, result = .ok output →
        told.getLast? = some ⟨.complete, 100, "Rendered with " ++ output.strategy.name⟩ ∧
          told.countP (·.stage = .complete) = 1 ∧ told.countP (·.stage = .failed) = 0) ∧
      (∀ e, result = .error e → e ≠ .cancelled → e ≠ .overflow →
        told.getLast? = some ⟨.failed, 100, e.message⟩ ∧
          told.countP (·.stage = .failed) = 1 ∧ told.countP (·.stage = .complete) = 0) ∧
      (result = .error .cancelled ∨ result = .error .overflow →
        told.countP (·.stage = .complete) = 0 ∧ told.countP (·.stage = .failed) = 0) ∧
      (∀ r ∈ told, r.percent ≤ 100) ∧
      ∃ opening pieces t, Narrated attempt s opening pieces t ∧
        told = opening ++ pieces.flatten ++ closing result ∧
        opening.IsChain Report.Follows ∧ (∀ piece ∈ pieces, piece.IsChain Report.Follows) ∧
        (pieces.getLast?.getD opening ++ closing result).IsChain Report.Follows := by
  obtain ⟨opening, pieces, t, narrated, reached⟩ :=
    @runChain_narrated capabilities attempt p settings s works listened
  cases ran : runChain capabilities attempt p settings s with
  | mk result ended =>
    rw [ran] at reached
    have still : ended.progress.Listened := by
      rw [reached]
      exact narrated.listened
    have announced := @announce_carries result ended still
    obtain ⟨first, middle, percents⟩ := narrated.steady
    have complete := count_working narrated.working .complete rfl
    have failed := count_working narrated.working .failed rfl
    have made : renderWith capabilities attempt p settings s =
        (result, announce result ended) := by
      unfold renderWith
      rw [ran]
    refine ⟨result, _, opening ++ pieces.flatten ++ closing result, made, ?_, ?_, ?_, ?_, ?_,
      opening, pieces, t, narrated, rfl, first, middle, ?_⟩
    · rw [announced.delivered, reached, narrated.delivered]
      simp
    · intro output success
      subst success
      simp only [List.countP_append, complete, failed, closing]
      simp
    · intro e failure loud finite
      subst failure
      simp only [List.countP_append, complete, failed, closing_failed loud finite]
      simp
    · rintro (rfl | rfl)
      · simp only [List.countP_append, complete, failed, closing]
        simp
      · simp only [List.countP_append, complete, failed, closing]
        simp
    · intro r member
      cases List.mem_append.mp member with
      | inl before => exact percents r before
      | inr last => exact announced.percents r last
    · cases last : pieces.getLast? with
      | none =>
        apply closing_steady first
        intro r member
        exact percents r (List.mem_append_left _ member)
      | some piece =>
        have inside := List.mem_of_mem_getLast? last
        apply closing_steady (middle piece inside)
        intro r member
        exact percents r (List.mem_append_right _ (List.mem_flatten.mpr ⟨piece, inside, member⟩))

/-- Neither the service nor a transcoder is there. What is said of the preparation goes back to zero
at the restart between the two, and the message of the second failure comes last. -/
theorem progress_tells_the_end_unavailable :
    ∃ e final told,
      renderProject shortHost shortProject shortSettings shortSession = (.error e, final) ∧
      final.progress.delivered.toList = told ∧
      (told.map fun r => (r.stage, r.percent)) =
        [(.preparing, 0), (.preparing, 100), (.preparing, 0), (.failed, 100)] ∧
      told.getLast? = some ⟨.failed, 100, "Unavailable: Transcoder 'ffmpeg' not found"⟩ ∧
      told.countP (·.stage = .failed) = 1 := by
  have text : (match (renderProject shortHost shortProject shortSettings shortSession).1 with
      | .ok _ => none
      | .error e => some e.message) = some "Unavailable: Transcoder 'ffmpeg' not found" := by
    decide +kernel
  have staged : ((renderProject shortHost shortProject shortSettings
      shortSession).2.progress.delivered.toList.map fun r => (r.stage, r.percent)) =
        [(.preparing, 0), (.preparing, 100), (.preparing, 0), (.failed, 100)] := by
    decide +kernel
  have listened : shortSession.progress.Listened := Progress.channel_listened
  obtain ⟨result, final, told, ran, delivered, -, failure, -⟩ :=
    progress_tells_the_end shortHost.capabilities (attempt_works shortHost shortProject shortSettings)
      shortProject shortSettings listened
  have rendered : renderProject shortHost shortProject shortSettings shortSession =
      (result, final) := ran
  rw [rendered] at text staged
  cases result with
  | ok output => cases text
  | error e =>
    have message : e.message = "Unavailable: Transcoder 'ffmpeg' not found" := Option.some.inj text
    have loud : e ≠ .cancelled := by
      intro same
      rw [same] at message
      exact absurd message (by decide)
    have finite : e ≠ .overflow := by
      intro same
      rw [same] at message
      exact absurd message (by decide)
    obtain ⟨last, once, -⟩ := failure e rfl loud finite
    rw [message] at last
    have whole : final.progress.delivered.toList = told := delivered
    rw [whole] at staged
    exact ⟨e, final, told, rendered, whole, staged, last, once⟩

end Montage
