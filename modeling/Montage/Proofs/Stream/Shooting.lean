import Montage.Stream.Pipeline

/- What steps of a streaming render keep. A step may fail, and what it did stays done, so a
   property is kept only if it holds after a success and after a failure alike. -/
namespace Montage

/-- Steps on a state that may fail. -/
abbrev Steps (ε σ α : Type) := ExceptT ε (StateM σ) α

namespace Steps
variable {ε σ α β : Type}

theorem bind_run (x : Steps ε σ α) (f : α → Steps ε σ β) (s : σ) :
    (x >>= f) s = match x s with
      | (.ok a, s) => f a s
      | (.error e, s) => (.error e, s) := by
  cases ran : x s with
  | mk result after =>
    cases result with
    | ok a =>
      simp [bind, ExceptT.bind, ExceptT.mk, ExceptT.bindCont, StateT.bind, ran]
    | error e =>
      simp only [bind, ExceptT.bind, ExceptT.mk, StateT.bind, ran]
      rfl

theorem pure_run (a : α) (s : σ) : (pure a : Steps ε σ α) s = (.ok a, s) := rfl
theorem get_run (s : σ) : (get : Steps ε σ σ) s = (.ok s, s) := rfl
theorem set_run (t s : σ) : (set t : Steps ε σ PUnit) s = (.ok ⟨⟩, t) := rfl
theorem modify_run (f : σ → σ) (s : σ) : (modify f : Steps ε σ PUnit) s = (.ok ⟨⟩, f s) := rfl

/-- A step whose failure is looked at instead of passed on. -/
theorem lift_run (x : Steps ε σ α) (s : σ) :
    (ExceptT.lift (ExceptT.run x) : Steps ε σ (Except ε α)) s = (.ok (x s).1, (x s).2) := rfl

/-- However the step ends, a state with the property becomes one with the property. -/
def Keeps (held : σ → Prop) (step : Steps ε σ α) : Prop := ∀ s, held s → held (step s).2

variable {held : σ → Prop}

theorem keeps_pure (a : α) : Keeps held (pure a : Steps ε σ α) := fun _ h => h

theorem keeps_throw (e : ε) : Keeps held (throw e : Steps ε σ α) := fun _ h => h

/-- What follows a failure does not happen. -/
theorem keeps_failed (e : ε) (f : α → Steps ε σ β) :
    Keeps held ((throw e : Steps ε σ α) >>= f) := by
  intro s h
  rw [bind_run]
  exact h

theorem keeps_modify {f : σ → σ} (kept : ∀ s, held s → held (f s)) :
    Keeps held (modify f : Steps ε σ PUnit) := kept

theorem keeps_bind {x : Steps ε σ α} {f : α → Steps ε σ β} (first : Keeps held x)
    (rest : ∀ a, Keeps held (f a)) : Keeps held (x >>= f) := by
  intro s h
  have after := first s h
  rw [bind_run]
  cases ran : x s with
  | mk result middle =>
    rw [ran] at after
    cases result with
    | ok a => exact rest a middle after
    | error e => exact after

/-- Whatever state is read, what follows keeps the property. -/
theorem keeps_read {f : σ → Steps ε σ β} (rest : ∀ t, Keeps held (f t)) :
    Keeps held (get >>= f) := by
  intro s h
  rw [bind_run]
  exact rest s s h

/-- The state that is read is the one at hand. -/
theorem keeps_get {f : σ → Steps ε σ β} (rest : ∀ s, held s → held (f s s).2) :
    Keeps held (get >>= f) := by
  intro s h
  rw [bind_run]
  exact rest s h

/-- A loop whose body keeps the property. -/
theorem keeps_forIn {γ : Type} {body : γ → β → Steps ε σ (ForInStep β)}
    (each : ∀ x b, Keeps held (body x b)) (xs : List γ) (b : β) :
    Keeps held (forIn xs b body) := by
  induction xs generalizing b with
  | nil =>
    rw [List.forIn_nil]
    exact keeps_pure b
  | cons x xs ih =>
    rw [List.forIn_cons]
    apply keeps_bind (each x b)
    intro turn
    cases turn with
    | done b => exact keeps_pure b
    | yield b => exact ih b

/-- A step that ends with one property when it succeeds and, by its error, with another when it
fails. -/
def Ends (held done : σ → Prop) (failed : ε → σ → Prop) (step : Steps ε σ α) : Prop :=
  ∀ s, held s → match step s with
    | (.ok _, after) => done after
    | (.error e, after) => failed e after

variable {middle done : σ → Prop} {failed : ε → σ → Prop}

theorem ends_bind {x : Steps ε σ α} {f : α → Steps ε σ β} (first : Ends held middle failed x)
    (rest : ∀ a, Ends middle done failed (f a)) : Ends held done failed (x >>= f) := by
  intro s h
  have after := first s h
  rw [bind_run]
  cases ran : x s with
  | mk result later =>
    rw [ran] at after
    cases result with
    | ok a => exact rest a later after
    | error e => exact after

theorem ends_pure (a : α) : Ends held held failed (pure a : Steps ε σ α) := fun _ h => h

/-- What is kept anyhow is kept up to a failure. -/
theorem Keeps.ends {step : Steps ε σ α} (kept : Keeps held step)
    (fails : ∀ e s, held s → failed e s) : Ends held held failed step := by
  intro s h
  have after := kept s h
  cases ran : step s with
  | mk result later =>
    rw [ran] at after
    cases result with
    | ok a => exact after
    | error e => exact fails e later after

theorem Ends.keeps {step : Steps ε σ α} (ends : Ends held held (fun _ => held) step) :
    Keeps held step := by
  intro s h
  have after := ends s h
  cases ran : step s with
  | mk result later =>
    rw [ran] at after
    cases result <;> exact after

variable {pre : σ → Prop} {post : α → σ → Prop}

/-- Whenever the step succeeds, its result and the state after it are as said. -/
def Yields (pre : σ → Prop) (step : Steps ε σ α) (post : α → σ → Prop) : Prop :=
  ∀ s, pre s → ∀ a after, step s = (.ok a, after) → post a after

theorem yields_pure {a : α} (holds : ∀ s, pre s → post a s) :
    Yields pre (pure a : Steps ε σ α) post := by
  intro s h b after ran
  cases ran
  exact holds s h

theorem yields_throw (e : ε) : Yields pre (throw e : Steps ε σ α) post := by
  intro s h a after ran
  cases ran

theorem yields_modify {f : σ → σ} {post : σ → Prop} (holds : ∀ s, pre s → post (f s)) :
    Yields pre (modify f : Steps ε σ PUnit) (fun _ => post) := by
  intro s h a after ran
  cases ran
  exact holds s h

/-- A fact that does not speak of the state is known from there on. -/
theorem yields_given {q : Prop} {step : Steps ε σ α} (known : q → Yields pre step post) :
    Yields (fun s => q ∧ pre s) step post :=
  fun s h => known h.1 s h.2

theorem yields_bind {x : Steps ε σ α} {f : α → Steps ε σ β} {mid : α → σ → Prop}
    {post : β → σ → Prop} (first : Yields pre x mid) (rest : ∀ a, Yields (mid a) (f a) post) :
    Yields pre (x >>= f) post := by
  intro s h b after ran
  rw [bind_run] at ran
  cases made : x s with
  | mk result middle =>
    rw [made] at ran
    cases result with
    | ok a => exact rest a middle (first s h a middle made) b after ran
    | error e => cases ran

end Steps

/-- The accounts of decoders and writers are as they were. -/
structure Session.SameBooks (s origin : Session) : Prop where
  books : s.books = origin.books
  opens : s.opens = origin.opens
  opened : s.writersOpened = origin.writersOpened
  writers : s.writers = origin.writers

theorem Session.SameBooks.refl (s : Session) : s.SameBooks s := ⟨rfl, rfl, rfl, rfl⟩

namespace Run

/-- A step that has nothing to do with decoders and writers. -/
def Unbooked {α : Type} (step : Run α) : Prop := ∀ s : Session, (step s).2.SameBooks s

theorem reported_books (s : Session) (p : Progress) : (s.reported p).SameBooks s := by
  unfold Session.reported
  dsimp only
  split <;> exact ⟨rfl, rfl, rfl, rfl⟩

theorem report_unbooked (stage : Stage) (percent : Nat) (message : String) :
    Unbooked (report stage percent message) :=
  fun _ => reported_books _ _

/-- Counters are reported to the progress of the session, or overflow. -/
theorem fraction_run (stage : Stage) (done total : Nat) (message : String) (s : Session) :
    fraction stage done total message s =
      match s.progress.fraction stage done total message with
      | some p => (.ok (), s.reported p)
      | none => (.error .overflow, s) := by
  simp only [fraction, Steps.bind_run, Steps.get_run, Session.fraction]
  cases s.progress.fraction stage done total message <;> rfl

theorem fraction_unbooked (stage : Stage) (done total : Nat) (message : String) :
    Unbooked (fraction stage done total message) := by
  intro s
  rw [fraction_run]
  split
  · exact reported_books _ _
  · exact .refl s

theorem pass_unbooked (m : Moment) : Unbooked (pass m) := fun _ => ⟨rfl, rfl, rfl, rfl⟩

theorem check_eq (s : Session) :
    check s = (s.cancel.check.1, { s with cancel := s.cancel.check.2 }) := by
  simp only [check, Steps.bind_run, Steps.get_run, Steps.set_run]
  cases s.cancel.check.1 <;> rfl

theorem check_unbooked : Unbooked check := fun s => by
  rw [check_eq]
  exact ⟨rfl, rfl, rfl, rfl⟩

end Run

section Loops
open Steps
variable {held : Reel → Prop}

theorem writer_keeps : Keeps held Shoot.writer := by
  apply keeps_get
  intro reel h
  cases reel.writer <;> exact h

/-- What every part of a frame keeps, up to a failure, is kept by all of them. -/
theorem frames_end {failed : RenderFault → Reel → Prop} {p : Production}
    (looked : Ends held held failed (Shoot.lift Run.check))
    (composed : ∀ t, Ends held held failed (p.compose t))
    (encoded : ∀ index canvas, Ends held held failed (p.encodeFrame index canvas))
    (told : ∀ done total message,
      Ends held held failed (Shoot.lift (Run.fraction .rendering done total message)))
    (n index : Nat) : Ends held held failed (p.frames n index) := by
  induction n generalizing index with
  | zero => exact ends_pure _
  | succ n ih =>
    apply ends_bind looked
    intro _
    apply ends_bind (composed _)
    intro canvas
    apply ends_bind (encoded index canvas)
    intro _
    apply ends_bind (told _ _ _)
    intro _
    exact ih (index + 1)

/- What every part of a frame or of a block keeps is kept by all of them. -/
variable (looked : Keeps held (Shoot.lift Run.check))
include looked

theorem frames_keep {p : Production} (composed : ∀ t, Keeps held (p.compose t))
    (encoded : ∀ index canvas, Keeps held (p.encodeFrame index canvas))
    (told : ∀ done total message,
      Keeps held (Shoot.lift (Run.fraction .rendering done total message))) (n index : Nat) :
    Keeps held (p.frames n index) :=
  Ends.keeps <| frames_end (looked.ends fun _ _ h => h) (fun t => (composed t).ends fun _ _ h => h)
    (fun index canvas => (encoded index canvas).ends fun _ _ h => h)
    (fun done total message => (told done total message).ends fun _ _ h => h) n index

theorem blocks_keep (passed : ∀ m, Keeps held (Shoot.lift (Run.pass m)))
    (replaced : ∀ w,
      Keeps held (modify fun reel : Reel => { reel with writer := some w } : Shoot PUnit))
    (told : ∀ done total message,
      Keeps held (Shoot.lift (Run.fraction .encoding done total message)))
    (shape : StreamShape) (mix : Mix Float32) (size n start : Nat) :
    Keeps held (Production.blocks shape mix size n start) := by
  induction n generalizing start with
  | zero => exact keeps_pure _
  | succ n ih =>
    rw [Production.blocks]
    split
    · exact keeps_pure _
    · apply keeps_bind looked
      intro _
      refine keeps_bind writer_keeps ?_
      intro w
      apply keeps_bind (passed _)
      intro _
      split
      · exact keeps_throw _
      · apply keeps_bind (replaced _)
        intro _
        apply keeps_bind (told _ _ _)
        intro _
        exact ih _

end Loops

/-- A teardown aborts a writer that is still in use. -/
@[simp] theorem Reel.teardown_writers (reel : Reel) :
    reel.teardown.writers =
      reel.session.writers ++ (reel.writer.map fun w => (⟨w, false⟩ : UsedWriter)).toList :=
  rfl

namespace Production

/-- What stays the same over the streaming render of a project on a host. -/
def ofHost (h : Host) (p : Project Float) (settings : RenderSettings Float) : Production :=
  ⟨h, p, p.layers, outputSpec h.config.render p settings, slotTuning h.config.render,
    totalFrames p.duration settings.framerate⟩

/-- The reel of a render that has opened its writer. -/
def begun (p : Production) (s : Session) (w : Writer) : Reel :=
  ⟨{ s with writersOpened := s.writersOpened + 1 }, p.layers.map fun _ => .vacant, some w⟩

end Production

section Streaming
variable {h : Host} {p : Project Float} {settings : RenderSettings Float} (s : Session)

theorem renderByStreaming_untimed (late : ¬ h.config.render.Timed) :
    renderByStreaming h p settings s = (.error .overflow, s) := by
  unfold renderByStreaming
  exact if_neg late

theorem renderByStreaming_unopened {e : RenderFault} (timed : h.config.render.Timed)
    (failed : h.backend.openWriter (outputSpec h.config.render p settings) = .error e) :
    renderByStreaming h p settings s = (.error e, s) := by
  unfold renderByStreaming
  simp only [if_pos timed, failed]

/-- With a writer the steps are taken, and what they leave is torn down. -/
theorem renderByStreaming_shoots {w : Writer} {result : Except RenderFault Bytes} {reel : Reel}
    (timed : h.config.render.Timed)
    (opened : h.backend.openWriter (outputSpec h.config.render p settings) = .ok w)
    (ran : (Production.ofHost h p settings).shoot ((Production.ofHost h p settings).begun s w) =
      (result, reel)) :
    renderByStreaming h p settings s = (result, reel.teardown) := by
  rw [Production.ofHost, Production.begun] at ran
  unfold renderByStreaming
  simp only [if_pos timed, opened, ran]

end Streaming
end Montage
