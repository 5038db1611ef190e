import Mathlib
import Montage.Proofs.Stream.Accounts
import Montage.Proofs.Stream.Recorded

/- Every way out of a streaming render goes through the teardown. The backend keeps one set of books
   for all its decoders, and each layer has a seat for one of them: idle, running or done. What is
   entered into the books is what becomes of the seats, so that a decoder or a frame that got lost
   would be missing there. Only an overflow is no way out. The writer is in use until it is finished,
   and finishing it is the last step that can matter to the result. -/
namespace Montage

namespace Seat

/-- Decoders of the layer that are still open. -/
def working (seat : Seat) : Nat :=
  match seat.state with
  | .running _ => 1
  | _ => 0

/-- Frames of the layer that were not let go. -/
def frames (seat : Seat) : Nat :=
  match seat.state with
  | .running slot => slot.queue.size
  | _ => 0

/-- The layer has opened at most one decoder, and it has its slot as long as that is open. -/
def Kept (seat : Seat) : Prop :=
  match seat.state with
  | .idle => seat.opens = 0
  | .running slot => seat.opens = 1 ∧ slot.closed = false ∧ ∃ others, slot.Accounted others
  | .done => seat.opens ≤ 1

theorem Kept.once {seat : Seat} (kept : seat.Kept) : seat.opens ≤ 1 := by
  unfold Kept at kept
  split at kept
  · omega
  · omega
  · exact kept

end Seat

/-- The books have room for what the seats have opened and hold. -/
structure Covered (seats : List Seat) (books : Usage) : Prop where
  opens : (seats.map Seat.opens).sum ≤ books.opened
  frames : (seats.map Seat.frames).sum ≤ books.live

/-- Seats that took the place of others, while the books went on with what they did. -/
structure Entered (before : List Seat) (books : Usage) (after : List Seat) (later : Usage) : Prop where
  opened : later.opened + (before.map Seat.opens).sum = books.opened + (after.map Seat.opens).sum
  closed : later.closed + (after.map Seat.working).sum + (before.map Seat.opens).sum =
    books.closed + (before.map Seat.working).sum + (after.map Seat.opens).sum
  live : later.live + (before.map Seat.frames).sum = books.live + (after.map Seat.frames).sum

namespace Entered
variable {before middle after : List Seat} {seat moved : Seat} {books between later : Usage}

theorem refl (seats : List Seat) (books : Usage) : Entered seats books seats books := ⟨rfl, rfl, rfl⟩

theorem trans (first : Entered before books middle between)
    (next : Entered middle between after later) : Entered before books after later := by
  obtain ⟨opened, closed, live⟩ := first
  obtain ⟨opened', closed', live'⟩ := next
  exact ⟨by omega, by omega, by omega⟩

theorem one_iff : Entered [seat] books [moved] later ↔
    later.opened + seat.opens = books.opened + moved.opens ∧
      later.closed + moved.working + seat.opens = books.closed + seat.working + moved.opens ∧
      later.live + seat.frames = books.live + moved.frames := by
  constructor
  · rintro ⟨opened, closed, live⟩
    exact ⟨by simpa using opened, by simpa using closed, by simpa using live⟩
  · rintro ⟨opened, closed, live⟩
    exact ⟨by simpa using opened, by simpa using closed, by simpa using live⟩

/-- What is done to one seat and then to others. -/
theorem cons (first : Entered [seat] books [moved] between)
    (next : Entered before between after later) :
    Entered (seat :: before) books (moved :: after) later := by
  obtain ⟨opened, closed, live⟩ := one_iff.mp first
  obtain ⟨opened', closed', live'⟩ := next
  constructor
  all_goals
    simp only [List.map_cons, List.sum_cons]
    omega

theorem covered (entered : Entered before books after later) (covered : Covered before books) :
    Covered after later := by
  obtain ⟨opened, -, live⟩ := entered
  obtain ⟨opens, frames⟩ := covered
  exact ⟨by omega, by omega⟩

/-- Books that tell what became of some seats have room for them. -/
theorem room (entered : Entered [] books after later) : Covered after later :=
  entered.covered ⟨Nat.zero_le _, Nat.zero_le _⟩

/-- What the books hold of the other seats stays in them. -/
theorem covered_rest (entered : Entered [seat] books [moved] between)
    (covered : Covered (seat :: before) books) : Covered before between := by
  obtain ⟨opened, -, live⟩ := one_iff.mp entered
  obtain ⟨opens, frames⟩ := covered
  simp only [List.map_cons, List.sum_cons] at opens frames
  exact ⟨by omega, by omega⟩

end Entered

theorem Covered.head {seat : Seat} {rest : List Seat} {books : Usage}
    (covered : Covered (seat :: rest) books) :
    seat.opens ≤ books.opened ∧ seat.frames ≤ books.live := by
  obtain ⟨opens, frames⟩ := covered
  simp only [List.map_cons, List.sum_cons] at opens frames
  exact ⟨by omega, by omega⟩

namespace Seat
variable {slot after : Slot} {books : Usage} {opens : Nat} {seat : Seat}

/-- The books less what a layer that runs has entered into them. -/
theorem handed {others : Usage} (account : slot.Accounted others) (running : slot.closed = false)
    (opened : 0 < books.opened) (live : slot.queue.size ≤ books.live) :
    ∃ others : Usage, books.opened = others.opened + 1 ∧ books.closed = others.closed ∧
      books.live = others.live + slot.queue.size ∧ (slot.booked books).Accounted others := by
  let others : Usage := ⟨books.opened - 1, books.closed, 0, books.live - slot.queue.size⟩
  have opening : books.opened = others.opened + 1 := (Nat.sub_add_cancel opened).symm
  have rest : books.live = others.live + slot.queue.size := (Nat.sub_add_cancel live).symm
  exact ⟨others, opening, rfl, rest, Slot.booked_accounted account running opening rfl rest⟩

/-- A slot that was handed the books goes on with them. -/
theorem running_enters (kept : Kept ⟨.running slot, opens⟩) (opened : opens ≤ books.opened)
    (live : slot.queue.size ≤ books.live)
    (goes : ∀ others, (slot.booked books).Accounted others →
      after.closed = false ∧ after.Accounted others) :
    Entered [⟨.running slot, opens⟩] books [⟨.running after, opens⟩] after.decoder.usage ∧
      Kept ⟨.running after, opens⟩ := by
  obtain ⟨once, running, before, account⟩ := kept
  dsimp only at once
  obtain ⟨others, opening, closes, rest, booked⟩ := handed account running (by omega) live
  obtain ⟨still, accounted⟩ := goes others booked
  have closed := accounted.closes
  simp only [still, Bool.false_eq_true, if_false, Nat.add_zero] at closed
  refine ⟨Entered.one_iff.mpr ⟨?_, ?_, ?_⟩, once, still, others, accounted⟩
  · rw [accounted.opened, opening]
  · rw [closed, closes]
    rfl
  · change after.decoder.usage.live + slot.queue.size = books.live + after.queue.size
    rw [accounted.live, rest]
    omega

/-- Closing a seat closes the decoder of a slot and lets go of its frames. -/
theorem close_enters (kept : seat.Kept) (opened : seat.opens ≤ books.opened)
    (live : seat.frames ≤ books.live) :
    Entered [seat] books [(seat.close books).1] (seat.close books).2 ∧
      (seat.close books).1.Kept ∧ (seat.close books).1.state = .done := by
  obtain ⟨state, opens⟩ := seat
  cases state with
  | idle => exact ⟨Entered.one_iff.mpr ⟨rfl, rfl, rfl⟩, kept.once, rfl⟩
  | done => exact ⟨.refl _ _, kept, rfl⟩
  | running slot =>
    refine ⟨?_, kept.once, rfl⟩
    obtain ⟨once, running, before, account⟩ := kept
    have queued : slot.queue.size ≤ books.live := live
    dsimp only at once opened
    obtain ⟨others, opening, closes, rest, booked⟩ := handed account running (by omega) queued
    obtain ⟨opened, closed, released⟩ := Slot.close_account booked
    refine Entered.one_iff.mpr ⟨?_, ?_, ?_⟩
    · change (slot.booked books).close.decoder.usage.opened + opens = books.opened + opens
      rw [opened, opening]
    · change (slot.booked books).close.decoder.usage.closed + 0 + opens = books.closed + 1 + opens
      rw [closed, closes]
    · change (slot.booked books).close.decoder.usage.live + slot.queue.size = books.live + 0
      rw [released, rest]
      rfl

/-- Every seat is closed, and the books are handed from one to the next. -/
theorem closeAll_enters (seats : List Seat) (books : Usage) (kept : ∀ seat ∈ seats, seat.Kept)
    (covered : Covered seats books) :
    Entered seats books (closeAll seats books).1 (closeAll seats books).2 ∧
      (closeAll seats books).1.length = seats.length ∧
      ∀ seat ∈ (closeAll seats books).1, seat.Kept ∧ seat.state = .done := by
  induction seats generalizing books with
  | nil => exact ⟨.refl _ _, rfl, nofun⟩
  | cons seat rest ih =>
    obtain ⟨here, behind⟩ := List.forall_mem_cons.mp kept
    obtain ⟨opens, frames⟩ := covered.head
    obtain ⟨first, held, done⟩ := close_enters here opens frames
    obtain ⟨others, length, all⟩ :=
      ih (seat.close books).2 behind (first.covered_rest covered)
    exact ⟨first.cons others, congrArg (· + 1) length, List.forall_mem_cons.mpr ⟨⟨held, done⟩, all⟩⟩

end Seat

theorem drawSlot_accounted (tuning : SlotTuning) (layer : Scheduled Float) (t : Float)
    {slot : Slot} {others : Usage} (canvas : Image) (clock : Clock) (running : slot.closed = false)
    (h : slot.Accounted others) :
    (drawSlot tuning layer t slot canvas clock).2.1.closed = false ∧
      (drawSlot tuning layer t slot canvas clock).2.1.Accounted others := by
  have advanced := Slot.advance_accounted tuning (layer.targetAt t) clock h
  unfold drawSlot
  dsimp only
  split
  · rename_i eq
    rw [eq] at advanced
    exact ⟨advanced.1.trans running, advanced.2⟩
  · rename_i after _ eq
    rw [eq] at advanced
    obtain ⟨still, account⟩ := advanced
    have picked := Slot.pick_accounted (layer.targetAt t) account
    split
    · exact ⟨still.trans running, account⟩
    · rename_i taken
      obtain ⟨-, eq⟩ := Slot.pick?_eq_some_iff.mp taken
      rw [eq] at picked
      exact ⟨picked.1.trans (still.trans running), picked.2⟩
    · rename_i taken
      obtain ⟨-, eq⟩ := Slot.pick?_eq_some_iff.mp taken
      rw [eq] at picked
      exact ⟨picked.1.trans (still.trans running), picked.2⟩

section Composing
variable {backend : Backend} {tuning : SlotTuning} {layer : Scheduled Float} {t : Float}
  {seat moved : Seat} {canvas : Image} {books later : Usage} {clock now : Clock}
  {result : Except RenderFault Image}

theorem drawSeat_enters {slot : Slot} {opens : Nat} (kept : Seat.Kept ⟨.running slot, opens⟩)
    (opened : opens ≤ books.opened) (live : slot.queue.size ≤ books.live)
    (drawn : drawSeat tuning layer t opens slot canvas books clock = (result, moved, later, now)) :
    Entered [⟨.running slot, opens⟩] books [moved] later ∧ moved.Kept := by
  cases drawn
  have running : slot.closed = false := kept.2.1
  exact Seat.running_enters kept opened live fun others account =>
    drawSlot_accounted tuning layer t canvas clock running account

/-- A backend that finds a source opens a decoder for it. -/
theorem Backend.openVideo_opens {media : MediaFile Float} {samples : List Sample} {decoder : Decoder}
    (opened : backend.openVideo media books = .ok (samples, decoder)) :
    ∃ source : Source Float, decoder = .opened source books := by
  unfold openVideo at opened
  split at opened
  · cases opened
  · split at opened
    · cases opened
      exact ⟨_, rfl⟩
    · cases opened

/-- A decoder is opened for the slot of an idle seat. -/
theorem openSeat_enters {slot : Slot} (idle : seat.state = .idle) (kept : seat.Kept)
    (opened : openSeat backend tuning layer t books = (.ok slot, later)) :
    Entered [seat] books [⟨.running slot, seat.opens + 1⟩] later ∧
      Seat.Kept ⟨.running slot, seat.opens + 1⟩ := by
  obtain ⟨state, opens⟩ := seat
  subst idle
  have none : opens = 0 := kept
  unfold openSeat at opened
  split at opened
  · cases opened
  · rename_i samples decoder video
    obtain ⟨source, rfl⟩ := Backend.openVideo_opens video
    split at opened
    · cases opened
    · rename_i begun
      cases opened
      obtain ⟨-, rfl⟩ := Slot.start?_eq_some_iff.mp begun
      have account : Slot.Accounted books (Slot.start layer.clip.id samples (.opened source books)
          layer.timing.reverse tuning (layer.targetAt t)) :=
        Slot.start_accounted _ _ _ _ _ _ rfl rfl
      refine ⟨Entered.one_iff.mpr ⟨?_, ?_, rfl⟩, congrArg (· + 1) none, rfl, books, account⟩
      · change books.opened + 1 + opens = books.opened + (opens + 1)
        omega
      · change books.closed + 1 + opens = books.closed + 0 + (opens + 1)
        omega

/-- Nothing is opened for a seat that finds no source. -/
theorem openSeat_fails {e : RenderFault} (finite : e ≠ .overflow)
    (failed : openSeat backend tuning layer t books = (.error e, later)) : later = books := by
  unfold openSeat at failed
  split at failed
  · cases failed
    rfl
  · split at failed
    · cases failed
      exact absurd rfl finite
    · cases failed

/-- What becomes of one layer is in the books. -/
theorem composeLayer_enters (kept : seat.Kept) (opens : seat.opens ≤ books.opened)
    (frames : seat.frames ≤ books.live)
    (composed : composeLayer backend tuning layer t seat canvas books clock =
      (result, moved, later, now)) (finite : result ≠ .error .overflow) :
    Entered [seat] books [moved] later ∧ moved.Kept := by
  unfold composeLayer at composed
  split at composed
  · cases composed
    obtain ⟨entered, held, -⟩ := Seat.close_enters kept opens frames
    exact ⟨entered, held⟩
  · split at composed
    · cases composed
      exact ⟨.refl _ _, kept⟩
    · split at composed
      · cases composed
        exact ⟨.refl _ _, kept⟩
      · rename_i slot running
        obtain ⟨state, opened⟩ := seat
        subst running
        exact drawSeat_enters kept opens frames composed
      · rename_i idle
        split at composed
        · rename_i e middle failed
          cases composed
          rw [openSeat_fails (fun same => finite (congrArg Except.error same)) failed]
          exact ⟨.refl _ _, kept⟩
        · rename_i slot middle opened
          obtain ⟨entered, held⟩ := openSeat_enters idle kept opened
          have covered : Covered [⟨.running slot, seat.opens + 1⟩] middle :=
            entered.covered ⟨by simpa using opens, by simpa using frames⟩
          obtain ⟨once, live⟩ := covered.head
          obtain ⟨drawn, next⟩ := drawSeat_enters held once live composed
          exact ⟨entered.trans drawn, next⟩

/-- What becomes of all layers is in the books, which go from one to the next. -/
theorem composeLayers_enters (seated : List (Scheduled Float × Seat))
    (kept : ∀ pair ∈ seated, pair.2.Kept) (covered : Covered (seated.map (·.2)) books)
    {seats : List Seat}
    (composed : composeLayers backend tuning t seated canvas books clock =
      (result, seats, later, now)) (finite : result ≠ .error .overflow) :
    Entered (seated.map (·.2)) books seats later ∧ seats.length = seated.length ∧
      ∀ seat ∈ seats, seat.Kept := by
  induction seated generalizing canvas books clock seats with
  | nil =>
    cases composed
    exact ⟨.refl _ _, rfl, nofun⟩
  | cons pair rest ih =>
    obtain ⟨layer, seat⟩ := pair
    obtain ⟨opens, frames⟩ := covered.head
    obtain ⟨first, others⟩ := List.forall_mem_cons.mp kept
    rw [composeLayers] at composed
    split at composed
    · rename_i e moved middle between drawn
      cases composed
      obtain ⟨entered, held⟩ := composeLayer_enters first opens frames drawn
        (fun same => finite (congrArg _ (Except.error.inj same)))
      have unmoved : ∀ seat ∈ rest.map (·.2), seat.Kept := List.forall_mem_map.mpr others
      exact ⟨entered.cons (.refl _ _), by simp, List.forall_mem_cons.mpr ⟨held, unmoved⟩⟩
    · rename_i image moved middle between drawn
      obtain ⟨entered, held⟩ := composeLayer_enters first opens frames drawn nofun
      cases rested : composeLayers backend tuning t rest image middle between with
      | mk ended tail =>
        obtain ⟨tail, last, stop⟩ := tail
        rw [rested] at composed
        cases composed
        obtain ⟨remaining, length, all⟩ := ih others (entered.covered_rest covered) rested
        exact ⟨entered.cons remaining, congrArg (· + 1) length, List.forall_mem_cons.mpr ⟨held, all⟩⟩

end Composing

/-- A render under way for so many layers: the books tell what became of their seats, and the writer
is in use. -/
structure Reel.Rolling (origin : Session) (layers : Nat) (reel : Reel) : Prop where
  opens : reel.session.opens = origin.opens
  opened : reel.session.writersOpened = origin.writersOpened
  writers : reel.session.writers = origin.writers
  size : reel.seats.length = layers
  entered : Entered [] origin.books reel.seats reel.session.books
  kept : ∀ seat ∈ reel.seats, seat.Kept
  writing : ∃ w, reel.writer = some w

/-- The writer was finished and is no longer in use. -/
structure Reel.Wrapped (origin : Session) (layers : Nat) (reel : Reel) : Prop where
  opens : reel.session.opens = origin.opens
  opened : reel.session.writersOpened = origin.writersOpened
  written : ∃ w, reel.session.writers = origin.writers ++ [⟨w, true⟩]
  size : reel.seats.length = layers
  entered : Entered [] origin.books reel.seats reel.session.books
  kept : ∀ seat ∈ reel.seats, seat.Kept
  idle : reel.writer = none

/-- After an overflow nothing is said. -/
def Reel.Spared (origin : Session) (layers : Nat) (e : RenderFault) (reel : Reel) : Prop :=
  e ≠ .overflow → reel.Rolling origin layers

section Rolling
variable {origin : Session} {layers : Nat}

theorem Reel.Rolling.spared {reel : Reel} (e : RenderFault) (h : reel.Rolling origin layers) :
    reel.Spared origin layers e :=
  fun _ => h

/-- A step that keeps a render rolling ends it so as well. -/
theorem rolling_ends {α : Type} {step : Shoot α}
    (keeps : Steps.Keeps (Reel.Rolling origin layers) step) :
    Steps.Ends (Reel.Rolling origin layers) (Reel.Rolling origin layers)
      (Reel.Spared origin layers) step :=
  keeps.ends fun e _ h => h.spared e

theorem lift_rolling {α : Type} {step : Run α} (unbooked : step.Unbooked) :
    Steps.Keeps (Reel.Rolling origin layers) (Shoot.lift step) := by
  intro reel h
  have same := unbooked reel.session
  exact ⟨same.opens.trans h.opens, same.opened.trans h.opened, same.writers.trans h.writers, h.size,
    same.books ▸ h.entered, h.kept, h.writing⟩

/-- Before the first frame every seat is idle, and the writer is new. -/
theorem begun_rolling (p : Production) (s : Session) (w : Writer) :
    (p.begun s w).Rolling (p.begun s w).session p.layers.length where
  opens := rfl
  opened := rfl
  writers := rfl
  size := List.length_map _
  entered := by constructor <;> simp [Production.begun, Seat.vacant, Seat.working, Seat.frames]
  kept := by
    intro seat member
    obtain ⟨_, _, rfl⟩ := List.mem_map.mp member
    rfl
  writing := ⟨w, rfl⟩

theorem compose_rolling (p : Production) (t : Float) (size : p.layers.length = layers) :
    Steps.Ends (Reel.Rolling origin layers) (Reel.Rolling origin layers)
      (Reel.Spared origin layers) (p.compose t) := by
  intro reel h
  have seated : (p.layers.zip reel.seats).map (·.2) = reel.seats :=
    List.map_snd_zip (h.size.trans size.symm).le
  have kept : ∀ pair ∈ p.layers.zip reel.seats, pair.2.Kept := fun pair member =>
    h.kept pair.2 (List.of_mem_zip member).2
  have covered : Covered ((p.layers.zip reel.seats).map (·.2)) reel.session.books :=
    seated.symm ▸ h.entered.room
  simp only [Production.compose, Steps.bind_run, Steps.get_run, Steps.set_run]
  cases composed : composeLayers p.host.backend p.tuning t (p.layers.zip reel.seats)
      (Image.blank p.spec.width p.spec.height) reel.session.books reel.session.clock with
  | mk result rest =>
    obtain ⟨seats, books, clock⟩ := rest
    have goes : result ≠ .error .overflow → Reel.Rolling origin layers
        { reel with seats, session := { reel.session with books, clock } } := by
      intro finite
      obtain ⟨entered, length, all⟩ := composeLayers_enters _ kept covered composed finite
      rw [seated] at entered
      rw [List.length_zip, size, h.size, Nat.min_self] at length
      exact ⟨h.opens, h.opened, h.writers, length, h.entered.trans entered, all, h.writing⟩
    cases result with
    | ok image =>
      refine goes ?_
      intro same
      cases same
    | error e => exact fun finite => goes fun same => finite (Except.error.inj same)

theorem encodeFrame_rolling (p : Production) (index : Nat) (canvas : Image) :
    Steps.Keeps (Reel.Rolling origin layers) (p.encodeFrame index canvas) := by
  refine Steps.keeps_bind writer_keeps ?_
  intro w
  apply Steps.keeps_bind (lift_rolling (Run.pass_unbooked _))
  intro _
  dsimp only
  split
  · exact Steps.keeps_throw _
  · rename_i w _
    apply Steps.keeps_get
    intro reel h
    simp only [Steps.bind_run, Steps.set_run]
    generalize drain _ _ _ _ = drained
    obtain ⟨result, w, clock⟩ := drained
    have kept : Reel.Rolling origin layers
        { reel with writer := some w, session := { reel.session with clock } } :=
      ⟨h.opens, h.opened, h.writers, h.size, h.entered, h.kept, w, rfl⟩
    cases result <;> exact kept

theorem frames_rolling (p : Production) (n index : Nat) (size : p.layers.length = layers) :
    Steps.Ends (Reel.Rolling origin layers) (Reel.Rolling origin layers)
      (Reel.Spared origin layers) (p.frames n index) :=
  frames_end (rolling_ends (lift_rolling Run.check_unbooked)) (fun t => compose_rolling p t size)
    (fun index canvas => rolling_ends (encodeFrame_rolling p index canvas))
    (fun _ _ _ => rolling_ends (lift_rolling (Run.fraction_unbooked _ _ _ _))) n index

theorem blocks_rolling (shape : StreamShape) (mix : Mix Float32) (size n start : Nat) :
    Steps.Keeps (Reel.Rolling origin layers) (Production.blocks shape mix size n start) :=
  blocks_keep (lift_rolling Run.check_unbooked) (fun _ => lift_rolling (Run.pass_unbooked _))
    (fun w => Steps.keeps_modify fun _ h =>
      ⟨h.opens, h.opened, h.writers, h.size, h.entered, h.kept, w, rfl⟩)
    (fun _ _ _ => lift_rolling (Run.fraction_unbooked _ _ _ _)) shape mix size n start

theorem encodeSound_rolling (p : Production) (audio : AudioSpec) :
    Steps.Keeps (Reel.Rolling origin layers) (p.encodeSound audio) := by
  refine Steps.keeps_bind writer_keeps ?_
  intro w
  apply Steps.keeps_bind (lift_rolling (Run.report_unbooked _ _ _))
  intro _
  apply Steps.keeps_get
  intro reel h
  simp only [Steps.bind_run, Steps.set_run]
  generalize Project.mix (S := Float32) p.project _ _ _ = mixed
  obtain ⟨result, cancel⟩ := mixed
  have kept : Reel.Rolling origin layers { reel with session := { reel.session with cancel } } :=
    ⟨h.opens, h.opened, h.writers, h.size, h.entered, h.kept, h.writing⟩
  cases result with
  | error e => exact kept
  | ok mix => exact blocks_rolling _ _ _ _ _ _ kept

theorem close_rolling :
    Steps.Keeps (Reel.Rolling origin layers) (modify Reel.closeSeats : Shoot PUnit) := by
  apply Steps.keeps_modify
  intro reel h
  obtain ⟨entered, length, all⟩ :=
    Seat.closeAll_enters reel.seats reel.session.books h.kept (h.entered.room)
  exact ⟨h.opens, h.opened, h.writers, length.trans h.size, h.entered.trans entered,
    fun seat member => (all seat member).1, h.writing⟩

/-- The last steps: nothing fails any more once the writer is finished. -/
theorem finish_wraps : Steps.Ends (Reel.Rolling origin layers) (Reel.Wrapped origin layers)
    (Reel.Spared origin layers)
    (do
      let bytes ← Production.finish
      Shoot.lift (Run.report .finalizing 100 "Container finalized")
      return bytes : Shoot Bytes) := by
  intro reel h
  obtain ⟨w, eq⟩ := h.writing
  have finished : Production.finish reel = (.ok w.finish,
      { reel with
        writer := none
        session := { reel.session with writers := reel.session.writers ++ [⟨w, true⟩] } }) := by
    simp only [Production.finish, Shoot.writer, Steps.bind_run, Steps.get_run, eq]
    rfl
  rw [Steps.bind_run, finished]
  have same := Run.report_unbooked .finalizing 100 "Container finalized"
    { reel.session with writers := reel.session.writers ++ [⟨w, true⟩] }
  exact ⟨same.opens.trans h.opens, same.opened.trans h.opened,
    ⟨w, same.writers.trans (congrArg (· ++ [⟨w, true⟩]) h.writers)⟩, h.size, same.books ▸ h.entered,
    h.kept, rfl⟩

theorem shoot_wraps (p : Production) (size : p.layers.length = layers) :
    Steps.Ends (Reel.Rolling origin layers) (Reel.Wrapped origin layers)
      (Reel.Spared origin layers) p.shoot := by
  apply Steps.ends_bind (rolling_ends (lift_rolling (Run.report_unbooked _ _ _)))
  intro _
  apply Steps.ends_bind (frames_rolling p _ _ size)
  intro _
  apply Steps.ends_bind (rolling_ends close_rolling)
  intro _
  have rest : Steps.Ends (Reel.Rolling origin layers) (Reel.Wrapped origin layers)
      (Reel.Spared origin layers)
      (do
        Shoot.lift Run.check
        Shoot.lift (Run.report .finalizing 0 "Finalizing container")
        let bytes ← Production.finish
        Shoot.lift (Run.report .finalizing 100 "Container finalized")
        return bytes : Shoot Bytes) := by
    apply Steps.ends_bind (rolling_ends (lift_rolling Run.check_unbooked))
    intro _
    apply Steps.ends_bind (rolling_ends (lift_rolling (Run.report_unbooked _ _ _)))
    intro _
    exact finish_wraps
  cases p.spec.audio with
  | none => exact rest
  | some audio =>
    apply Steps.ends_bind (rolling_ends (encodeSound_rolling p audio))
    intro _
    exact rest

end Rolling

/-- With every seat done, each decoder that was opened is closed and no frame is left. -/
theorem Entered.settled {seats : List Seat} {books later : Usage}
    (entered : Entered [] books seats later) (done : ∀ seat ∈ seats, seat.state = .done) :
    later.opened = books.opened + (seats.map Seat.opens).sum ∧
      later.closed = books.closed + (seats.map Seat.opens).sum ∧ later.live = books.live := by
  have none (f : Seat → Nat) (free : ∀ seat : Seat, seat.state = .done → f seat = 0) :
      (seats.map f).sum = 0 := by
    rw [List.map_congr_left fun seat member => free seat (done seat member)]
    simp
  have idle := none Seat.working fun seat state => by rw [Seat.working, state]
  have empty := none Seat.frames fun seat state => by rw [Seat.frames, state]
  obtain ⟨opened, closed, live⟩ := entered
  simp only [List.map_nil, List.sum_nil, idle, empty] at opened closed live
  exact ⟨by omega, by omega, by omega⟩

/-- The books after a teardown, from what they were before and how the one writer ended. -/
theorem teardown_books {reel : Reel} {w : Writer} {finished : Bool}
    (entered : Entered [] Usage.none reel.seats reel.session.books)
    (kept : ∀ seat ∈ reel.seats, seat.Kept) (opens : reel.session.opens = [])
    (opened : reel.session.writersOpened = 1) (writers : reel.teardown.writers = [⟨w, finished⟩]) :
    let after := reel.teardown
    after.books.opened = after.books.closed ∧ after.books.live = 0 ∧
      after.writersOpened = 1 ∧
      after.writersOpened =
        after.writers.countP (·.finished) + after.writers.countP (!·.finished) ∧
      after.writers.countP (·.finished) = (if finished then 1 else 0) ∧
      after.opens.length = reel.seats.length ∧ (∀ n ∈ after.opens, n ≤ 1) ∧
      after.books.opened = after.opens.sum := by
  intro after
  obtain ⟨last, length, all⟩ :=
    Seat.closeAll_enters reel.seats reel.session.books kept (entered.room)
  obtain ⟨taken, closed, live⟩ := (entered.trans last).settled fun seat member => (all seat member).2
  have books : after.books = (Seat.closeAll reel.seats reel.session.books).2 := rfl
  have counts : after.opens = (Seat.closeAll reel.seats reel.session.books).1.map (·.opens) := by
    simp [after, Reel.teardown, Reel.closeSeats, opens]
  have one : after.writersOpened = 1 := opened
  rw [books, counts, List.length_map, length]
  refine ⟨taken.trans closed.symm, live, one, ?_, ?_, rfl, ?_, by simpa [Usage.none] using taken⟩
  · rw [one, writers]
    cases finished <;> rfl
  · rw [writers]
    cases finished <;> rfl
  · intro n member
    obtain ⟨seat, inside, rfl⟩ := List.mem_map.mp member
    exact (all seat inside).1.once

/-- Whatever ends a streaming render, every decoder that was opened is closed and no frame is left, no
layer has opened a second decoder, and the one writer was finished if there is a result and aborted if
not. -/
theorem streaming_releases_everything {h : Host} {sources : List (String × Source Float)}
    {hardware : Bool} {traits : EncoderTraits}
    (backend : h.backend = .synthetic sources hardware traits)
    {p : Project Float} {settings : RenderSettings Float} {progress : Progress} {cancel : Cancel}
    {clock : Clock} {files : FileTree} {result : Except RenderFault Bytes} {after : Session}
    (ended : renderByStreaming h p settings (.start progress cancel clock files) = (result, after))
    (finite : result ≠ .error .overflow) :
    after.books.opened = after.books.closed ∧ after.books.live = 0 ∧
      after.writersOpened = 1 ∧
      after.writersOpened =
        after.writers.countP (·.finished) + after.writers.countP (!·.finished) ∧
      after.writers.countP (·.finished) = (if result.isOk then 1 else 0) ∧
      after.opens.length = p.layers.length ∧ (∀ n ∈ after.opens, n ≤ 1) ∧
      after.books.opened = after.opens.sum := by
  let production := Production.ofHost h p settings
  let w := Writer.new production.spec traits
  let begun := production.begun (.start progress cancel clock files) w
  have timed : h.config.render.Timed := by
    by_contra late
    rw [renderByStreaming_untimed _ late] at ended
    cases ended
    exact finite rfl
  have opened : h.backend.openWriter production.spec = .ok w := by
    rw [backend]
    rfl
  have rolling : begun.Rolling begun.session p.layers.length := begun_rolling production _ w
  have wraps := shoot_wraps production rfl begun rolling
  cases ran : production.shoot begun with
  | mk shot reel =>
    rw [ran] at wraps
    rw [renderByStreaming_shoots _ timed opened ran] at ended
    cases ended
    cases result with
    | ok bytes =>
      obtain ⟨w, written⟩ := wraps.written
      have writers : reel.teardown.writers = [⟨w, true⟩] := by
        rw [Reel.teardown_writers, written, wraps.idle]
        rfl
      have all := teardown_books wraps.entered wraps.kept wraps.opens wraps.opened writers
      rwa [wraps.size] at all
    | error e =>
      have kept := wraps fun same => finite (congrArg Except.error same)
      obtain ⟨w, writing⟩ := kept.writing
      have writers : reel.teardown.writers = [⟨w, false⟩] := by
        rw [Reel.teardown_writers, kept.writers, writing]
        rfl
      have all := teardown_books kept.entered kept.kept kept.opens kept.opened writers
      rwa [kept.size] at all

/-- How a render failed, if it did. -/
def failure : Except RenderFault Bytes → Option FaultClass
  | .ok _ => none
  | .error e => some e.faultClass

/-- The flag trips when the second picture is handed over; one decoder was opened by then. -/
theorem streaming_releases_everything_cancelled :
    ∃ result after, renderByStreaming shortHost shortProject shortSettings (.start Progress.channel
        (.under (· == .videoFrame 1)) (Clock.stepping 10) ⟨[], []⟩) = (result, after) ∧
      failure result = some .cancelled ∧ after.opens = [1] ∧ after.books.opened = 1 ∧
      after.books.closed = 1 ∧ after.books.live = 0 ∧ after.writers.countP (!·.finished) = 1 := by
  have failed : failure (renderByStreaming shortHost shortProject shortSettings
      (.start Progress.channel (.under (· == .videoFrame 1)) (Clock.stepping 10) ⟨[], []⟩)).1 =
      some .cancelled := by
    decide +kernel
  have opens : (renderByStreaming shortHost shortProject shortSettings
      (.start Progress.channel (.under (· == .videoFrame 1)) (Clock.stepping 10)
        ⟨[], []⟩)).2.opens = [1] := by
    decide +kernel
  cases ended : renderByStreaming shortHost shortProject shortSettings
      (.start Progress.channel (.under (· == .videoFrame 1)) (Clock.stepping 10) ⟨[], []⟩) with
  | mk result after =>
    rw [ended] at failed opens
    have finite : result ≠ .error .overflow := by
      rintro rfl
      cases failed
    have refused : result.isOk = false := by
      cases result with
      | ok bytes => cases failed
      | error e => rfl
    obtain ⟨balanced, live, one, total, finished, -, -, sum⟩ :=
      streaming_releases_everything rfl ended finite
    rw [refused, if_neg Bool.false_ne_true] at finished
    rw [opens] at sum
    exact ⟨result, after, rfl, failed, opens, sum, balanced.symm.trans sum, live, by omega⟩

end Montage
