import Montage.Proofs.Stream.Accounts
import Montage.Proofs.Stream.Calls
import Montage.Proofs.Stream.Presence

/- What every slot keeps, whatever its table, its decoder and the calls on it. Feeding stands between
   the keyframe that it began at and where it stops, the queue is sorted and holds nothing that is
   too old, and the decoder has no more to do than it may have. Each move of an advance keeps that,
   so it holds in the middle of one too, and wherever it fails. A closed slot stays as it is. -/
namespace Montage.Slot

structure Proper (tuning : SlotTuning) (s : Slot) : Prop where
  begun : s.groupStart ≤ s.cursor
  fed : s.cursor ≤ s.feedEnd
  ends : s.feedEnd ≤ s.samples.size
  sorted : FrameQueue.Ascending s.queue.frames
  fits : s.queue.size ≤ s.queue.capacity
  recent : ∀ f ∈ s.queue.frames, s.floor ≤ f.timestamp
  few : s.decoder.pending ≤ max tuning.depth 1
  /-- One decoder, open as long as the slot is, whose frames are those of the queue. -/
  account : s.Accounted Usage.none

section Steps
variable {tuning : SlotTuning} {horizon : Int} {s after : Slot}

/-- A position is a keyframe and the end of its group, or of the table, and the queue is empty. -/
theorem blank_proper (target : Int) (quiet : s.decoder.waiting = [])
    (unflushed : s.decoder.flushing = false) (empty : s.queue.frames = [])
    (account : (s.position target).Accounted Usage.none) : (s.position target).Proper tuning := by
  have window := position_window s target quiet unflushed
  have nothing : (s.position target).queue.frames = [] := empty
  refine ⟨(Nat.le_add_right _ _).trans window.since, window.fed, ?_, ?_, ?_, ?_, ?_, account⟩
  · rw [← table_length]
    exact window.ends
  · rw [nothing]
    exact List.Pairwise.nil
  · simp [FrameQueue.size, nothing]
  · simp [nothing]
  · simp [position, Decoder.pending, quiet]

theorem start_proper (clip : String) (table : List Sample) {d : Decoder} (reverse : Bool)
    (target : Int) (fresh : d.usage = ⟨1, 0, 0, 0⟩) (opened : d.closed = false)
    (quiet : d.waiting = []) (unflushed : d.flushing = false) :
    (start clip table d reverse tuning target).Proper tuning :=
  blank_proper target quiet unflushed rfl
    (start_accounted clip table d reverse tuning target fresh opened)

theorem seek_proper (target : Int) (h : s.Proper tuning) : (s.seek target).Proper tuning :=
  blank_proper target rfl rfl rfl (seek_accounted target h.account)

theorem receive_proper {f : Frame} {d : Decoder} (given : s.decoder.next = some (f, d))
    (h : s.Proper tuning) (account : (receive { s with decoder := d } f).Accounted Usage.none) :
    (receive { s with decoder := d } f).Proper tuning := by
  have few : d.pending ≤ max tuning.depth 1 := (Decoder.next_pending given).le.trans h.few
  unfold receive at account ⊢
  split at account
  · rename_i old
    rw [if_pos old]
    exact ⟨h.begun, h.fed, h.ends, h.sorted, h.fits, h.recent, few, account⟩
  · rename_i young
    rw [if_neg young]
    refine ⟨h.begun, h.fed, h.ends, s.queue.push_ascending f h.sorted, ?_, ?_, few, account⟩
    · change (s.queue.push f).size ≤ s.queue.capacity
      rw [FrameQueue.push_size]
      exact Nat.min_le_right _ _
    · intro g member
      have either := (FrameQueue.insert_perm f s.queue.frames).mem_iff.mp (List.mem_of_mem_drop member)
      rcases List.mem_cons.mp either with rfl | queued
      · exact Int.not_lt.mp young
      · exact h.recent g queued

theorem move_proper (move : Move tuning horizon s after) (running : s.closed = false)
    (h : s.Proper tuning) : after.Proper tuning := by
  have account := (move_accounted move running h.account).2
  cases move with
  | feed wanted room next taken =>
    have inside := (wants_spec wanted).1
    refine ⟨h.begun.trans (Nat.le_succ _), inside, h.ends, h.sorted, h.fits, h.recent, ?_, account⟩
    rw [Decoder.decode_pending taken]
    exact room
  | arrive given => exact receive_proper given h account
  | flush fed first =>
    exact ⟨h.begun, h.fed, h.ends, h.sorted, h.fits, h.recent, h.few, account⟩

theorem moves_proper (moves : Moves tuning horizon s after) (running : s.closed = false)
    (h : s.Proper tuning) : after.closed = false ∧ after.Proper tuning :=
  moves_keep (fun s => s.closed = false ∧ s.Proper tuning)
    (fun move held => ⟨(move_closed move).trans held.1, move_proper move held.1 held.2⟩) moves
    ⟨running, h⟩

theorem aimed_proper (target : Int) (running : s.closed = false) (h : s.Proper tuning) :
    (s.aimed target).closed = false ∧ (s.aimed target).Proper tuning :=
  @aimed_keeps (fun s => s.closed = false ∧ s.Proper tuning) s target
    (fun held => ⟨held.1, seek_proper target held.2⟩) ⟨running, h⟩

theorem pick_proper (target : Int) (h : s.Proper tuning) : (s.pick target).2.Proper tuning := by
  obtain ⟨part, capacity⟩ := pick_part s target
  refine ⟨h.begun, h.fed, h.ends, h.sorted.sublist part, ?_, ?_, h.few,
    (pick_accounted target h.account).2⟩
  · rw [capacity]
    exact part.length_le.trans h.fits
  · exact fun f member => h.recent f (part.subset member)

theorem close_shut (s : Slot) : s.close.closed = true := by
  unfold close
  split
  · assumption
  · rfl

theorem close_proper (h : s.Proper tuning) : s.close.Proper tuning := by
  cases running : s.closed with
  | true => simpa [close, running] using h
  | false =>
    obtain ⟨opened, closed, live⟩ := close_account h.account
    have alive : s.decoder.closed = false := h.account.together.trans running
    have shut := close_shut s
    have fields : s.close = { s with
        queue := s.queue.clear
        decoder := s.close.decoder
        closed := true } := by
      simp [close, running, requeue]
    have quiet : s.close.decoder.waiting = [] ∧ s.close.decoder.closed = true := by
      simp [close, running, requeue, Decoder.close, Decoder.reset, Decoder.release, alive]
    have account : s.close.Accounted Usage.none := by
      refine ⟨opened, by simp [closed, shut], quiet.2.trans shut.symm, ?_, ?_⟩
      · rw [live, fields]
        rfl
      · intro _
        rw [fields]
        rfl
    have few : s.close.decoder.pending ≤ max tuning.depth 1 := by simp [Decoder.pending, quiet.1]
    rw [fields] at account few ⊢
    exact ⟨h.begun, h.fed, h.ends, .nil, Nat.zero_le _, by simp [FrameQueue.clear], few, account⟩

/-- Nothing that is done to a closed slot changes it. -/
theorem close_again (shut : s.closed = true) : s.close = s := by
  simp [close, shut]

end Steps

section Runs
variable {tuning : SlotTuning} {state : Slot × Clock}

theorem perform_proper (call : Call) (h : state.1.Proper tuning) :
    (perform tuning call state).1.Proper tuning := by
  cases call with
  | advance target =>
    change (state.1.advance tuning target state.2).2.1.Proper tuning
    cases running : state.1.closed with
    | true => rwa [advance_closed tuning target state.1 state.2 running]
    | false =>
      obtain ⟨opened, aimed⟩ := aimed_proper target running h
      exact (moves_proper (advance_moves tuning target state.1 state.2 running) opened aimed).2
  | pick target => exact pick_proper target h
  | close => exact close_proper h

theorem played_proper (calls : List Call) (h : state.1.Proper tuning) :
    (played tuning calls state).1.Proper tuning := by
  induction calls generalizing state with
  | nil => exact h
  | cons call calls ih => exact ih (perform_proper call h)

theorem perform_closed (call : Call) :
    (perform tuning call state).1.closed = true ↔ state.1.closed = true ∨ call = .close := by
  cases call with
  | advance target => simp [perform, advance_closed_eq]
  | pick target => simp [perform, pick_eq, requeue]
  | close => simp [perform, close_shut]

theorem played_closed (calls : List Call) :
    (played tuning calls state).1.closed = true ↔ state.1.closed = true ∨ Call.close ∈ calls := by
  induction calls generalizing state with
  | nil => simp [played]
  | cons call calls ih =>
    rw [List.mem_cons, ← or_assoc, eq_comm (a := Call.close), ← perform_closed]
    exact ih

end Runs

/-- Whatever was asked of a slot, and however it ended, the slot is proper, also at any moment of a
further advance. It is closed once it was told to close; then its queue is empty, closing it again
changes nothing, and every advance fails and leaves the slot, with its decoder, as it is. -/
theorem slot_stays_proper {K : Type} (source : Source K) (clip : String) (table : List Sample)
    (reverse : Bool) (tuning : SlotTuning) (opening : Int) (calls : List Call) (clock : Clock)
    {s : Slot} {between : Clock}
    (run : played tuning calls
      (start clip table (Decoder.ofSource source) reverse tuning opening, clock) = (s, between)) :
    s.Proper tuning ∧
    (s.closed = false → ∀ target during,
      Moves tuning (target + tuning.lookahead) (s.aimed target) during →
        during.Proper tuning) ∧
    (s.closed = true ↔ Call.close ∈ calls) ∧
    (s.closed = true → s.queue.frames = [] ∧ s.close = s ∧
      ∀ target now, s.advance tuning target now = (.error (.clipClosed s.clip), s, now)) := by
  have opened : (start clip table (Decoder.ofSource source) reverse tuning opening).Proper tuning :=
    start_proper clip table reverse opening rfl rfl rfl rfl
  have proper : (played tuning calls
      (start clip table (Decoder.ofSource source) reverse tuning opening, clock)).1.Proper tuning :=
    played_proper calls opened
  have shut : (played tuning calls (start clip table (Decoder.ofSource source) reverse tuning opening,
      clock)).1.closed = true ↔ Call.close ∈ calls := by
    rw [played_closed]
    simp [start, position]
  rw [run] at proper shut
  refine ⟨proper, ?_, shut, ?_⟩
  · intro running target during moves
    obtain ⟨alive, aimed⟩ := aimed_proper target running proper
    exact (moves_proper moves alive aimed).2
  · intro closed
    exact ⟨proper.account.emptied closed, close_again closed,
      fun target now => advance_closed tuning target s now closed⟩

/-- Calls on a reversed slot over the two groups. -/
def backward (calls : List Call) : Slot × Clock :=
  played shortSighted calls
    (start "c1" twoGroups (Decoder.ofSource promptSource) true shortSighted 100000,
      Clock.stepping 1000)

/-- An advance decodes the first group, a pick lets the newer of its two frames go, and a close the
other one. -/
theorem slot_stays_proper_backward :
    let filled := (backward [.advance 100000]).1
    let picked := (backward [.advance 100000, .pick 0]).1
    let shut := (backward [.advance 100000, .pick 0, .close]).1
    (filled.Proper shortSighted ∧ filled.queue.size = 2 ∧ filled.decoder.usage = ⟨1, 0, 0, 2⟩) ∧
      (picked.Proper shortSighted ∧ picked.queue.size = 1 ∧ picked.decoder.usage = ⟨1, 0, 0, 1⟩) ∧
      shut.Proper shortSighted ∧ shut.closed = true ∧ shut.decoder.usage = ⟨1, 1, 1, 0⟩ ∧
      shut.queue.frames = [] ∧ shut.close = shut ∧
      (shut.advance shortSighted 0 (Clock.stepping 1000)).1 = .error (.clipClosed shut.clip) := by
  have proper := fun calls => slot_stays_proper promptSource "c1" twoGroups true shortSighted 100000
    calls (Clock.stepping 1000)
    (show backward calls = ((backward calls).1, (backward calls).2) from rfl)
  obtain ⟨filled, -⟩ := proper [.advance 100000]
  obtain ⟨picked, -⟩ := proper [.advance 100000, .pick 0]
  obtain ⟨shut, -, closes, stays⟩ := proper [.advance 100000, .pick 0, .close]
  obtain ⟨empty, again, fails⟩ := stays (closes.mpr (by simp))
  exact ⟨⟨filled, by decide +kernel, by decide +kernel⟩,
    ⟨picked, by decide +kernel, by decide +kernel⟩, shut, closes.mpr (by simp), by decide +kernel,
    empty, again, congrArg Prod.fst (fails 0 _)⟩

end Montage.Slot
