import Montage.Proofs.Stream.Presence
import Montage.Proofs.Stream.Waiting

/- What a seek leaves of the past: the books of the decoder, and nothing that shows. Two slots that
   differ in those books alone answer every call alike, under whatever clocks that move on; and a
   slot that seeks a target differs from one opened there in nothing else. -/
namespace Montage

namespace Slot

/-- Slots that differ at most in the books of their decoders. -/
def Alike (s t : Slot) : Prop := ∃ usage, t = s.booked usage

section Alike
variable {tuning : SlotTuning} {horizon : Int} {s t : Slot} {c d : Clock}

theorem Alike.refl (s : Slot) : s.Alike s := ⟨s.decoder.usage, rfl⟩

theorem Alike.symm (alike : s.Alike t) : t.Alike s := by
  obtain ⟨usage, rfl⟩ := alike
  exact ⟨s.decoder.usage, rfl⟩

theorem Alike.trans {u : Slot} (first : s.Alike t) (second : t.Alike u) : s.Alike u := by
  obtain ⟨usage, rfl⟩ := first
  obtain ⟨usage', rfl⟩ := second
  exact ⟨usage', rfl⟩

theorem decode_booked (d : Decoder) (x : Sample) (usage : Usage) :
    (d.booked usage).decode x = (d.decode x).map (·.booked usage) := by
  unfold Decoder.decode Decoder.booked
  dsimp only
  split
  · rfl
  · split
    · rfl
    · cases Decoder.frameIndex x with
      | error e => rfl
      | ok index =>
        simp only [bind, Except.bind]
        split <;> rfl

theorem next_booked (d : Decoder) (usage : Usage) :
    (d.booked usage).next =
      d.next.map fun given => (given.1, given.2.booked { usage with live := usage.live + 1 }) := by
  have ready : (d.booked usage).isReady = d.isReady := rfl
  have waiting : (d.booked usage).waiting = d.waiting := rfl
  unfold Decoder.next
  rw [ready, waiting]
  split
  · cases d.waiting <;> rfl
  · rfl

theorem requeue_alike (queue : FrameQueue) (arrived : Nat) (alike : s.Alike t) :
    (s.requeue queue arrived).Alike (t.requeue queue arrived) := by
  obtain ⟨usage, rfl⟩ := alike
  exact ⟨_, rfl⟩

theorem receive_alike (f : Frame) (alike : s.Alike t) : (receive s f).Alike (receive t f) := by
  obtain ⟨usage, rfl⟩ := alike
  unfold receive
  change Alike _ (if f.timestamp < s.floor then _ else _)
  split
  · exact requeue_alike _ _ ⟨usage, rfl⟩
  · exact requeue_alike _ _ ⟨usage, rfl⟩

theorem collectUpTo_alike (n : Nat) (alike : s.Alike t) :
    (collectUpTo n s).Alike (collectUpTo n t) := by
  induction n generalizing s t with
  | zero => exact alike
  | succ n ih =>
    obtain ⟨usage, rfl⟩ := alike
    have given : (s.booked usage).decoder.next = _ := next_booked s.decoder usage
    rw [collectUpTo, collectUpTo, given]
    cases s.decoder.next with
    | none => exact ⟨usage, rfl⟩
    | some pair => exact ih (receive_alike pair.1 ⟨_, rfl⟩)

theorem collect_alike (alike : s.Alike t) : s.collect.Alike t.collect := by
  have same : t.decoder.pending = s.decoder.pending := by
    obtain ⟨usage, rfl⟩ := alike
    rfl
  unfold collect
  rw [same]
  exact collectUpTo_alike _ alike

theorem feedUpTo_alike (horizon : Int) (limit n : Nat) (alike : s.Alike t) :
    (feedUpTo horizon limit n s).1 = (feedUpTo horizon limit n t).1 ∧
      (feedUpTo horizon limit n s).2.Alike (feedUpTo horizon limit n t).2 := by
  induction n generalizing s t with
  | zero => exact ⟨rfl, alike⟩
  | succ n ih =>
    obtain ⟨usage, rfl⟩ := alike
    have wanted : (s.booked usage).wants horizon = s.wants horizon := rfl
    have pending : (s.booked usage).decoder.pending = s.decoder.pending := rfl
    have next : (s.booked usage).samples[(s.booked usage).cursor]? = s.samples[s.cursor]? := rfl
    have taken (x : Sample) : (s.booked usage).decoder.decode x = _ :=
      decode_booked s.decoder x usage
    rw [feedUpTo, feedUpTo, wanted, pending, next]
    by_cases go : (s.wants horizon && decide (s.decoder.pending < limit)) = true
    · rw [if_pos go, if_pos go]
      cases s.samples[s.cursor]? with
      | none => exact ⟨rfl, usage, rfl⟩
      | some x =>
        dsimp only
        rw [taken]
        cases s.decoder.decode x with
        | error e => exact ⟨rfl, usage, rfl⟩
        | ok decoder => exact ih ⟨usage, rfl⟩
    · rw [if_neg go, if_neg go]
      exact ⟨rfl, usage, rfl⟩

theorem drain_alike (alike : s.Alike t) : s.drain.Alike t.drain := by
  obtain ⟨usage, rfl⟩ := alike
  have flushed : (s.booked usage).flushed = s.flushed := rfl
  unfold drain
  rw [flushed]
  split
  · exact collect_alike ⟨usage, rfl⟩
  · exact collect_alike ⟨usage, rfl⟩

/-- A feeding turn does the same with both. -/
theorem feeding_alike (tuning : SlotTuning) (horizon : Int) (c d : Clock) (alike : s.Alike t) :
    (∃ result s' t', s'.Alike t' ∧ turn tuning horizon .feeding s c = (.ended result, s', c) ∧
        turn tuning horizon .feeding t d = (.ended result, t', d)) ∨
      (∃ s' t', s'.Alike t' ∧ turn tuning horizon .feeding s c = (.more .feeding, s', c) ∧
        turn tuning horizon .feeding t d = (.more .feeding, t', d)) ∨
      ∃ s' t' late late' c' d', s'.Alike t' ∧ s'.decoder.next = none ∧
        max tuning.depth 1 ≤ s'.decoder.pending ∧
        turn tuning horizon .feeding s c = (.more (.waiting late), s', c') ∧
        turn tuning horizon .feeding t d = (.more (.waiting late'), t', d') := by
  obtain ⟨same, fed⟩ := feedUpTo_alike horizon (max tuning.depth 1)
    (s.feedEnd - s.cursor) alike
  have ends : t.feedEnd - t.cursor = s.feedEnd - s.cursor := by
    obtain ⟨usage, rfl⟩ := alike
    rfl
  have kept := collect_alike fed
  have drained := drain_alike kept
  have quiet := collect_quiet (feedUpTo horizon (max tuning.depth 1) (s.feedEnd - s.cursor) s).2
  simp only [turn, feed, ends]
  generalize feedUpTo horizon (max tuning.depth 1) (s.feedEnd - s.cursor) s = p at *
  generalize feedUpTo horizon (max tuning.depth 1) (s.feedEnd - s.cursor) t = q at *
  obtain ⟨r, fs⟩ := p
  obtain ⟨r', ft⟩ := q
  dsimp only at same fed kept drained quiet
  subst same
  cases r with
  | error e => exact .inl ⟨_, fs, ft, fed, rfl, rfl⟩
  | ok _ =>
    dsimp only
    generalize fs.collect = a at *
    generalize ft.collect = b at *
    obtain ⟨usage, rfl⟩ := kept
    have wanted : (a.booked usage).wants horizon = a.wants horizon := rfl
    have pending : (a.booked usage).decoder.pending = a.decoder.pending := rfl
    have finished : ((a.booked usage).feedEnd ≤ (a.booked usage).cursor) = (a.feedEnd ≤ a.cursor) :=
      rfl
    have table : (a.booked usage).samples.size ≤ (a.booked usage).feedEnd ↔
      a.samples.size ≤ a.feedEnd := Iff.rfl
    simp only [wanted, pending, finished, table]
    split
    · split
      · exact .inr (.inl ⟨_, _, ⟨usage, rfl⟩, rfl, rfl⟩)
      · rename_i full
        exact .inr (.inr ⟨_, _, _, _, _, _, ⟨usage, rfl⟩, quiet, Nat.not_lt.mp full, rfl, rfl⟩)
    · split
      · exact .inl ⟨_, _, _, drained, rfl, rfl⟩
      · exact .inl ⟨_, _, _, ⟨usage, rfl⟩, rfl, rfl⟩

theorem turns_waiting {n : Nat} {deadline : Deadline} {result : Except DecodeFault Advanced}
    {after : Slot} {later : Clock} (quiet : s.decoder.next = none)
    (full : max tuning.depth 1 ≤ s.decoder.pending)
    (ended : turns tuning horizon n (.waiting deadline) s c = (some result, after, later)) :
    result = .error (.stalled s.clip s.decoder.pending) ∧ after = s := by
  induction n generalizing c with
  | zero => simp [turns] at ended
  | succ n ih =>
    rw [turns, waiting_turn tuning horizon deadline c quiet full] at ended
    by_cases reached : deadline.limit ≤ c.reading c.looks
    · simp only [reached, if_true, Prod.mk.injEq, Option.some.injEq] at ended
      exact ⟨ended.1.symm, ended.2.1.symm⟩
    · simp only [reached, if_false] at ended
      exact ih ended

/-- Turns that end, end alike; what the clocks read shows only in how long a wait takes. -/
theorem turns_alike {n m : Nat} {result result' : Except DecodeFault Advanced} {s' t' : Slot}
    {c' d' : Clock} (alike : s.Alike t)
    (ended : turns tuning horizon n .feeding s c = (some result, s', c'))
    (ended' : turns tuning horizon m .feeding t d = (some result', t', d')) :
    result = result' ∧ s'.Alike t' := by
  induction n generalizing s t m with
  | zero => simp [turns] at ended
  | succ n ih =>
    cases m with
    | zero => simp [turns] at ended'
    | succ m =>
      rw [turns] at ended ended'
      rcases feeding_alike tuning horizon c d alike with
        ⟨r, a, b, still, one, other⟩ | ⟨a, b, still, one, other⟩ |
        ⟨a, b, _, _, _, _, still, quiet, full, one, other⟩
      · simp only [one, Prod.mk.injEq, Option.some.injEq] at ended
        simp only [other, Prod.mk.injEq, Option.some.injEq] at ended'
        obtain ⟨rfl, rfl, -⟩ := ended
        obtain ⟨rfl, rfl, -⟩ := ended'
        exact ⟨rfl, still⟩
      · simp only [one] at ended
        simp only [other] at ended'
        exact ih still ended ended'
      · simp only [one] at ended
        simp only [other] at ended'
        obtain ⟨rfl, rfl⟩ := turns_waiting quiet full ended
        obtain ⟨usage, rfl⟩ := still
        have quiet' : (s'.booked usage).decoder.next = none := by
          change (s'.decoder.booked usage).next = none
          rw [next_booked, quiet]
          rfl
        obtain ⟨rfl, rfl⟩ := turns_waiting quiet' full ended'
        exact ⟨rfl, usage, rfl⟩

/-- An advance under a clock that moves on comes to the end of its turns. -/
theorem advance_turns (tuning : SlotTuning) (target : Int) (moving : c.Moving)
    (running : s.closed = false) (reckons : s.Reckons tuning target) :
    ∃ n, turns tuning (target + tuning.lookahead) n .feeding (s.aimed target) c =
      (some (s.advance tuning target c).1, (s.advance tuning target c).2) := by
  obtain ⟨n, ends, -⟩ := advance_ends tuning target moving running reckons
  exact ⟨n + 1, turns_end ends (Nat.lt_succ_self n)⟩

theorem advance_alike_of_aimed (tuning : SlotTuning) {target : Int} (moving : c.Moving)
    (moving' : d.Moving) (running : s.closed = false) (running' : t.closed = false)
    (reckons : s.Reckons tuning target ↔ t.Reckons tuning target)
    (alike : (s.aimed target).Alike (t.aimed target)) :
    (s.advance tuning target c).1 = (t.advance tuning target d).1 ∧
      (s.advance tuning target c).2.1.Alike (t.advance tuning target d).2.1 := by
  by_cases fits : s.Reckons tuning target
  · obtain ⟨n, ended⟩ := advance_turns tuning target moving running fits
    obtain ⟨m, ended'⟩ := advance_turns tuning target moving' running' (reckons.mp fits)
    exact turns_alike alike ended ended'
  · rw [advance_overflow tuning target s c running fits,
      advance_overflow tuning target t d running' (fits ∘ reckons.mpr)]
    exact ⟨rfl, alike⟩

theorem seek_alike (target : Int) (alike : s.Alike t) : (s.seek target).Alike (t.seek target) := by
  obtain ⟨usage, rfl⟩ := alike
  exact ⟨_, rfl⟩

theorem aimed_alike (target : Int) (alike : s.Alike t) :
    (s.aimed target).Alike (t.aimed target) := by
  have same : t.needsSeek target = s.needsSeek target := by
    obtain ⟨usage, rfl⟩ := alike
    rfl
  unfold aimed
  rw [same]
  split
  · exact seek_alike target alike
  · exact alike

theorem reckons_alike (tuning : SlotTuning) (target : Int) (alike : s.Alike t) :
    s.Reckons tuning target ↔ t.Reckons tuning target := by
  obtain ⟨usage, rfl⟩ := alike
  exact ⟨fun h => ⟨h.half, h.floor, h.horizon⟩, fun h => ⟨h.half, h.floor, h.horizon⟩⟩

theorem pick_alike (target : Int) (alike : s.Alike t) :
    (s.pick target).1 = (t.pick target).1 ∧ (s.pick target).2.Alike (t.pick target).2 := by
  obtain ⟨usage, rfl⟩ := alike
  exact ⟨rfl, _, rfl⟩

theorem pick?_alike (target : Int) (alike : s.Alike t) :
    (s.pick? target).map (·.1) = (t.pick? target).map (·.1) := by
  obtain ⟨usage, rfl⟩ := alike
  unfold pick?
  change _ = Option.map _ (if s.queue.reaches target = true then _ else _)
  split <;> rfl

theorem decoder_close_booked (d : Decoder) (usage : Usage) :
    ∃ books, (d.booked usage).close = d.close.booked books := by
  have same : (d.booked usage).closed = d.closed := rfl
  unfold Decoder.close
  rw [same]
  split <;> exact ⟨_, rfl⟩

theorem close_alike (alike : s.Alike t) : s.close.Alike t.close := by
  obtain ⟨usage, rfl⟩ := alike
  have same : (s.booked usage).closed = s.closed := rfl
  unfold close
  rw [same]
  split
  · exact ⟨usage, rfl⟩
  · let cleared := s.requeue s.queue.clear 0
    let other := (s.booked usage).requeue (s.booked usage).queue.clear 0
    obtain ⟨books, closed⟩ := decoder_close_booked cleared.decoder.reset other.decoder.reset.usage
    refine ⟨books, ?_⟩
    change ({ other with decoder := _, closed := true } : Slot) =
      { cleared with decoder := cleared.decoder.reset.close.booked books, closed := true }
    rw [← closed]
    rfl

end Alike

/-- What a caller gets back from a call. -/
inductive Answer where
  | reached (result : Except DecodeFault Advanced)
  /-- None where a distance overflows. -/
  | shown (frame : Option (Option Frame))
  | released

def answer (tuning : SlotTuning) (call : Call) (state : Slot × Clock) : Answer :=
  match call with
  | .advance target => .reached (state.1.advance tuning target state.2).1
  | .pick target => .shown ((state.1.pick? target).map (·.1))
  | .close => .released

/-- The answers to a sequence of calls, each with the count of frames queued after it. A caller does
not come to those that follow an overflow. -/
def answers (tuning : SlotTuning) : List Call → Slot × Clock → List (Answer × Nat)
  | [], _ => []
  | call :: calls, state =>
    let next := perform tuning call state
    (answer tuning call state, next.1.queue.size) :: answers tuning calls next

section Answers
variable {tuning : SlotTuning} {s t : Slot} {c d : Clock}

theorem perform_alike (tuning : SlotTuning) (call : Call) (alike : s.Alike t) (moving : c.Moving)
    (moving' : d.Moving) :
    answer tuning call (s, c) = answer tuning call (t, d) ∧
      (perform tuning call (s, c)).1.Alike (perform tuning call (t, d)).1 ∧
      (perform tuning call (s, c)).2.Moving ∧ (perform tuning call (t, d)).2.Moving := by
  cases call with
  | advance target =>
    refine and_assoc.mp ⟨?_, advance_moving target moving, advance_moving target moving'⟩
    have same : t.closed = s.closed := by
      obtain ⟨usage, rfl⟩ := alike
      rfl
    simp only [answer, perform]
    cases running : s.closed with
    | true =>
      rw [advance_closed tuning target s c running,
        advance_closed tuning target t d (same.trans running)]
      obtain ⟨usage, rfl⟩ := alike
      exact ⟨rfl, usage, rfl⟩
    | false =>
      obtain ⟨result, after⟩ := advance_alike_of_aimed tuning moving moving' running
        (same.trans running) (reckons_alike tuning target alike) (aimed_alike target alike)
      exact ⟨by rw [result], after⟩
  | pick target =>
    exact ⟨congrArg Answer.shown (pick?_alike target alike), (pick_alike target alike).2, moving,
      moving'⟩
  | close => exact ⟨rfl, close_alike alike, moving, moving'⟩

theorem answers_alike (calls : List Call) (alike : s.Alike t) (moving : c.Moving)
    (moving' : d.Moving) : answers tuning calls (s, c) = answers tuning calls (t, d) := by
  induction calls generalizing s t c d with
  | nil => rfl
  | cons call calls ih =>
    obtain ⟨same, after, still, still'⟩ := perform_alike tuning call alike moving moving'
    have queued : (perform tuning call (t, d)).1.queue.size =
        (perform tuning call (s, c)).1.queue.size := by
      obtain ⟨usage, eq⟩ := after
      rw [eq]
      rfl
    rw [answers, answers, same, queued]
    exact congrArg _ (ih after still still')

end Answers

section History
variable {clip : String} {table : List Sample} {fresh : Decoder} {reverse : Bool}
  {tuning : SlotTuning} {target place : Int} {s t after : Slot}

/-- An open slot of a clip, on a decoder that was fresh when the slot was opened. -/
structure Working (clip : String) (fresh : Decoder) (s : Slot) : Prop where
  named : s.clip = clip
  running : s.closed = false
  decoder : s.decoder = { fresh with
    waiting := s.decoder.waiting
    needsKeyframe := s.decoder.needsKeyframe
    flushing := s.decoder.flushing
    usage := s.decoder.usage }

theorem start_working (clip : String) (table : List Sample) (fresh : Decoder) (reverse : Bool)
    (tuning : SlotTuning) (target : Int) :
    (start clip table fresh reverse tuning target).Working clip fresh :=
  ⟨rfl, rfl, rfl⟩

theorem move_working {horizon : Int} (move : Move tuning horizon s after)
    (h : s.Working clip fresh) : after.Working clip fresh := by
  have named := h.named
  have running := h.running
  have decoder := h.decoder
  cases move with
  | feed wanted room next taken =>
    rw [Decoder.decode_fields taken]
    refine ⟨named, running, ?_⟩
    dsimp only
    rw [decoder]
  | arrive given =>
    obtain ⟨timestamp, index, rest, -, -, rfl⟩ := Decoder.next_fields given
    rw [receive_fields]
    refine ⟨named, running, ?_⟩
    dsimp only [Decoder.release]
    rw [decoder]
  | flush fed first =>
    refine ⟨named, running, ?_⟩
    dsimp only [Decoder.flush]
    rw [decoder]

theorem seek_working (target : Int) (h : s.Working clip fresh) :
    (s.seek target).Working clip fresh := by
  refine ⟨h.named, h.running, ?_⟩
  have decoder := h.decoder
  dsimp only [seek, position, requeue, Decoder.release, Decoder.reset]
  rw [decoder]

theorem pick_working (target : Int) (h : s.Working clip fresh) :
    (s.pick target).2.Working clip fresh := by
  refine ⟨h.named, h.running, ?_⟩
  have decoder := h.decoder
  dsimp only [pick, requeue, Decoder.release]
  rw [decoder]

/-- The place of a slot says where it reads from and what it keeps; the rest is what it holds. -/
theorem placed_alike (h : s.Placed table reverse tuning place)
    (h' : t.Placed table reverse tuning place) (clip : t.clip = s.clip)
    (decoder : t.decoder = s.decoder.booked t.decoder.usage) (cursor : t.cursor = s.cursor)
    (frames : t.queue.frames = s.queue.frames) (flushed : t.flushed = s.flushed)
    (closed : t.closed = s.closed) : s.Alike t := by
  have samples : t.samples = s.samples := by
    have same : t.samples.toList = s.samples.toList := h'.reads.trans h.reads.symm
    exact Array.toList_inj.mp same
  have opens := h'.opens.trans h.opens.symm
  have stops := h'.stops.trans h.stops.symm
  have direction := h'.direction.trans h.direction.symm
  have drops := h'.drops.trans h.drops.symm
  have margin := h'.margin.trans h.margin.symm
  have half := h'.half.trans h.half.symm
  have room := h'.room.trans h.room.symm
  have queue : t.queue = s.queue := congrArg₂ FrameQueue.mk frames room
  refine ⟨t.decoder.usage, ?_⟩
  cases t
  simp only [booked, Slot.mk.injEq]
  exact ⟨clip, samples, decoder, cursor, opens, stops, direction, queue, drops, margin, half,
    flushed, closed⟩

/-- A slot that seeks a target holds what one holds that is opened there. -/
theorem sought_alike {K : Type} {source : Source K} (h : s.Working clip (Decoder.ofSource source))
    (placed : s.Placed table reverse tuning place) (target : Int) :
    (start clip table (Decoder.ofSource source) reverse tuning target).Alike (s.seek target) := by
  have reset : s.decoder.reset = (Decoder.ofSource source).booked s.decoder.reset.usage := by
    have decoder := h.decoder
    generalize s.decoder = d at decoder ⊢
    rw [decoder]
    rfl
  refine placed_alike (start_placed clip _) (seek_placed target placed) h.named ?_ ?_ rfl rfl
    h.running
  · change s.decoder.reset.release _ = _
    rw [reset]
    rfl
  · exact congrArg (Sample.keyframeAtOrBefore · target) placed.reads

/-- A slot that is opened at a target and advanced to it holds the same, whether it seeks or not. -/
theorem start_aimed_alike {K : Type} (source : Source K) (clip : String) (table : List Sample)
    (reverse : Bool) (tuning : SlotTuning) (target : Int) :
    (start clip table (Decoder.ofSource source) reverse tuning target).Alike
      ((start clip table (Decoder.ofSource source) reverse tuning target).aimed target) := by
  unfold aimed
  split
  · exact sought_alike (start_working ..) (start_placed clip _) target
  · exact .refl _

theorem played_working (calls : List Call) (unclosed : Call.close ∉ calls) (clock : Clock)
    (h : s.Working clip fresh) (placed : s.Placed table reverse tuning place) :
    (played tuning calls (s, clock)).1.Working clip fresh ∧
      ∃ place, (played tuning calls (s, clock)).1.Placed table reverse tuning place := by
  induction calls generalizing s clock place with
  | nil => exact ⟨h, place, placed⟩
  | cons call calls ih =>
    have rest : Call.close ∉ calls := fun member => unclosed (List.mem_cons_of_mem _ member)
    cases call with
    | advance target =>
      obtain ⟨working, place, placed⟩ :=
        @advance_keeps tuning
          (fun s => s.Working clip fresh ∧ ∃ place, s.Placed table reverse tuning place)
          (fun move kept => ⟨move_working move kept.1,
            kept.2.imp fun place placed => move_placed move placed⟩)
          s target
          (fun kept => ⟨seek_working target kept.1, target,
            kept.2.elim fun place placed => seek_placed target placed⟩)
          clock ⟨h, place, placed⟩
      exact ih rest _ working placed
    | pick target => exact ih rest clock (pick_working target h) (pick_placed target placed)
    | close => exact absurd List.mem_cons_self unclosed

end History

section Seeking
variable {clip : String} {table : List Sample} {reverse : Bool} {tuning : SlotTuning}
  {opening target place : Int} {s first : Slot} {d : Decoder}

/-- Whether an advance leaves its place for the target: it has room to compare the target with the
oldest frame, and the target has left what was decoded. -/
structure Seeks (s : Slot) (target : Int) : Prop where
  room : s.floor ≤ target → s.reverse = false → s.queue.frames ≠ [] → Fits (target + s.halfFrame)
  left : s.needsSeek target = true

theorem seek_floor (placed : s.Placed table reverse tuning place) (target : Int) :
    (s.seek target).floor = floorAt table reverse tuning target :=
  (seek_placed target placed).drops

theorem Seeks.reckons_iff (seeks : s.Seeks target) (placed : s.Placed table reverse tuning place) :
    s.Reckons tuning target ↔
      Fits (floorAt table reverse tuning target) ∧ Fits (target + tuning.lookahead) := by
  have floor := seek_floor placed target
  constructor
  · intro reckons
    exact ⟨floor ▸ reckons.floor seeks.left, reckons.horizon⟩
  · rintro ⟨word, horizon⟩
    exact ⟨seeks.room, fun _ => floor ▸ word, horizon⟩

/-- A slot that was opened at the target has nothing to compare it with. -/
theorem start_reckons_iff (opens : Opens table reverse tuning target) :
    (start clip table d reverse tuning target).Reckons tuning target ↔
      Fits (target + tuning.lookahead) := by
  have placed : (start clip table d reverse tuning target).Placed table reverse tuning target :=
    start_placed clip d
  have floor := seek_floor placed target
  constructor
  · exact fun reckons => reckons.horizon
  · exact fun horizon => ⟨fun _ _ busy => absurd rfl busy, fun _ => floor ▸ opens.floor, horizon⟩

/-- Of what is reckoned to open a slot, only the floor depends on the target. -/
theorem Opens.at_iff (opens : Opens table reverse tuning opening) :
    Opens table reverse tuning target ↔ Fits (floorAt table reverse tuning target) :=
  ⟨fun h => h.floor, fun floor => ⟨opens.steps, opens.window, opens.capacity, floor⟩⟩

end Seeking

/-- After a seek a slot answers like one that is opened at the target, whatever calls went before
and however they ended. Where no slot can be opened there, the seek overflows as well. -/
theorem seek_forgets {K : Type} (source : Source K) (clip : String) (table : List Sample)
    (reverse : Bool) (tuning : SlotTuning) (opening : Int) {first : Slot}
    (opened : start? clip table (Decoder.ofSource source) reverse tuning opening = some first)
    (past : List Call) (unclosed : Call.close ∉ past) {clock anew between : Clock}
    (moving : clock.Moving) (moving' : anew.Moving) {s : Slot} (target : Int)
    (run : played tuning past (first, clock) = (s, between)) (seeks : s.Seeks target)
    (later : List Call) :
    (∀ fresh, start? clip table (Decoder.ofSource source) reverse tuning target = some fresh →
      answers tuning (.advance target :: later) (s, between) =
        answers tuning (.advance target :: later) (fresh, anew)) ∧
    (start? clip table (Decoder.ofSource source) reverse tuning target = none →
      (s.advance tuning target between).1 = .error .overflow) := by
  obtain ⟨opens, rfl⟩ := start?_eq_some_iff.mp opened
  have past_works := played_working past unclosed clock
    (start_working clip table (Decoder.ofSource source) reverse tuning opening)
    (start_placed clip _)
  have still : (played tuning past
      (start clip table (Decoder.ofSource source) reverse tuning opening, clock)).2.Moving :=
    played_moving past moving
  rw [run] at past_works still
  obtain ⟨working, place, placed⟩ := past_works
  have reckons := seeks.reckons_iff placed
  constructor
  · rintro fresh opened'
    obtain ⟨opens', rfl⟩ := start?_eq_some_iff.mp opened'
    let fresh := start clip table (Decoder.ofSource source) reverse tuning target
    have both : s.Reckons tuning target ↔ fresh.Reckons tuning target := by
      rw [reckons, start_reckons_iff opens']
      exact and_iff_right opens'.floor
    have aimed : (s.aimed target).Alike (fresh.aimed target) := by
      rw [show s.aimed target = s.seek target from if_pos seeks.left]
      exact (sought_alike working placed target).symm.trans (start_aimed_alike source ..)
    obtain ⟨same, alike⟩ := advance_alike_of_aimed tuning still moving' working.running rfl both aimed
    have queued : (fresh.advance tuning target anew).2.1.queue.size =
        (s.advance tuning target between).2.1.queue.size := by
      obtain ⟨usage, eq⟩ := alike
      rw [eq]
      rfl
    rw [answers, answers]
    refine congrArg₂ List.cons (Prod.ext (congrArg Answer.reached same) queued.symm) ?_
    exact answers_alike later alike (advance_moving target still) (advance_moving target moving')
  · intro refused
    have overflows : ¬ s.Reckons tuning target := by
      intro fits
      have opens' := opens.at_iff.mpr (reckons.mp fits).1
      simp [start?, opens'] at refused
    rw [advance_overflow tuning target s between working.running overflows]

/-- A source of which the second frame does not decode. -/
def spoiltSource : Source Nat := ⟨1, 1, 10, 1, 2, 0, false, some 1⟩

def farSighted : SlotTuning := ⟨200000, 35000, 4, 5⟩

/-- A slot on that source. -/
def spoiltSlot (target : Int) : Slot :=
  start "c1" twoGroups (Decoder.ofSource spoiltSource) false farSighted target

theorem spoiltSlot_opened (target : Int) (inside : target ∈ [(0 : Int), 200000]) :
    start? "c1" twoGroups (Decoder.ofSource spoiltSource) false farSighted target =
      some (spoiltSlot target) := by
  have opens : ∀ target ∈ [(0 : Int), 200000], Opens twoGroups false farSighted target := by decide
  exact start?_eq_some_iff.mpr ⟨opens target inside, rfl⟩

/-- An advance that was refused a sample halfway. -/
def spoilt : Slot × Clock := played farSighted [.advance 0] (spoiltSlot 0, Clock.stepping 2)

theorem seek_forgets_spoilt :
    Call.close ∉ [Call.advance 0] ∧ (Clock.stepping 2).Moving ∧ (Clock.stepping 7).Moving ∧
      spoilt.1.decoder.pending = 1 ∧ spoilt.1.Seeks 200000 ∧
      answers farSighted [.advance 200000, .pick 200000, .advance 0, .pick 0] spoilt =
        answers farSighted [.advance 200000, .pick 200000, .advance 0, .pick 0]
          (spoiltSlot 200000, Clock.stepping 7) := by
  have moving : (Clock.stepping 2).Moving := stepping_moving (by decide)
  have moving' : (Clock.stepping 7).Moving := stepping_moving (by decide)
  have seeks : spoilt.1.Seeks 200000 := ⟨fun _ _ busy => absurd rfl busy, rfl⟩
  refine ⟨by decide, moving, moving', rfl, seeks, ?_⟩
  exact (seek_forgets spoiltSource "c1" twoGroups false farSighted 0
    (spoiltSlot_opened 0 (by decide)) [.advance 0] (by decide) moving moving' 200000 rfl seeks
    [.pick 200000, .advance 0, .pick 0]).1 _ (spoiltSlot_opened 200000 (by decide))

end Slot
end Montage
