import Montage.Proofs.Render.Conduct
import Montage.Proofs.Render.Fallback
import Montage.Proofs.Render.Percentages
import Montage.Proofs.Text.Blank

/- What a transcoder's output makes known. Its lines tell times and marks; each mark asks for one
   report, and of these reports all come through that do not go back. -/
namespace Montage

/-- What a line of progress output says. -/
inductive Saying where
  | time (micros : Nat)
  | going
  | ended
  deriving DecidableEq, Repr

namespace Saying

def ofEntry? (key : String) (value : List Char) : Option Saying :=
  if key = "out_time_us" ∨ key = "out_time_ms" then (wholeNumber? value).map fun n => .time n.toNat
  else if key = "progress" then some (if String.ofList value = "end" then .ended else .going)
  else none

def ofLine? (line : String) : Option Saying :=
  match progressEntry? line with
  | some (key, value) => ofEntry? key value
  | none => none

def time? : Saying → Option Nat
  | .time n => some n
  | _ => none

end Saying

/-- Lines of text, up to the first that is none. -/
def readable : List Bytes → List String
  | [] => []
  | line :: rest =>
    match Utf8.decode line with
    | .error _ => []
    | .ok s => s :: readable rest

/-- The time told last, nought before any. -/
def lastTime (said : List Saying) : Nat := (said.filterMap Saying.time?).getLast?.getD 0

/-- The report that a saying asks for after others. -/
def ask? (total : Nat) (before : List Saying) : Saying → Option Report
  | .time _ => none
  | .going => some
      ⟨.rendering, if total = 0 then 100 else Progress.share (lastTime before) total, "Transcoding"⟩
  | .ended => some ⟨.rendering, 100, "Transcoder finished"⟩

def asks (total : Nat) (before : List Saying) : List Saying → List Report
  | [] => []
  | x :: rest => (ask? total before x).toList ++ asks total (before ++ [x]) rest

/-- Reports that go below neither the floor nor a report before them. -/
def climbing (floor : Nat) : List Report → List Report
  | [] => []
  | r :: rest =>
    let later := climbing (max floor r.percent) rest
    if r.percent < floor then later else r :: later

section Climbing
variable {floor : Nat} {r : Report} {rs more : List Report}

theorem climbing_sublist (floor : Nat) (rs : List Report) : (climbing floor rs).Sublist rs := by
  induction rs generalizing floor with
  | nil => exact .slnil
  | cons r rest ih =>
    simp only [climbing]
    split
    · exact .cons _ (ih _)
    · exact .cons_cons _ (ih _)

theorem floor_le_climbing (floor : Nat) (rs : List Report) :
    ∀ r ∈ climbing floor rs, floor ≤ r.percent := by
  induction rs generalizing floor with
  | nil => simp [climbing]
  | cons x rest ih =>
    intro r member
    simp only [climbing] at member
    split at member
    · have := ih _ r member
      omega
    · rcases List.mem_cons.mp member with rfl | later
      · omega
      · have := ih _ r later
        omega

theorem climbing_rises (floor : Nat) (rs : List Report) :
    (climbing floor rs).Pairwise fun earlier later => earlier.percent ≤ later.percent := by
  induction rs generalizing floor with
  | nil => simp [climbing]
  | cons x rest ih =>
    simp only [climbing]
    split
    · exact ih _
    · refine List.pairwise_cons.mpr ⟨?_, ih _⟩
      intro r member
      have := floor_le_climbing _ _ r member
      omega

theorem climbing_append (floor : Nat) (rs more : List Report) :
    climbing floor (rs ++ more) =
      climbing floor rs ++ climbing (rs.foldl (fun n r => max n r.percent) floor) more := by
  induction rs generalizing floor with
  | nil => simp [climbing]
  | cons r rest ih =>
    simp only [List.cons_append, climbing, List.foldl_cons, ih]
    split <;> simp

theorem foldl_max_le {top : Nat} (low : floor ≤ top) (bounded : ∀ r ∈ rs, r.percent ≤ top) :
    rs.foldl (fun n r => max n r.percent) floor ≤ top := by
  induction rs generalizing floor with
  | nil => exact low
  | cons r rest ih =>
    obtain ⟨first, others⟩ := List.forall_mem_cons.mp bounded
    exact ih (Nat.max_le.mpr ⟨low, first⟩) others

/-- Nothing goes below a full report. -/
theorem climbing_full (full : r.percent = 100) (bounded : ∀ x ∈ rs, x.percent ≤ 100)
    (after : ∀ x ∈ more, x.percent ≤ 100) :
    ∃ late, climbing 0 (rs ++ r :: more) = climbing 0 rs ++ r :: late ∧
      ∀ x ∈ late, x.percent = 100 := by
  have top : rs.foldl (fun n r => max n r.percent) 0 ≤ 100 := foldl_max_le (by omega) bounded
  rw [climbing_append, climbing, if_neg (by omega)]
  refine ⟨_, rfl, ?_⟩
  intro x member
  have low := floor_le_climbing _ _ x member
  have high := after x ((climbing_sublist _ _).subset member)
  omega

end Climbing

section Asking
variable {total : Nat} {before : List Saying} {x : Saying} {r : Report}

theorem ask?_report (asked : ask? total before x = some r) :
    r.stage = .rendering ∧ r.percent ≤ 100 := by
  cases x with
  | time n => cases asked
  | ended =>
    cases asked
    simp
  | going =>
    cases asked
    refine ⟨rfl, ?_⟩
    dsimp only
    split
    · omega
    · exact Progress.share_le _ _

theorem mem_asks {said : List Saying} : r ∈ asks total before said ↔
    ∃ front x back, said = front ++ x :: back ∧ ask? total (before ++ front) x = some r := by
  induction said generalizing before with
  | nil => simp [asks]
  | cons y rest ih =>
    simp only [asks, List.mem_append, Option.mem_toList, ih]
    constructor
    · rintro (first | ⟨front, x, back, rfl, asked⟩)
      · exact ⟨[], y, rest, rfl, by simpa using first⟩
      · exact ⟨y :: front, x, back, rfl, by simpa using asked⟩
    · rintro ⟨front, x, back, eq, asked⟩
      cases front with
      | nil =>
        cases eq
        exact .inl (by simpa using asked)
      | cons z front =>
        cases eq
        exact .inr ⟨front, x, back, rfl, by simpa using asked⟩

theorem asks_append (said more : List Saying) : asks total before (said ++ more) =
    asks total before said ++ asks total (before ++ said) more := by
  induction said generalizing before with
  | nil => simp [asks]
  | cons y rest ih => simp [asks, ih]

theorem asks_report {said : List Saying} (member : r ∈ asks total before said) :
    r.stage = .rendering ∧ r.percent ≤ 100 := by
  obtain ⟨_, _, _, _, asked⟩ := mem_asks.mp member
  exact ask?_report asked

end Asking

namespace Progress

/-- The percentage that rendering has reached. -/
def reached (p : Progress) : Nat :=
  match p.last with
  | some (.rendering, n) => n
  | _ => 0

def hear (p : Progress) (r : Report) : Progress := p.report r.stage r.percent r.message

theorem goesBack_reached (p : Progress) (n : Nat) :
    p.goesBack .rendering n = decide (n < p.reached) := by
  unfold goesBack reached
  cases p.last with
  | none => simp
  | some last =>
    obtain ⟨stage, m⟩ := last
    cases stage <;> simp

variable {p : Progress} {r : Report}

theorem hear_reached (stage : r.stage = .rendering) (percent : r.percent ≤ 100) :
    (p.hear r).reached = max p.reached r.percent := by
  obtain ⟨_, n, message⟩ := r
  subst stage
  simp only [hear, report, Nat.min_eq_left percent, goesBack_reached]
  by_cases back : n < p.reached
  · simp [back, Nat.max_eq_left back.le]
  · have high := Nat.max_eq_right (Nat.not_lt.mp back)
    simp only [back, decide_false, Bool.false_eq_true, if_false, high]
    rfl

theorem hear_connected (p : Progress) (r : Report) : (p.hear r).connected = p.connected := by
  simp only [hear, report]
  split <;> rfl

theorem hear_delivered (stage : r.stage = .rendering) (percent : r.percent ≤ 100) :
    (p.hear r).delivered.toList = p.delivered.toList ++
      if p.connected ∧ ¬ r.percent < p.reached then [r] else [] := by
  obtain ⟨_, n, message⟩ := r
  subst stage
  simp only [hear, report, Nat.min_eq_left percent, goesBack_reached]
  by_cases back : n < p.reached
  · simp [back]
  · cases connected : p.connected <;> simp [back]

/-- Of the reports on rendering a sink passes on those that climb. -/
theorem heard_delivered {rs : List Report}
    (fits : ∀ r ∈ rs, r.stage = .rendering ∧ r.percent ≤ 100) :
    (rs.foldl hear p).delivered.toList =
      p.delivered.toList ++ if p.connected then climbing p.reached rs else [] := by
  induction rs generalizing p with
  | nil => simp [climbing]
  | cons r rest ih =>
    obtain ⟨⟨stage, percent⟩, others⟩ := List.forall_mem_cons.mp fits
    rw [List.foldl_cons, ih others, hear_delivered stage percent, hear_reached stage percent,
      hear_connected, List.append_assoc]
    cases connected : p.connected
    · simp
    · by_cases back : r.percent < p.reached <;> simp [climbing, back]

/-- A short total leaves room for a hundred times any count. -/
theorem percentage_short {total : Nat} (short : total ≤ (twoTo 64 - 1) / 100) (done : Nat) :
    percentage? done total = some (if total = 0 then 100 else share done total) := by
  by_cases empty : total = 0
  · rw [percentage?, if_pos empty, if_pos empty]
  · have size : twoTo 64 = 18446744073709551616 := by decide
    have least := Nat.min_le_right done total
    rw [percentage?_eq (Nat.pos_of_ne_zero empty), if_pos (by omega), if_neg empty]

end Progress

section Following
variable {total : Nat} {before said : List Saying} {state : TranscoderState}

theorem lastTime_time (before : List Saying) (n : Nat) : lastTime (before ++ [.time n]) = n := by
  simp [lastTime, Saying.time?]

theorem lastTime_mark {x : Saying} (mark : x.time? = none) :
    lastTime (before ++ [x]) = lastTime before := by
  simp [lastTime, mark]

theorem fraction_hears (short : total ≤ (twoTo 64 - 1) / 100) (done : Nat) (s : Session) :
    (Run.fraction .rendering done total "Transcoding" s).1 = .ok () ∧
      (Run.fraction .rendering done total "Transcoding" s).2.progress = s.progress.hear
        ⟨.rendering, if total = 0 then 100 else Progress.share done total, "Transcoding"⟩ := by
  rw [Run.fraction_run, Progress.fraction, Progress.percentage_short short]
  exact ⟨rfl, Session.reported_progress _ _⟩

/-- One entry: what it says is heard, and its time is kept. -/
theorem reportEntry_hears (short : total ≤ (twoTo 64 - 1) / 100)
    (timed : state.outTime = lastTime before) (key : String) (value : List Char) (s : Session) :
    (reportEntry total (state.update key value) key s).1 = .ok () ∧
      (reportEntry total (state.update key value) key s).2.progress =
        (asks total before (Saying.ofEntry? key value).toList).foldl Progress.hear s.progress ∧
      (state.update key value).outTime = lastTime (before ++ (Saying.ofEntry? key value).toList) := by
  by_cases time : key = "out_time_us" ∨ key = "out_time_ms"
  · have other : key ≠ "progress" := by
      rcases time with rfl | rfl <;> decide
    rw [TranscoderState.update, Saying.ofEntry?, if_pos time, if_pos time, reportEntry, if_neg other]
    refine ⟨rfl, ?_⟩
    cases wholeNumber? value with
    | none => simp [asks, timed]; rfl
    | some n => simp [asks, ask?, lastTime_time]; rfl
  · by_cases mark : key = "progress"
    · subst mark
      rw [TranscoderState.update, Saying.ofEntry?, if_neg time, if_neg time, if_pos rfl, if_pos rfl,
        reportEntry, if_pos rfl]
      by_cases last : String.ofList value = "end"
      · simp only [last, beq_self_eq_true, if_true]
        refine ⟨rfl, Session.reported_progress _ _, ?_⟩
        exact timed.trans (lastTime_mark rfl).symm
      · simp only [last, beq_eq_false_iff_ne.mpr last, Bool.false_eq_true, if_false]
        obtain ⟨goes, heard⟩ := fraction_hears short (lastTime before) s
        rw [timed]
        exact ⟨goes, heard, (lastTime_mark rfl).symm⟩
    · rw [TranscoderState.update, Saying.ofEntry?, if_neg time, if_neg time, if_neg mark,
        if_neg mark, reportEntry, if_neg mark]
      exact ⟨rfl, rfl, by simpa using timed⟩

/-- The whole output: its reports are heard in their order, whether or not it can be read to its
end. -/
theorem followOutput_hears (short : total ≤ (twoTo 64 - 1) / 100) (lines : List Bytes)
    (timed : state.outTime = lastTime before) (s : Session) :
    (followOutput total lines state s).2.progress =
      (asks total before ((readable lines).filterMap Saying.ofLine?)).foldl Progress.hear
        s.progress := by
  induction lines generalizing state before s with
  | nil => rfl
  | cons line rest ih =>
    rw [followOutput, readable]
    cases Utf8.decode line with
    | error e => rfl
    | ok text =>
      dsimp only
      rw [List.filterMap_cons, Saying.ofLine?]
      cases progressEntry? text with
      | none => exact ih timed s
      | some entry =>
        obtain ⟨key, value⟩ := entry
        obtain ⟨done, heard, told⟩ := reportEntry_hears short timed key value s
        simp only [Steps.bind_run]
        generalize reportEntry total (state.update key value) key s = ran at done heard
        obtain ⟨result, after⟩ := ran
        cases done
        refine (ih told after).trans ?_
        rw [heard]
        cases Saying.ofEntry? key value with
        | none => simp [asks]
        | some x => simp [asks]

end Following

section Running
variable {said : List Saying}

/-- What is told of a transcript: each report is what a saying asks for after those before it, and
the rest would have gone back. -/
structure Transcribes (total : Nat) (said : List Saying) (told : List Report) : Prop where
  whole : told = climbing 0 (asks total [] said)
  rising : told.Pairwise fun earlier later => earlier.percent ≤ later.percent
  asked : ∀ r ∈ told, ∃ before x after, said = before ++ x :: after ∧ ask? total before x = some r
  finished : ∀ before after, said = before ++ .ended :: after → ∃ late,
    told = climbing 0 (asks total [] before) ++ ⟨.rendering, 100, "Transcoder finished"⟩ :: late ∧
      ∀ r ∈ late, r.percent = 100

theorem climbing_transcribes (total : Nat) (said : List Saying) :
    Transcribes total said (climbing 0 (asks total [] said)) where
  whole := rfl
  rising := climbing_rises _ _
  asked := by
    intro r member
    simpa using mem_asks.mp ((climbing_sublist _ _).subset member)
  finished := by
    rintro before after rfl
    rw [asks_append]
    exact climbing_full rfl (fun r member => (asks_report member).2)
      fun r member => (asks_report member).2

/-- A line without a sign of equality says nothing. -/
theorem ofLine?_plain {line : String} (plain : '=' ∉ line.toList) : Saying.ofLine? line = none := by
  have trimmed : ¬ (Text.trim line.toList).contains '=' := by
    simpa using fun member => plain (Text.trim_subset _ member)
  rw [Saying.ofLine?, progressEntry?, if_neg trimmed]

theorem ofLine?_unparsed {line key : String} {value : List Char}
    (entry : progressEntry? line = some (key, value)) (other : key ≠ "progress")
    (unparsed : wholeNumber? value = none) : Saying.ofLine? line = none := by
  simp [Saying.ofLine?, entry, Saying.ofEntry?, unparsed, other]

open Steps

/-- How a program ends adds nothing to what its output made known. -/
theorem ending_progress (total : Nat) (program : Program) (s : Session) :
    ((do
      followOutput total (outputLines program.stdout) TranscoderState.start
      if program.hangs then
        modify fun s => { s with cancel := s.cancel.trip }
        throw .cancelled
      if program.exit ≠ 0 then
        throw (.backend (.transcoderFailed ("exit status: " ++ toString program.exit)
          (complaint program.stderr))) : Run Unit) s).2.progress =
      (followOutput total (outputLines program.stdout) TranscoderState.start s).2.progress := by
  rw [bind_run]
  generalize followOutput total (outputLines program.stdout) TranscoderState.start s = ran
  obtain ⟨result, after⟩ := ran
  cases result with
  | error e => rfl
  | ok done =>
    dsimp only
    cases program.hangs with
    | true => rfl
    | false =>
      by_cases failed : program.exit ≠ 0
      · simp only [if_pos failed]
        rfl
      · simp only [if_neg failed]
        rfl

variable {programs : Programs} {name : String} {program : Program} {s : Session}

/-- A program that starts is followed, and nothing else that is done with it is reported. -/
theorem runTranscoder_follows (arguments : List String) (duration : Float)
    (clear : s.cancel.check.1 = .ok ()) (starts : programs.start s.files name = .ok program) :
    ∃ begun : Session, begun.progress = s.progress ∧
      (runTranscoder programs name arguments duration s).2.progress =
        (followOutput (toMicros duration).toNat (outputLines program.stdout) TranscoderState.start
          begun).2.progress := by
  unfold runTranscoder
  rw [bind_run, Run.check_eq, clear]
  simp only [bind_run, get_run, starts, Run.ofResult, pure_run, modify_run]
  cases program.output with
  | none =>
    refine ⟨_, ?_, ending_progress _ program _⟩
    rfl
  | some bytes =>
    cases arguments.getLast? with
    | none =>
      refine ⟨_, ?_, ending_progress _ program _⟩
      rfl
    | some place =>
      dsimp only
      rw [bind_run, modify_run]
      refine ⟨_, ?_, ending_progress _ program _⟩
      rfl

/-- The progress of a transcoder follows the stream of its output, whatever that says. Where a
hundred times the duration is a word, what is delivered never falls, is full at an end and at each
other mark the share of the duration that the last readable time has, and stays full after an end.
Lines that are no entries, and times that are no numbers, say nothing. -/
theorem transcoder_progress_follows (arguments : List String) (duration : Float)
    (fresh : s.progress.currentStage ≠ some .rendering)
    (short : (toMicros duration).toNat ≤ (twoTo 64 - 1) / 100)
    (clear : s.cancel.check.1 = .ok ()) (starts : programs.start s.files name = .ok program) :
    (∃ told, Transcribes (toMicros duration).toNat
        ((readable (outputLines program.stdout)).filterMap Saying.ofLine?) told ∧
      (runTranscoder programs name arguments duration s).2.progress.delivered.toList =
        s.progress.delivered.toList ++ if s.progress.connected then told else []) ∧
    (∀ line : String, '=' ∉ line.toList → Saying.ofLine? line = none) ∧
    ∀ line key value, progressEntry? line = some (key, value) → key ≠ "progress" →
      wholeNumber? value = none → Saying.ofLine? line = none := by
  refine ⟨⟨_, climbing_transcribes _ _, ?_⟩, fun _ => ofLine?_plain, fun _ _ _ => ofLine?_unparsed⟩
  obtain ⟨begun, same, follows⟩ := runTranscoder_follows arguments duration clear starts
  have unreached : s.progress.reached = 0 := by
    unfold Progress.reached
    split
    · rename_i last
      exact absurd (by simp [Progress.currentStage, last]) fresh
    · rfl
  have hears := followOutput_hears short (outputLines program.stdout)
    (show TranscoderState.start.outTime = lastTime [] from rfl) begun
  rw [follows, hears, same,
    Progress.heard_delivered fun r member => asks_report member, unreached]

/-- Half of two seconds, a time before the start that leaves nothing to tell, and more after the
end. -/
def wavering : Program where
  stdout := Utf8.encode ("frame=1\nout_time_us=1000000\nprogress=continue\nout_time_ms=-10\n" ++
    "progress=continue\nnoise\nout_time_us=N/A\nprogress=end\nprogress=continue\n")
  stderr := []
  output := none
  exit := 0
  hangs := false

def waveringPrograms : Programs := ⟨[], [("ffmpeg", wavering)]⟩

theorem transcoder_progress_follows_wavering :
    idleSession.progress.currentStage ≠ some .rendering ∧
      (toMicros (2 : Float)).toNat ≤ (twoTo 64 - 1) / 100 ∧
      idleSession.cancel.check.1 = .ok () ∧
      waveringPrograms.start idleSession.files "ffmpeg" = .ok wavering ∧
      (runTranscoder waveringPrograms "ffmpeg" ["out.mp4"] 2 idleSession).2.progress.delivered.toList =
        [⟨.rendering, 50, "Transcoding"⟩, ⟨.rendering, 100, "Transcoder finished"⟩] := by
  have fresh : idleSession.progress.currentStage ≠ some .rendering := by decide
  have micros : (toMicros (2 : Float)).toNat = 2000000 := by decide +kernel
  have short : (toMicros (2 : Float)).toNat ≤ (twoTo 64 - 1) / 100 := by
    rw [micros]
    decide
  have starts : waveringPrograms.start idleSession.files "ffmpeg" = .ok wavering := rfl
  obtain ⟨⟨told, transcribes, delivered⟩, -, -⟩ :=
    transcoder_progress_follows ["out.mp4"] 2 fresh short rfl starts
  refine ⟨fresh, short, rfl, starts, ?_⟩
  rw [delivered, transcribes.whole, micros]
  decide +kernel

end Running
end Montage
