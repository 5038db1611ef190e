import Montage.Graph.Compile
import Montage.Graph.Text
import Mathlib.Data.List.Nodup

/- The chains of a compiled graph are wired as a netlist: each label has one chain that produces
   it, stands after that chain wherever it is consumed, and is consumed once unless it is an
   output. Names are told apart by their letters and their number. -/
namespace Montage.Graph
variable {K : Type}

section Labels

def Label.number? : Label → Option Nat
  | .source n _ | .videoSpan n | .backdrop n | .foreground n | .audioSpan n | .audioTrack n => some n
  | .untitled | .videoOut | .audioOut => none

/-- A label's name without its number. -/
def Label.letters : Label → List Char
  | .source _ .video => [':', 'v']
  | .source _ .audio => [':', 'a']
  | .videoSpan _ => ['v']
  | .backdrop _ => ['b']
  | .foreground _ => ['b', 'f', 'g']
  | .audioSpan _ => ['a']
  | .audioTrack _ => ['t']
  | .untitled => ['v', 'c', 'a', 't']
  | .videoOut => ['v', 'o', 'u', 't']
  | .audioOut => ['a', 'o', 'u', 't']

theorem digits_kept (n : Nat) : (Nat.toDigits 10 n).filter Char.isDigit = Nat.toDigits 10 n := by
  rw [List.filter_eq_self]
  intro c member
  exact Nat.isDigit_of_mem_toDigits (by decide) (by decide) member

theorem digits_dropped (n : Nat) : (Nat.toDigits 10 n).filter (fun c => !c.isDigit) = [] := by
  rw [List.filter_eq_nil_iff]
  intro c member
  simp [Nat.isDigit_of_mem_toDigits (by decide) (by decide) member]

theorem digits_injective {m n : Nat} (same : Nat.toDigits 10 m = Nat.toDigits 10 n) : m = n := by
  rw [← @Nat.ofDigitChars_ten_toDigits m, same, Nat.ofDigitChars_ten_toDigits]

theorem letters_text (l : Label) : l.text.toList.filter (fun c => !c.isDigit) = l.letters := by
  cases l with
  | source n medium => cases medium <;> simp [Label.text, Label.letters, digits_dropped]
  | _ => simp [Label.text, Label.letters, digits_dropped]

theorem digits_text (l : Label) :
    l.text.toList.filter Char.isDigit = (l.number?.map (Nat.toDigits 10)).getD [] := by
  cases l with
  | source n medium => cases medium <;> simp [Label.text, Label.number?, digits_kept]
  | _ => simp [Label.text, Label.number?, digits_kept]

theorem label_eq {a b : Label} (letters : a.letters = b.letters) (number : a.number? = b.number?) :
    a = b := by
  cases a with
  | source m first =>
    cases b with
    | source n second => cases first <;> cases second <;> simp_all [Label.letters, Label.number?]
    | _ => cases first <;> cases letters
  | _ =>
    cases b with
    | source n second => cases second <;> cases letters
    | _ => first | rfl | exact congrArg _ (Option.some.inj number) | cases letters

theorem text_injective : Function.Injective Label.text := by
  intro a b same
  have letters : a.letters = b.letters := by rw [← letters_text, same, letters_text]
  have digits := digits_text a
  rw [same, digits_text b] at digits
  refine label_eq letters ?_
  cases left : a.number? with
  | none =>
    cases right : b.number? with
    | none => rfl
    | some n => simp [left, right] at digits
  | some m =>
    cases right : b.number? with
    | none => simp [left, right] at digits
    | some n =>
      have written : Nat.toDigits 10 n = Nat.toDigits 10 m := by simpa [left, right] using digits
      rw [digits_injective written]

end Labels

def produced (chains : List (Chain K)) : List Label := chains.map (·.produces)

/-- The labels a chain takes from other chains. -/
def Chain.taken (c : Chain K) : List Label := c.consumes.filter fun l => !l.isSource

def taken (chains : List (Chain K)) : List Label := chains.flatMap Chain.taken

/-- How many streams a filter says that it joins. -/
def Filter.joins? : Filter K → Option Nat
  | .joinVideo n | .joinAudio n | .mix n => some n
  | _ => none

def Chain.Fits (c : Chain K) : Prop :=
  ∀ f ∈ c.filters, ∀ n, f.joins? = some n → n = c.consumes.length

structure WellFormed (chains : List (Chain K)) (audible : Bool) : Prop where
  proper : ∀ l ∈ produced chains, l.isSource = false
  once : ∀ l ∈ produced chains ++ taken chains, (produced chains).count l = 1
  /-- Wherever a label is consumed, the chain that produces it stands earlier. -/
  before : ∀ earlier c later, chains = earlier ++ c :: later → ∀ l ∈ c.taken, l ∈ produced earlier
  used : ∀ l ∈ produced chains, l ≠ .videoOut → l ≠ .audioOut → (taken chains).count l = 1
  video : (produced chains).count .videoOut = 1
  audio : (produced chains).count .audioOut = if audible then 1 else 0
  fits : ∀ c ∈ chains, c.Fits

@[simp] theorem produced_append (a b : List (Chain K)) :
    produced (a ++ b) = produced a ++ produced b := List.map_append

@[simp] theorem produced_nil : produced ([] : List (Chain K)) = [] := rfl

@[simp] theorem produced_cons (c : Chain K) (rest : List (Chain K)) :
    produced (c :: rest) = c.produces :: produced rest := rfl

@[simp] theorem taken_append (a b : List (Chain K)) : taken (a ++ b) = taken a ++ taken b :=
  List.flatMap_append

@[simp] theorem taken_single (c : Chain K) : taken [c] = c.taken := List.append_nil _

/-- Chains that are wired so far, with the labels that nothing consumes yet. -/
structure Wired (chains : List (Chain K)) (loose : List Label) : Prop where
  proper : ∀ l ∈ produced chains, l.isSource = false
  nodup : (produced chains).Nodup
  balance : (produced chains).Perm (taken chains ++ loose)
  before : ∀ earlier c later, chains = earlier ++ c :: later → ∀ l ∈ c.taken, l ∈ produced earlier
  fits : ∀ c ∈ chains, c.Fits

namespace Wired
variable {chains : List (Chain K)} {loose rest : List Label}

theorem nil : Wired ([] : List (Chain K)) [] where
  proper := by simp
  nodup := List.nodup_nil
  balance := .nil
  before := by simp
  fits := by simp

theorem perm (wired : Wired chains loose) (same : loose.Perm rest) : Wired chains rest :=
  { wired with balance := wired.balance.trans (same.append_left _) }

theorem loose_produced (wired : Wired chains loose) {l : Label} (member : l ∈ loose) :
    l ∈ produced chains :=
  wired.balance.mem_iff.mpr (List.mem_append_right _ member)

/-- Loose labels come from chains, so that a chain that consumes them takes them all. -/
theorem takes_loose (wired : Wired chains loose) {labels : List Label} (inside : labels ⊆ loose) :
    labels.filter (fun l => !l.isSource) = labels := by
  rw [List.filter_eq_self]
  intro l member
  rw [wired.proper l (wired.loose_produced (inside member)), Bool.not_false]

/-- One more chain, which takes some of the loose labels and adds a new one. -/
theorem snoc (wired : Wired chains loose) {c : Chain K} (fresh : c.produces ∉ produced chains)
    (proper : c.produces.isSource = false) (takes : loose.Perm (c.taken ++ rest)) (fits : c.Fits) :
    Wired (chains ++ [c]) (c.produces :: rest) where
  proper := by
    intro l member
    rw [produced_append, List.mem_append, produced_cons, produced_nil, List.mem_singleton] at member
    rcases member with earlier | rfl
    · exact wired.proper l earlier
    · exact proper
  nodup := by
    rw [produced_append, produced_cons, produced_nil, ← List.concat_eq_append]
    exact wired.nodup.concat fresh
  balance := by
    rw [produced_append, produced_cons, produced_nil, taken_append, taken_single]
    have kept : (produced chains).Perm (taken chains ++ c.taken ++ rest) := by
      rw [List.append_assoc]
      exact wired.balance.trans (takes.append_left _)
    refine (kept.append_right _).trans ?_
    rw [List.append_assoc]
    exact (List.perm_append_singleton _ _).append_left _
  before := by
    intro earlier d later split l member
    rcases List.eq_nil_or_concat' later with rfl | ⟨init, last, rfl⟩
    · obtain ⟨rfl, same⟩ := List.append_inj' split rfl
      obtain rfl := List.singleton_inj.mp same
      exact wired.loose_produced (takes.mem_iff.mpr (List.mem_append_left _ member))
    · have split : chains ++ [c] = (earlier ++ d :: init) ++ [last] := by simpa using split
      exact wired.before earlier d init (List.append_inj' split rfl).1 l member
  fits := by
    intro d member
    rcases List.mem_append.mp member with earlier | last
    · exact wired.fits d earlier
    · rw [List.mem_singleton.mp last]
      exact fits

end Wired

theorem mem_add {d : Draft K} {c : Chain K} {l : Label} :
    l ∈ produced (d.add [c]).chains ↔ l ∈ produced d.chains ∨ l = c.produces := by
  simp [Draft.add]

theorem add_three (d : Draft K) (a b c : Chain K) :
    d.add [a, b, c] = ((d.add [a]).add [b]).add [c] := by
  simp [Draft.add]

theorem inputFor_chains (d : Draft K) (path : String) : (d.inputFor path).2.chains = d.chains := by
  unfold Draft.inputFor
  split <;> rfl

theorem inputFor_next (d : Draft K) (path : String) : (d.inputFor path).2.next = d.next := by
  unfold Draft.inputFor
  split <;> rfl

/-- A wired draft: its numbered labels lie below the next number, and `named` holds the rest. -/
structure Drafted (d : Draft K) (named loose : List Label) : Prop where
  wired : Wired d.chains loose
  numbers : ∀ l ∈ produced d.chains, ∀ n, l.number? = some n → n < d.next
  names : ∀ l ∈ produced d.chains, l.number? = none → l ∈ named

namespace Drafted
variable {d e : Draft K} {named loose rest : List Label}

theorem empty : Drafted (Draft.empty : Draft K) [] [] where
  wired := .nil
  numbers := by simp [Draft.empty]
  names := by simp [Draft.empty]

theorem perm (drafted : Drafted d named loose) (same : loose.Perm rest) : Drafted d named rest :=
  { drafted with wired := drafted.wired.perm same }

theorem raise (drafted : Drafted d named loose) (chains : e.chains = d.chains)
    (next : d.next ≤ e.next) : Drafted e named loose where
  wired := chains ▸ drafted.wired
  numbers := by
    intro l member n number
    rw [chains] at member
    exact Nat.lt_of_lt_of_le (drafted.numbers l member n number) next
  names := by
    rw [chains]
    exact drafted.names

theorem unused (drafted : Drafted d named loose) {l : Label} {n : Nat} (number : l.number? = some n)
    (new : d.next ≤ n) : l ∉ produced d.chains :=
  fun member => absurd (drafted.numbers l member n number) (by omega)

theorem add_numbered (drafted : Drafted d named loose) {c : Chain K} {n : Nat}
    (number : c.produces.number? = some n) (below : n < d.next)
    (fresh : c.produces ∉ produced d.chains) (proper : c.produces.isSource = false)
    (takes : loose.Perm (c.taken ++ rest)) (fits : c.Fits) :
    Drafted (d.add [c]) named (c.produces :: rest) where
  wired := drafted.wired.snoc fresh proper takes fits
  numbers := by
    intro l member m has
    rcases mem_add.mp member with earlier | rfl
    · exact drafted.numbers l earlier m has
    · rw [number] at has
      exact Option.some.inj has ▸ below
  names := by
    intro l member none
    rcases mem_add.mp member with earlier | rfl
    · exact drafted.names l earlier none
    · simp [number] at none

/-- A chain whose number is the next one of the draft it is made from. -/
theorem add_fresh (drafted : Drafted d named loose) (e : Draft K) (chains : e.chains = d.chains)
    (next : d.next < e.next) {c : Chain K} (number : c.produces.number? = some d.next)
    (proper : c.produces.isSource = false) (takes : loose.Perm (c.taken ++ rest)) (fits : c.Fits) :
    Drafted (e.add [c]) named (c.produces :: rest) := by
  refine (drafted.raise chains (Nat.le_of_lt next)).add_numbered number next ?_ proper takes fits
  rw [chains]
  exact drafted.unused number (Nat.le_refl _)

theorem add_named (drafted : Drafted d named loose) {c : Chain K} (number : c.produces.number? = none)
    (fresh : c.produces ∉ named) (proper : c.produces.isSource = false)
    (takes : loose.Perm (c.taken ++ rest)) (fits : c.Fits) :
    Drafted (d.add [c]) (c.produces :: named) (c.produces :: rest) where
  wired := drafted.wired.snoc (fun member => fresh (drafted.names _ member number)) proper takes fits
  numbers := by
    intro l member m has
    rcases mem_add.mp member with earlier | rfl
    · exact drafted.numbers l earlier m has
    · simp [number] at has
  names := by
    intro l member none
    rcases mem_add.mp member with earlier | rfl
    · exact List.mem_cons_of_mem _ (drafted.names l earlier none)
    · exact List.mem_cons_self

end Drafted

/-- Filters none of which joins streams. -/
def Plain (filters : List (Filter K)) : Prop := ∀ f ∈ filters, f.joins? = none

theorem Plain.fits {c : Chain K} (plain : Plain c.filters) : c.Fits := by
  intro f member n joins
  simp [plain f member] at joins

theorem join_fits {labels : List Label} {f : Filter K} {out : Label}
    (joins : f.joins? = some labels.length) : Chain.Fits ⟨labels, [f], out⟩ := by
  intro g member n same
  rw [List.mem_singleton.mp member, joins] at same
  exact (Option.some.inj same).symm

/-- The filters of one span's chains: they neither join spans nor draw text. -/
def Filter.ofSpan : Filter K → Bool
  | .joinVideo _ | .joinAudio _ | .mix _ | .titling _ => false
  | _ => true

def OfSpan (filters : List (Filter K)) : Prop := ∀ f ∈ filters, f.ofSpan = true

theorem OfSpan.fits {c : Chain K} (own : OfSpan c.filters) : c.Fits := by
  refine Plain.fits fun f member => ?_
  have here := own f member
  cases f with
  | joinVideo | joinAudio | mix => cases here
  | _ => rfl

@[simp] theorem ofSpan_nil : OfSpan ([] : List (Filter K)) := by simp [OfSpan]

@[simp] theorem ofSpan_cons {f : Filter K} {fs : List (Filter K)} :
    OfSpan (f :: fs) ↔ f.ofSpan = true ∧ OfSpan fs := by simp [OfSpan]

@[simp] theorem ofSpan_append {fs gs : List (Filter K)} :
    OfSpan (fs ++ gs) ↔ OfSpan fs ∧ OfSpan gs := by simp [OfSpan, or_imp, forall_and]

@[simp] theorem ofSpan_ite {q : Prop} [Decidable q] {fs : List (Filter K)} (own : OfSpan fs) :
    OfSpan (if q then fs else []) := by
  split
  · exact own
  · exact ofSpan_nil

/-- A step that adds the chains of a span and leaves the span's label loose. -/
def Wiring (step : Draft K → Span K → Draft K × Label × Segment K) : Prop :=
  ∀ d span named loose, Drafted d named loose →
    Drafted (step d span).1 named ((step d span).2.1 :: loose)

/-- The labels of all spans are loose afterwards. -/
theorem addSpans_wired {step : Draft K → Span K → Draft K × Label × Segment K} (wiring : Wiring step)
    {d : Draft K} {named loose : List Label} (drafted : Drafted d named loose)
    (spans : List (Span K)) :
    Drafted (addSpans step d spans).1 named ((addSpans step d spans).2.1 ++ loose) := by
  induction spans generalizing d loose with
  | nil => exact drafted
  | cons span spans ih =>
    exact (ih (wiring d span named loose drafted)).perm List.perm_middle

/-- Joined video, titled or not, is the only loose label. -/
theorem joined_wired {d : Draft K} {labels : List Label} (drafted : Drafted d [] labels)
    {titles : List (Filter K)} (plain : Plain titles) (untitled : Bool) :
    ∃ named, .audioOut ∉ named ∧ Drafted (d.add (
      if untitled then [⟨labels, [.joinVideo labels.length], .videoOut⟩] else
        [⟨labels, [.joinVideo labels.length], .untitled⟩, ⟨[.untitled], titles, .videoOut⟩]))
      named [.videoOut] := by
  have takes : labels.Perm (labels.filter (fun l => !l.isSource) ++ []) := by
    rw [drafted.wired.takes_loose (List.Subset.refl _), List.append_nil]
  cases untitled with
  | true =>
    exact ⟨[.videoOut], by simp, drafted.add_named rfl (by simp) rfl takes (join_fits rfl)⟩
  | false =>
    refine ⟨[.videoOut, .untitled], by simp, ?_⟩
    have joined := drafted.add_named (c := ⟨labels, [.joinVideo labels.length], .untitled⟩) rfl
      (by simp) rfl takes (join_fits rfl)
    have drawn := joined.add_named (c := ⟨[.untitled], titles, .videoOut⟩) rfl (by simp) rfl
      (.refl _) plain.fits
    simpa [Draft.add] using drawn

theorem mixdown_wired {d : Draft K} {named tracks : List Label}
    (drafted : Drafted d named (tracks ++ [.videoOut])) (silent : .audioOut ∉ named) :
    Drafted (d.add (mixdown tracks)) (if tracks.isEmpty then named else .audioOut :: named)
      (if tracks.isEmpty then [.videoOut] else [.audioOut, .videoOut]) := by
  have takes : (tracks ++ [Label.videoOut]).Perm
      (tracks.filter (fun l => !l.isSource) ++ [Label.videoOut]) := by
    rw [drafted.wired.takes_loose (List.subset_append_left _ _)]
  rcases tracks with _ | ⟨l, _ | ⟨m, rest⟩⟩
  · simpa [mixdown, Draft.add] using drafted
  · exact drafted.add_named rfl silent rfl takes (OfSpan.fits (by simp [Filter.ofSpan]))
  · exact drafted.add_named rfl silent rfl takes (join_fits rfl)

theorem Wired.wellFormed {chains : List (Chain K)} {audible : Bool}
    (wired : Wired chains (if audible then [.audioOut, .videoOut] else [.videoOut]))
    (silent : audible = false → .audioOut ∉ produced chains) : WellFormed chains audible where
  proper := wired.proper
  once := by
    intro l member
    refine List.count_eq_one_of_mem wired.nodup ?_
    rcases List.mem_append.mp member with made | used
    · exact made
    · exact wired.balance.mem_iff.mpr (List.mem_append_left _ used)
  before := wired.before
  used := by
    intro l member notVideo notAudio
    have balance := wired.balance.count_eq l
    rw [List.count_eq_one_of_mem wired.nodup member, List.count_append] at balance
    have unneeded : (if audible then [Label.audioOut, .videoOut] else [.videoOut]).count l = 0 := by
      rw [List.count_eq_zero]
      cases audible <;> simp [notVideo, notAudio]
    omega
  video := by
    refine List.count_eq_one_of_mem wired.nodup (wired.loose_produced ?_)
    cases audible <;> simp
  audio := by
    cases audible with
    | false => exact List.count_eq_zero.mpr (silent rfl)
    | true => exact List.count_eq_one_of_mem wired.nodup (wired.loose_produced (by simp))
  fits := wired.fits

section Clips
variable [Scalar K]

theorem fades_ofSpan (timing : Timing K) (span : Span K) (t : Transition K) :
    OfSpan (fades timing span t) := by
  unfold fades
  dsimp only
  split
  · exact ofSpan_nil
  · rw [ofSpan_append]
    constructor
    · split <;> simp [Filter.ofSpan]
    · split <;> simp [Filter.ofSpan]

theorem material_ofSpan (s : Scheduled K) (span : Span K) (fps : K) : OfSpan (material s span fps) := by
  have effects : OfSpan (s.clip.effects.map effectFilter) := by
    intro f member
    obtain ⟨e, -, rfl⟩ := List.mem_map.mp member
    cases e <;> rfl
  have fading : OfSpan (s.transitions.flatMap (fades s.timing span)) := by
    intro f member
    obtain ⟨t, -, inside⟩ := List.mem_flatMap.mp member
    exact fades_ofSpan s.timing span t f inside
  simp [material, effects, fading, Filter.ofSpan]

theorem framing_ofSpan (crop : Crop K) (t : Transform K) (opacity : K) (width height : Nat) :
    OfSpan (framing crop t opacity width height) := by
  have cropping : OfSpan (if crop.isIdentity then [] else
      [.crop (1 - crop.left - crop.right) (1 - crop.top - crop.bottom) crop.left crop.top]) := by
    split <;> simp [Filter.ofSpan]
  simp [framing, cropping, Filter.ofSpan]

theorem audioClip_ofSpan (s : Scheduled K) (span : Span K) (input : Nat) (shape : AudioShape)
    (out : Label) : OfSpan (audioClipChain s span input shape out).filters := by
  have tempos : OfSpan ((tempoStages s.timing.speed).map Filter.tempo) := by
    intro f member
    obtain ⟨x, -, rfl⟩ := List.mem_map.mp member
    rfl
  have volume : ∀ gain : Option (Gain K), OfSpan (gain.map Filter.volume).toList := by
    intro gain
    cases gain <;> simp [Filter.ofSpan]
  simp [audioClipChain, tempos, volume, Filter.ofSpan]

/-- A framed clip is drawn over a backdrop of its own number, both consumed by what joins them. -/
theorem Drafted.add_videoClip {d : Draft K} {named loose : List Label}
    (drafted : Drafted d named loose) (s : Scheduled K) (span : Span K) (input : Nat)
    (settings : RenderSettings K) {n base : Nat} (below : n < d.next) (behind : base < d.next)
    (fresh : .videoSpan n ∉ produced d.chains) (bare : .backdrop base ∉ produced d.chains)
    (clear : .foreground base ∉ produced d.chains) :
    Drafted (d.add (videoClipChains s span input settings base (.videoSpan n))) named
      (.videoSpan n :: loose) := by
  have material := material_ofSpan s span settings.framerate
  unfold videoClipChains
  dsimp only
  split
  · rw [add_three]
    refine Drafted.add_numbered ?_ rfl below ?_ rfl (.refl _)
      (OfSpan.fits (by simp [heldFor, Filter.ofSpan]))
    · change Drafted _ named (.backdrop base :: .foreground base :: loose)
      refine Drafted.add_numbered ?_ rfl behind ?_ rfl (.refl _)
        (OfSpan.fits (by simp [Filter.ofSpan]))
      · exact drafted.add_numbered rfl behind clear rfl (.refl _)
          (OfSpan.fits (by simp [material, framing_ofSpan]))
      · simpa [Draft.add] using bare
    · simpa [Draft.add] using fresh
  · refine drafted.add_numbered rfl below fresh rfl (.refl _) (OfSpan.fits ?_)
    simp [material, heldFor, Filter.ofSpan]

theorem addVideoSpan_wiring (clips : List (Scheduled K)) (settings : RenderSettings K) :
    Wiring (addVideoSpan clips settings) := by
  intro d span named loose drafted
  unfold addVideoSpan
  cases span.winner.bind fun i => clips[i]? with
  | none =>
    exact drafted.add_fresh d.fresh.2 rfl (Nat.lt_succ_self _) rfl rfl (.refl _)
      (OfSpan.fits (by simp [Filter.ofSpan]))
  | some s =>
    let e := (d.fresh.2.inputFor s.media.path).2
    have chains : e.chains = d.chains := inputFor_chains _ _
    have next : e.next = d.next + 1 := inputFor_next _ _
    have numbered : Drafted e.fresh.2 named loose :=
      drafted.raise chains (by change d.next ≤ e.next + 1; omega)
    have new : ∀ l n, Label.number? l = some n → d.next ≤ n → l ∉ produced e.chains := by
      intro l n number above
      rw [chains]
      exact drafted.unused number above
    refine numbered.add_videoClip s span _ settings ?_ (Nat.lt_succ_self _)
      (new _ d.next rfl (Nat.le_refl _)) (new _ e.next rfl (by omega)) (new _ e.next rfl (by omega))
    change d.next < e.next + 1
    omega

theorem addAudioSpan_wiring (clips : List (Scheduled K)) (shape : AudioShape) :
    Wiring (addAudioSpan clips shape) := by
  intro d span named loose drafted
  unfold addAudioSpan
  cases span.winner.bind fun i => clips[i]? with
  | none =>
    exact drafted.add_fresh d.fresh.2 rfl (Nat.lt_succ_self _) rfl rfl (.refl _)
      (OfSpan.fits (by simp [Filter.ofSpan]))
  | some s =>
    refine drafted.add_fresh (d.fresh.2.inputFor s.media.path).2 (inputFor_chains _ _) ?_ rfl rfl
      (.refl _) (OfSpan.fits (audioClip_ofSpan s span _ shape _))
    rw [inputFor_next]
    exact Nat.lt_succ_self _

theorem addAudioTrack_wired (shape : AudioShape) (duration : K) (clips : List (Scheduled K))
    {d : Draft K} {named loose : List Label} (drafted : Drafted d named loose) :
    Drafted (addAudioTrack shape duration d clips).1 named
      ((addAudioTrack shape duration d clips).2.1 :: loose) := by
  have spans := addSpans_wired (addAudioSpan_wiring clips shape) drafted
    (flatten (clips.map fun s => (⟨0, s.timing.start, s.timing.stop⟩ : Candidate K)) duration audioStep)
  unfold addAudioTrack
  dsimp only
  generalize addSpans (addAudioSpan clips shape) d _ = made at spans ⊢
  refine spans.add_fresh made.1.fresh.2 rfl (Nat.lt_succ_self _) rfl rfl ?_ (join_fits rfl)
  rw [Chain.taken, spans.wired.takes_loose (List.subset_append_left _ _)]

theorem addAudioTracks_wired (shape : AudioShape) (duration : K) (tracks : List (List (Scheduled K)))
    {d : Draft K} {named loose : List Label} (drafted : Drafted d named loose) :
    Drafted (addAudioTracks shape duration d tracks).1 named
      ((addAudioTracks shape duration d tracks).2.1 ++ loose) := by
  induction tracks generalizing d loose with
  | nil => exact drafted
  | cons clips rest ih =>
    exact (ih (addAudioTrack_wired shape duration clips drafted)).perm List.perm_middle

theorem addAudioTracks_length (shape : AudioShape) (duration : K) (d : Draft K)
    (tracks : List (List (Scheduled K))) :
    (addAudioTracks shape duration d tracks).2.1.length =
      (addAudioTracks shape duration d tracks).2.2.length := by
  induction tracks generalizing d with
  | nil => rfl
  | cons clips rest ih => exact congrArg (· + 1) (ih _)

/-- What follows the video: the audio of each track and their sum. -/
theorem sound_wellFormed {d : Draft K} {named : List Label} (drafted : Drafted d named [.videoOut])
    (silent : .audioOut ∉ named) (shape : AudioShape) (duration : K)
    (tracks : List (List (Scheduled K))) :
    WellFormed
      ((addAudioTracks shape duration d tracks).1.add
        (mixdown (addAudioTracks shape duration d tracks).2.1)).chains
      !(addAudioTracks shape duration d tracks).2.2.isEmpty := by
  have mixed := mixdown_wired (addAudioTracks_wired shape duration tracks drafted) silent
  have lengths := addAudioTracks_length shape duration d tracks
  generalize addAudioTracks shape duration d tracks = made at mixed lengths ⊢
  have alike : made.2.1.isEmpty = made.2.2.isEmpty := by
    rw [Bool.eq_iff_iff, List.isEmpty_iff_length_eq_zero, List.isEmpty_iff_length_eq_zero, lengths]
  rw [alike] at mixed
  cases empty : made.2.2.isEmpty with
  | false =>
    rw [empty] at mixed
    exact mixed.wired.wellFormed (by simp)
  | true =>
    rw [empty] at mixed
    exact mixed.wired.wellFormed fun _ member => silent (mixed.names _ member rfl)

theorem titlings_plain (options : Options) (clips : List (Scheduled K)) :
    Plain ((titlings options clips).map fun t => Filter.titling t.1) := by
  intro f member
  obtain ⟨t, -, rfl⟩ := List.mem_map.mp member
  rfl

theorem compile_wellFormed {p : Project K} {settings : RenderSettings K} {options : Options}
    {g : Compiled K} (compiled : compile p settings options = some g) :
    WellFormed g.chains g.hasAudio ∧ Function.Injective Label.text := by
  refine ⟨?_, text_injective⟩
  unfold compile at compiled
  dsimp only at compiled
  split at compiled
  · cases compiled
  · obtain rfl := Option.some.inj compiled
    have video := addSpans_wired (addVideoSpan_wiring (byStart p.playedVideo) settings)
      Drafted.empty (flatten (videoCandidates (byStart p.playedVideo)) p.duration
        (1 / settings.framerate))
    rw [List.append_nil] at video
    obtain ⟨named, silent, joined⟩ := joined_wired video
      (titlings_plain options (byStart p.playedVideo))
      (titlings options (byStart p.playedVideo)).isEmpty
    exact sound_wellFormed joined silent _ _ _

end Clips

/-- A titled clip at half its width, black for a second, a plain clip, and two audible tracks. -/
def scored : Project Rat :=
  { id := "p"
    name := "p"
    mediaFiles := [MediaFile.ofVideo "m" "/v/a.mp4" 1 64 64 10, MediaFile.ofAudio "n" "/v/b.wav" 1]
    tracks :=
      [⟨"v", .video,
          [{ (Clip.new "half" "m" 0 : Clip Rat) with
              transform := some { (Transform.identity : Transform Rat) with scaleX := 1 / 2 }
              textOverlay := some ⟨"title", 0, 0, 12, "#fff", 0, none⟩ },
            Clip.new "plain" "m" 2], false⟩,
        ⟨"a", .audio, [Clip.new "first" "n" 0], false⟩,
        ⟨"b", .audio, [Clip.new "second" "n" 2], false⟩]
    transitions := []
    framerate := 10 }

theorem compile_wellFormed_scored :
    ∃ g, compile scored RenderSettings.standard ⟨"/tmp", none, 20, 48000, 2, 128⟩ = some g ∧
      WellFormed g.chains true := by
  have audible : (compile scored RenderSettings.standard ⟨"/tmp", none, 20, 48000, 2, 128⟩).map
      Compiled.hasAudio = some true := by
    decide +kernel
  obtain ⟨g, compiled, sound⟩ := Option.map_eq_some_iff.mp audible
  exact ⟨g, compiled, sound ▸ (compile_wellFormed compiled).1⟩

end Montage.Graph
