import Montage.Proofs.Json.Codecs

/- Records read back from the objects that are written for them: every key once, what is left out
   stands for its value, and fields that nobody knows are passed over. -/
namespace Montage.Json

theorem nextKey_first {pad : List Char} (blank : Blank pad) (s : List Char) :
    nextKey true (pad ++ '"' :: s) = .ok (true, s) := by
  have mark : isBlank '"' = false := rfl
  rw [nextKey, skipBlanks_text blank mark]
  rfl

theorem nextKey_more {pad : List Char} (blank : Blank pad) (s : List Char) :
    nextKey false (',' :: (pad ++ '"' :: s)) = .ok (true, s) := by
  have comma : isBlank ',' = false := rfl
  have mark : isBlank '"' = false := rfl
  rw [nextKey, skipBlanks_cons comma]
  change keyAfterComma (pad ++ '"' :: s) = _
  rw [keyAfterComma, skipBlanks_text blank mark]
  rfl

theorem nextKey_end {pad : List Char} (blank : Blank pad) (first : Bool) (s : List Char) :
    nextKey first (pad ++ '\x7d' :: s) = .ok (false, s) := by
  have brace : isBlank '\x7d' = false := rfl
  rw [nextKey, skipBlanks_text blank brace]
  rfl

theorem apart_fields {sp : Spacing} (lawful : sp.Lawful) (level : Nat) (es : List (String × Value))
    (s : List Char) : Apart (Value.writeFields sp level es ++ s) := by
  cases es with
  | nil =>
    rw [Value.writeFields, List.append_assoc]
    exact apart_append (lawful.breaks level) (apart_cons rfl (by decide) rfl)
  | cons e es => exact apart_cons rfl (by decide) rfl

theorem fields_length (sp : Spacing) (level : Nat) (es : List (String × Value)) :
    es.length < (Value.writeFields sp level es).length := by
  induction es with
  | nil => simp [Value.writeFields]
  | cons e es ih =>
    simp only [Value.writeFields, List.length_cons, List.length_append]
    omega

theorem colon_gap {sp : Spacing} (lawful : sp.Lawful) (s : List Char) :
    ∃ gap, Blank gap ∧ colon (sp.colon ++ s) = .ok ((), gap ++ s) := by
  obtain ⟨gap, blank, text⟩ := lawful.colon
  have mark : isBlank ':' = false := rfl
  refine ⟨gap, blank, ?_⟩
  rw [text, List.cons_append, colon, skipBlanks_cons mark]
  rfl

/-- What stands behind the opening quote of an entry's key, up to the text behind the entry. -/
def entryText (sp : Spacing) (level : Nat) (e : String × Value) (t : List Char) : List Char :=
  unquoted e.1 ++ (sp.colon ++ (e.2.write sp (level + 1) ++ t))

theorem object_next {sp : Spacing} (lawful : sp.Lawful) (level : Nat) (e : String × Value)
    (es : List (String × Value)) (s : List Char) :
    ∃ r, (Value.object (e :: es)).write sp level = '\x7b' :: r ∧ es.length < r.length ∧
      nextKey true (r ++ s) = .ok (true, entryText sp level e (Value.writeFields sp level es ++ s)) := by
  refine ⟨sp.breakAt (level + 1) ++ quote e.1 ++ sp.colon ++ e.2.write sp (level + 1) ++
    Value.writeFields sp level es, rfl, ?_, ?_⟩
  · have count := fields_length sp level es
    simp only [List.length_append]
    omega
  · simp only [quote_cons, List.append_assoc, List.cons_append]
    exact nextKey_first (lawful.breaks (level + 1)) _

theorem fields_next {sp : Spacing} (lawful : sp.Lawful) (level : Nat) (e : String × Value)
    (es : List (String × Value)) (s : List Char) :
    nextKey false (Value.writeFields sp level (e :: es) ++ s) =
      .ok (true, entryText sp level e (Value.writeFields sp level es ++ s)) := by
  rw [Value.writeFields, quote_cons]
  simp only [List.cons_append, List.append_assoc]
  exact nextKey_more (lawful.breaks (level + 1)) _

theorem fields_end {sp : Spacing} (lawful : sp.Lawful) (level : Nat) (first : Bool) (s : List Char) :
    nextKey first (Value.writeFields sp level [] ++ s) = .ok (false, s) := by
  rw [Value.writeFields, List.append_assoc]
  exact nextKey_end (lawful.breaks level) first s

/-- A value that is passed over whole. -/
def Value.Passed (v : Value) : Prop :=
  ∀ (sp : Spacing) (level : Nat) (pad s : List Char), Blank pad → Apart s →
    skipValue (pad ++ (v.write sp level ++ s)) = .ok ((), s)

theorem skipStart_number {a : Char} (starts : Codec.startsNumber a = true) (s : List Char) :
    skipStart (a :: s) = (do
      let (_, r) ← skipNumber (a :: s)
      return (none, r)) := by
  obtain ⟨ink, -, n, t, f, quote, list, object⟩ := startsNumber_head starts
  have number : a = '-' ∨ a.isDigit = true := by
    simpa [Codec.startsNumber] using starts
  rw [skipStart, skipBlanks_cons ink]
  split
  case h_8 same =>
    obtain ⟨rfl, rfl⟩ := List.cons.inj same
    rw [if_pos number]
  -- the other ways begin with characters of their own
  all_goals simp_all

/-- A number is passed over, and so is the null that is written for one without a finite value. -/
theorem number_passed (x : Float) : (Value.number x).Passed := by
  intro sp level pad s blank apart
  have start : skipStart ((Value.number x).write sp level ++ s) = .ok (none, s) := by
    rw [Value.write]
    cases finite : x.isFinite with
    | true =>
      obtain ⟨negative, m, valid, text⟩ := writeNumber_signed finite
      obtain ⟨a, as, split, starts⟩ := signed_head valid negative
      have number := Spelling.skipNumber_signed valid negative apart
      rw [text]
      rw [split, List.cons_append] at number ⊢
      rw [skipStart_number starts, number]
      rfl
    | false =>
      rw [writeNumber, finite]
      rfl
  have padded : skipStart (pad ++ ((Value.number x).write sp level ++ s)) =
      skipStart ((Value.number x).write sp level ++ s) := by
    rw [skipStart, skipStart, skipBlanks_append blank]
  rw [skipValue, skipFuel, padded, start]
  rfl

namespace Fields

def names : {ρ : Type} → Fields ρ → List String
  | _, .done => []
  | _, .field name _ _ _ _ rest => name :: rest.names

/-- Every field reads back what is written for it; what is left out is what absence means. -/
def ReadBack (height : Nat) : {ρ : Type} → Fields ρ → ρ → Prop
  | _, .done, _ => True
  | _, .field _ codec absent _ hides rest, (x, xs) =>
    (if hides x then absent = some x else codec.ReadsBack height x) ∧ rest.ReadBack height xs

theorem ReadBack.done {height : Nat} : ReadBack height Fields.done () := trivial

section Kinds
variable {α β : Type} {name : String} {codec : Codec α} {height : Nat} {rest : Fields β} {xs : β}

theorem ReadBack.required {x : α} (back : codec.ReadsBack height x) (others : rest.ReadBack height xs) :
    (Fields.required name codec rest).ReadBack height (x, xs) :=
  ⟨back, others⟩

theorem ReadBack.defaulted {absent x : α} (back : codec.ReadsBack height x)
    (others : rest.ReadBack height xs) :
    (Fields.defaulted name codec absent rest).ReadBack height (x, xs) :=
  ⟨back, others⟩

theorem ReadBack.optional {x : Option α}
    (back : ∀ y, x = some y → codec.ReadsBack height y ∧ (codec.toValue y).Solid)
    (others : rest.ReadBack height xs) :
    (Fields.optional name codec rest).ReadBack height (x, xs) := by
  refine ⟨?_, others⟩
  cases x with
  | none => rfl
  | some y => exact Codec.option_readsBack back

theorem ReadBack.listing {ys : List α} (back : codec.list.ReadsBack height ys)
    (others : rest.ReadBack height xs) :
    (Fields.listing name codec rest).ReadBack height (ys, xs) := by
  refine ⟨?_, others⟩
  cases ys with
  | nil => rfl
  | cons y ys => exact back

end Kinds

/-- The slots of a record whose given keys have been read. -/
def filled (keys : List String) : {ρ : Type} → (fs : Fields ρ) → ρ → fs.Slots
  | _, .done, _ => ()
  | _, .field name _ _ _ _ rest, (x, xs) =>
    (if name ∈ keys then some x else none, rest.filled keys xs)

theorem filled_nil {ρ : Type} (fs : Fields ρ) (x : ρ) : fs.filled [] x = fs.noSlots := by
  induction fs with
  | done => rfl
  | field name codec absent short hides rest ih =>
    obtain ⟨x, xs⟩ := x
    rw [filled, noSlots, ih, if_neg List.not_mem_nil]

/-- A key of no field fills nothing. -/
theorem filled_other {ρ : Type} (fs : Fields ρ) (x : ρ) {key : String} (unknown : key ∉ fs.names)
    (keys : List String) : fs.filled (key :: keys) x = fs.filled keys x := by
  induction fs with
  | done => rfl
  | field name codec absent short hides rest ih =>
    obtain ⟨x, xs⟩ := x
    obtain ⟨other, later⟩ := List.ne_and_not_mem_of_not_mem_cons unknown
    rw [filled, filled, ih xs later]
    simp only [List.mem_cons, Ne.symm other, false_or]

theorem slotReader_unknown {ρ : Type} (fs : Fields ρ) (slots : fs.Slots) {key : String}
    (unknown : key ∉ fs.names) : fs.slotReader slots key = none := by
  induction fs with
  | done => rfl
  | field name codec absent short hides rest ih =>
    obtain ⟨other, later⟩ := List.ne_and_not_mem_of_not_mem_cons unknown
    rw [slotReader, if_neg other, ih slots.2 later]
    rfl

theorem toEntries_names {ρ : Type} (fs : Fields ρ) (x : ρ) {e : String × Value}
    (member : e ∈ fs.toEntries x) : e.1 ∈ fs.names := by
  induction fs with
  | done => exact nomatch member
  | field name codec absent short hides rest ih =>
    obtain ⟨x, xs⟩ := x
    rw [toEntries] at member
    split at member
    · exact List.mem_cons_of_mem name (ih xs member)
    · rcases List.mem_cons.mp member with rfl | later
      · exact List.mem_cons_self
      · exact List.mem_cons_of_mem name (ih xs later)

/-- A written field is read into its slot. -/
theorem slotReader_filled {ρ : Type} (fs : Fields ρ) (x : ρ) {height : Nat} (distinct : fs.names.Nodup)
    (back : fs.ReadBack height x) {e : String × Value} (member : e ∈ fs.toEntries x)
    {keys : List String} (fresh : e.1 ∉ keys) :
    ∃ reader : Reader fs.Slots, fs.slotReader (fs.filled keys x) e.1 = some (.ok reader) ∧
      ∀ (sp : Spacing) (level depth : Nat) (pad s : List Char), sp.Lawful → height < depth →
        Blank pad → Apart s →
          reader depth (pad ++ (e.2.write sp level ++ s)) = .ok (fs.filled (e.1 :: keys) x, s) := by
  induction fs with
  | done => exact nomatch member
  | field name codec absent short hides rest ih =>
    obtain ⟨x, xs⟩ := x
    obtain ⟨unrepeated, distinct⟩ := List.nodup_cons.mp distinct
    obtain ⟨here, back⟩ := back
    rw [toEntries] at member
    by_cases same : e.1 = name
    · have notLater : e ∉ rest.toEntries xs := fun later =>
        unrepeated (same ▸ toEntries_names rest xs later)
      cases hidden : hides x with
      | true =>
        rw [hidden, if_pos rfl] at member
        exact absurd member notLater
      | false =>
        rw [hidden, if_neg Bool.false_ne_true] at member here
        obtain rfl := (List.mem_cons.mp member).resolve_right notLater
        refine ⟨_, by simp only [slotReader, filled, if_neg fresh]; rfl, ?_⟩
        intro sp level depth pad s lawful deep blank apart
        simp only [here sp level depth pad s lawful deep blank apart, ok_bind, pure_ok, filled,
          List.mem_cons_self, if_true, filled_other rest xs unrepeated]
    · have later : e ∈ rest.toEntries xs := by
        split at member
        · exact member
        · exact (List.mem_cons.mp member).resolve_left fun first => same (by rw [first])
      obtain ⟨reader, found, reads⟩ := ih xs distinct back later
      refine ⟨_, by simp only [slotReader, filled, if_neg same, found, Option.map_some, ok_bind]; rfl, ?_⟩
      intro sp level depth pad s lawful deep blank apart
      simp only [reads sp level depth pad s lawful deep blank apart, ok_bind, pure_ok, filled,
        List.mem_cons, Ne.symm same, false_or]

/-- With every written key read, the record is there: a field that was left out has the value that
stands for its absence. -/
theorem collect_filled {ρ : Type} (fs : Fields ρ) (x : ρ) {height : Nat} (back : fs.ReadBack height x)
    (keys : List String) (all : ∀ e ∈ fs.toEntries x, e.1 ∈ keys) :
    fs.collect (fs.filled keys x) = .ok x := by
  induction fs with
  | done => rfl
  | field name codec absent short hides rest ih =>
    obtain ⟨x, xs⟩ := x
    obtain ⟨here, back⟩ := back
    rw [toEntries] at all
    have slot : ((if name ∈ keys then some x else none) <|> absent) = some x := by
      cases hidden : hides x with
      | true =>
        rw [hidden, if_pos rfl] at here
        rw [here]
        split <;> rfl
      | false =>
        rw [hidden, if_neg Bool.false_ne_true] at all
        rw [if_pos (all _ List.mem_cons_self)]
        rfl
    have later : ∀ e ∈ rest.toEntries xs, e.1 ∈ keys := by
      intro e member
      split at all
      · exact all e member
      · exact all e (List.mem_cons_of_mem _ member)
    simp only [collect, filled, slot, ih xs back later, ok_bind, pure_ok]

/-- An entry of an object that a record is read from: a field that was written for it, or one that
nobody knows. -/
def Accepts {ρ : Type} (fs : Fields ρ) (x : ρ) (e : String × Value) : Prop :=
  e ∈ fs.toEntries x ∨ e.1 ∉ fs.names ∧ e.2.Passed

section Reading
variable {ρ : Type} {fs : Fields ρ} {x : ρ} {height : Nat} {sp : Spacing} (lawful : sp.Lawful)
  (level : Nat) {depth : Nat} (deep : height < depth) (distinct : fs.names.Nodup)
  (back : fs.ReadBack height x)
include lawful deep distinct back

/-- One more entry, however its key is come by. -/
theorem entry_step {e : String × Value} (accepts : fs.Accepts x e) {keys : List String}
    (fresh : e.1 ∉ keys) {first : Bool} {cs t : List Char} (apart : Apart t)
    (next : nextKey first cs = .ok (true, entryText sp level e t)) (fuel : Nat) :
    fs.readKeyedFuel depth (fuel + 1) first (fs.filled keys x) cs =
      fs.readKeyedFuel depth fuel false (fs.filled (e.1 :: keys) x) t := by
  obtain ⟨gap, blank, after⟩ := colon_gap lawful (e.2.write sp (level + 1) ++ t)
  rw [entryText] at next
  rcases accepts with member | ⟨unknown, passed⟩
  · obtain ⟨reader, found, reads⟩ := slotReader_filled fs x distinct back member fresh
    have value := reads sp (level + 1) depth gap t lawful deep blank apart
    simp only [readKeyedFuel, next, ok_bind, readString_unquoted, found, after, value]
  · have value := passed sp (level + 1) gap t blank apart
    simp only [readKeyedFuel, next, ok_bind, readString_unquoted, slotReader_unknown fs _ unknown,
      after, value, filled_other fs x unknown]

/-- The entries behind the first, up to the closing brace. -/
theorem entries_read (es : List (String × Value)) (accepts : ∀ e ∈ es, fs.Accepts x e)
    (once : (es.map (·.1)).Nodup) (keys : List String) (fresh : ∀ e ∈ es, e.1 ∉ keys) (s : List Char)
    (fuel : Nat) (enough : es.length < fuel) :
    fs.readKeyedFuel depth fuel false (fs.filled keys x) (Value.writeFields sp level es ++ s) =
      .ok (fs.filled ((es.map (·.1)).reverse ++ keys) x, s) := by
  induction es generalizing keys fuel with
  | nil =>
    obtain ⟨fuel, rfl⟩ := Nat.exists_eq_succ_of_ne_zero (by omega : fuel ≠ 0)
    rw [readKeyedFuel, fields_end lawful]
    rfl
  | cons e es ih =>
    obtain ⟨fuel, rfl⟩ := Nat.exists_eq_succ_of_ne_zero (by omega : fuel ≠ 0)
    obtain ⟨unrepeated, once⟩ := List.nodup_cons.mp once
    rw [entry_step lawful level deep distinct back (accepts e List.mem_cons_self)
      (fresh e List.mem_cons_self) (apart_fields lawful level es s) (fields_next lawful level e es s)]
    rw [ih (fun f member => accepts f (List.mem_cons_of_mem e member)) once (e.1 :: keys) ?_ fuel
      (by simpa using enough)]
    · rw [List.map_cons, List.reverse_cons, List.append_assoc, List.singleton_append]
    · intro f member repeated
      rcases List.mem_cons.mp repeated with same | old
      · exact unrepeated (List.mem_map.mpr ⟨f, member, same⟩)
      · exact fresh f (List.mem_cons_of_mem e member) old

/-- An object with every written field, each key once, is read as the record. -/
theorem object_read (es : List (String × Value)) (accepts : ∀ e ∈ es, fs.Accepts x e)
    (once : (es.map (·.1)).Nodup) (all : ∀ e ∈ fs.toEntries x, e ∈ es) (s : List Char) :
    ∃ r, (Value.object es).write sp level = '\x7b' :: r ∧ fs.readKeyed depth (r ++ s) = .ok (x, s) := by
  cases es with
  | nil =>
    have complete := collect_filled fs x back [] fun e member => nomatch all e member
    refine ⟨['\x7d'], rfl, ?_⟩
    rw [readKeyed, readKeyedFuel, ← filled_nil fs x, ← List.nil_append (['\x7d'] ++ s),
      List.singleton_append, nextKey_end blank_nil]
    simp only [ok_bind, pure_ok, complete]
  | cons e es =>
    obtain ⟨unrepeated, once⟩ := List.nodup_cons.mp once
    obtain ⟨r, text, count, next⟩ := object_next lawful level e es s
    refine ⟨r, text, ?_⟩
    have enough : es.length < (r ++ s).length := by
      rw [List.length_append]
      omega
    have complete := collect_filled fs x back ((es.map (·.1)).reverse ++ [e.1])
      fun f member => by simpa [eq_comm, or_comm] using List.mem_map_of_mem (f := (·.1)) (all f member)
    rw [readKeyed, ← filled_nil fs x, entry_step lawful level deep distinct back
      (accepts e List.mem_cons_self) List.not_mem_nil (apart_fields lawful level es s) next,
      entries_read lawful level deep distinct back es
        (fun f member => accepts f (List.mem_cons_of_mem e member)) once [e.1] ?_ s _ enough]
    · simp only [ok_bind, complete, pure_ok]
    · intro f member repeated
      exact unrepeated (List.mem_map.mpr ⟨f, member, List.mem_singleton.mp repeated⟩)

end Reading

theorem toEntries_once {ρ : Type} (fs : Fields ρ) (x : ρ) (distinct : fs.names.Nodup) :
    ((fs.toEntries x).map (·.1)).Nodup := by
  induction fs with
  | done => exact List.nodup_nil
  | field name codec absent short hides rest ih =>
    obtain ⟨x, xs⟩ := x
    obtain ⟨unrepeated, distinct⟩ := List.nodup_cons.mp distinct
    rw [toEntries]
    split
    · exact ih xs distinct
    · rw [List.map_cons, List.nodup_cons]
      refine ⟨fun repeated => ?_, ih xs distinct⟩
      obtain ⟨e, member, same⟩ := List.mem_map.mp repeated
      have known := toEntries_names rest xs member
      rw [same] at known
      exact unrepeated known

end Fields

/-- A record is read from what is written for it, with entries behind that nobody knows. -/
theorem Codec.record_reads {ρ : Type} {name : String} {fs : Fields ρ} {x : ρ} {height : Nat}
    (distinct : fs.names.Nodup) (back : fs.ReadBack height x) {others : List (String × Value)}
    (unknown : ∀ e ∈ others, e.1 ∉ fs.names ∧ e.2.Passed) (once : (others.map (·.1)).Nodup) :
    (record name fs).Reads (height + 1) (.object (fs.toEntries x ++ others)) x := by
  have accepts : ∀ e ∈ fs.toEntries x ++ others, fs.Accepts x e := fun e member =>
    (List.mem_append.mp member).imp id (unknown e)
  have distinctKeys : ((fs.toEntries x ++ others).map (·.1)).Nodup := by
    rw [List.map_append, List.nodup_append]
    refine ⟨fs.toEntries_once x distinct, once, ?_⟩
    rintro key known _ other rfl
    obtain ⟨e, member, rfl⟩ := List.mem_map.mp known
    obtain ⟨f, foreign, same⟩ := List.mem_map.mp other
    exact (unknown f foreign).1 (same ▸ fs.toEntries_names x member)
  intro sp level depth pad s lawful deep blank _
  obtain ⟨r, text, read⟩ := Fields.object_read lawful level
    (show height < depth - 1 by omega) distinct back _ accepts distinctKeys
    (fun e member => List.mem_append_left others member) s
  have brace : isBlank '\x7b' = false := rfl
  rw [text, List.cons_append]
  simp only [record, skipBlanks_text blank brace, if_neg (show ¬ depth ≤ 1 by omega), read]

theorem Codec.record_readsBack {ρ : Type} {name : String} {fs : Fields ρ} {x : ρ} {height : Nat}
    (distinct : fs.names.Nodup) (back : fs.ReadBack height x) :
    (record name fs).ReadsBack (height + 1) x := by
  have reads : (record name fs).Reads (height + 1) (.object (fs.toEntries x ++ [])) x :=
    record_reads distinct back (fun _ member => nomatch member) List.nodup_nil
  rw [List.append_nil] at reads
  exact reads

end Montage.Json
