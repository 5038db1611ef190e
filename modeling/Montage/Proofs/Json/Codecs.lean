import Montage.Proofs.Json.Written

/- Codecs that read back what they write: plain values, absent ones, lists, and names out of a
   table. -/
namespace Montage.Json

/-- The text of a document, in any layout, after blanks and before any text that a number does not
run into, is read as a value as soon as more brackets may be open than a height. -/
def Codec.Reads {α : Type} (c : Codec α) (height : Nat) (v : Value) (x : α) : Prop :=
  ∀ (sp : Spacing) (level depth : Nat) (pad s : List Char), sp.Lawful → height < depth → Blank pad →
    Apart s → c.read depth (pad ++ (v.write sp level ++ s)) = .ok (x, s)

/-- What is written for a value is read as that value. -/
def Codec.ReadsBack {α : Type} (c : Codec α) (height : Nat) (x : α) : Prop :=
  c.Reads height (c.toValue x) x

namespace Codec
variable {α β : Type} {c : Codec α} {height : Nat} {x : α}

theorem Reads.mono {v : Value} (reads : c.Reads height v x) {more : Nat} (le : height ≤ more) :
    c.Reads more v x :=
  fun sp level depth pad s lawful deep => reads sp level depth pad s lawful (by omega)

/-- A document alone in a text. -/
theorem Reads.parse {v : Value} (reads : c.Reads height v x) (deep : height < depthLimit) {sp : Spacing}
    (lawful : sp.Lawful) : c.parse (String.ofList (v.write sp 0)) = .ok x := by
  have read := reads sp 0 depthLimit [] [] lawful deep blank_nil apart_nil
  rw [List.nil_append, List.append_nil] at read
  rw [Codec.parse, readWhole, String.toList_ofList, read]
  rfl

/-- The same document under another type. -/
theorem Reads.imap {v : Value} (reads : c.Reads height v x) (f : α → β) (g : β → α) :
    (c.imap f g).Reads height v (f x) := by
  intro sp level depth pad s lawful deep blank apart
  have read := reads sp level depth pad s lawful deep blank apart
  simp only [Codec.imap, refine, read, ok_bind, pure_ok]

theorem imap_readsBack {f : α → β} {g : β → α} {y : β} (inverse : f (g y) = y)
    (back : c.ReadsBack height (g y)) : (c.imap f g).ReadsBack height y := by
  have reads := Reads.imap back f g
  rw [inverse] at reads
  exact reads

/-! Plain values. -/

theorem plain_read {starts : Char → Bool} {expected : String} {ofValue : Value → Except Fault α}
    {toValue : α → Value} {a : Char} (start : starts a = true) (ink : isBlank a = false)
    {pad : List Char} (blank : Blank pad) (depth : Nat) (s : List Char) :
    (plain starts expected ofValue toValue).read depth (pad ++ a :: s) = (do
      let (v, r) ← readValue 1 (a :: s)
      let x ← ofValue v
      return (x, r)) := by
  simp only [plain, skipBlanks_text blank ink, if_pos start]

theorem readValue_number {a : Char} (starts : startsNumber a = true) (depth : Nat) (s : List Char) :
    readValue (depth + 1) (a :: s) = readNumber (a :: s) := by
  obtain ⟨ink, -, n, t, f, quote, list, object⟩ := startsNumber_head starts
  have number : a = '-' ∨ a.isDigit = true := by
    simpa [startsNumber] using starts
  rw [readValue, skipBlanks_cons ink]
  split
  case h_8 same =>
    obtain ⟨rfl, rfl⟩ := List.cons.inj same
    rw [if_pos number]
  -- the other ways begin with characters of their own
  all_goals simp_all

theorem readValue_pad {pad : List Char} (blank : Blank pad) (depth : Nat) (s : List Char) :
    readValue depth (pad ++ s) = readValue depth s := by
  cases depth with
  | zero => rfl
  | succ depth => rw [readValue, readValue, skipBlanks_append blank]

theorem readValue_text (t : String) (depth : Nat) (s : List Char) :
    readValue (depth + 1) (quote t ++ s) = .ok (.text t, s) := by
  rw [quote_cons, List.cons_append, readValue, skipBlanks_cons rfl]
  simp only [readString_unquoted, ok_bind, pure_ok]

section Numbers
variable {m : Spelling} (valid : m.Valid) (negative : Bool) {s : List Char} (apart : Apart s)
include valid apart

/-- A number in front of anything is read as it is alone. -/
theorem number_read {expected : String} {ofValue : Value → Except Fault α} {toValue : α → Value}
    {pad : List Char} (blank : Blank pad) (depth : Nat) :
    (plain startsNumber expected ofValue toValue).read depth
      (pad ++ (NumberStyle.signed negative m.text ++ s)) =
        ((m.number negative).toValue >>= ofValue).map (·, s) := by
  obtain ⟨a, as, split, starts⟩ := signed_head valid negative
  have number := Spelling.readNumberText_signed valid negative apart
  rw [split, List.cons_append] at number ⊢
  rw [plain_read starts (startsNumber_head starts).1 blank, readValue_number starts]
  simp only [readNumber, number, ok_bind]
  cases (m.number negative).toValue with
  | error e => rfl
  | ok v =>
    simp only [ok_bind, pure_ok]
    cases ofValue v <;> rfl

end Numbers

theorem number_parse {m : Spelling} (valid : m.Valid) (negative : Bool) {expected : String}
    {ofValue : Value → Except Fault α} {toValue : α → Value} :
    (plain startsNumber expected ofValue toValue).parse
      (String.ofList (NumberStyle.signed negative m.text)) =
        (m.number negative).toValue >>= ofValue := by
  have read : (plain startsNumber expected ofValue toValue).read depthLimit
      ([] ++ (NumberStyle.signed negative m.text ++ [])) =
        ((m.number negative).toValue >>= ofValue).map (·, []) :=
    number_read valid negative apart_nil blank_nil depthLimit
  rw [List.nil_append, List.append_nil] at read
  rw [Codec.parse, readWhole, String.toList_ofList, read]
  cases ((m.number negative).toValue >>= ofValue) <;> rfl

/-- A number that is read back alone is read back in front of anything. -/
theorem number_kept {m : Spelling} (valid : m.Valid) {negative : Bool} {expected : String}
    {ofValue : Value → Except Fault α} {toValue : α → Value}
    (back : (plain startsNumber expected ofValue toValue).parse
      (String.ofList (NumberStyle.signed negative m.text)) = .ok x)
    {pad s : List Char} (blank : Blank pad) (apart : Apart s) (depth : Nat) :
    (plain startsNumber expected ofValue toValue).read depth
      (pad ++ (NumberStyle.signed negative m.text ++ s)) = .ok (x, s) := by
  rw [number_read valid negative apart blank, ← number_parse valid negative, back]
  rfl

theorem double_readsBack {x : Float} (finite : x.isFinite = true)
    (back : double.parse (Value.number x).compact = .ok x) : double.ReadsBack height x := by
  intro sp level depth pad s _ _ blank apart
  obtain ⟨negative, m, valid, text⟩ := writeNumber_signed finite
  change double.read depth (pad ++ (writeNumber x ++ s)) = _
  change double.parse (String.ofList (writeNumber x)) = _ at back
  rw [text] at back ⊢
  exact number_kept valid back blank apart depth

/-- The same for a number that is kept as a document before it is looked at. -/
theorem double_kept {x : Float} (finite : x.isFinite = true)
    (back : double.parse (Value.number x).compact = .ok x) :
    ∃ v, double.ofValue v = .ok x ∧ ∀ (sp : Spacing) (level depth : Nat) (pad s : List Char),
      Blank pad → Apart s →
        readValue (depth + 1) (pad ++ ((Value.number x).write sp level ++ s)) = .ok (v, s) := by
  obtain ⟨negative, m, valid, text⟩ := writeNumber_signed finite
  change double.parse (String.ofList (writeNumber x)) = _ at back
  rw [text, double, number_parse valid negative] at back
  cases value : (m.number negative).toValue with
  | error e =>
    rw [value] at back
    exact nomatch back
  | ok v =>
    rw [value] at back
    refine ⟨v, back, fun sp level depth pad s blank apart => ?_⟩
    obtain ⟨a, as, split, starts⟩ := signed_head valid negative
    have number := Spelling.readNumberText_signed valid negative apart
    change readValue (depth + 1) (pad ++ (writeNumber x ++ s)) = _
    rw [readValue_pad blank, text]
    rw [split, List.cons_append] at number ⊢
    simp only [readValue_number starts, readNumber, number, ok_bind, value, pure_ok]

theorem single_readsBack {x : Float32} (finite : x.isFinite = true)
    (back : single.parse (Value.sample x).compact = .ok x) : single.ReadsBack height x := by
  intro sp level depth pad s _ _ blank apart
  obtain ⟨negative, m, valid, text⟩ := writeSample_signed finite
  change single.read depth (pad ++ (writeSample x ++ s)) = _
  change single.parse (String.ofList (writeSample x)) = _ at back
  rw [text] at back ⊢
  exact number_kept valid back blank apart depth

/-- Whole numbers that fit a 64-bit word stay whole. -/
theorem natural_readsBack {bits n : Nat} (name : String) (word : bits ≤ 64)
    (fits : (n : Int) ≤ unsignedMax bits) : (natural bits name).ReadsBack height n := by
  intro sp level depth pad s _ _ blank apart
  have below : n ≤ largestUnsigned := by
    have width : twoTo bits ≤ twoTo 64 := Nat.pow_le_pow_right (by omega) word
    rw [unsignedMax] at fits
    rw [largestUnsigned]
    omega
  have whole : ((Spelling.ofNat n).number false).toValue = .ok (.integer n) := by
    simp only [NumberText.toValue, Spelling.number, Spelling.ofNat, digitsValue_toDigits]
    rw [if_pos ⟨rfl, Bool.false_ne_true, below⟩]
  have text : ((natural bits name).toValue n).write sp level =
      NumberStyle.signed false (Spelling.ofNat n).text := writeInteger_signed n
  rw [text, natural, number_read (Spelling.ofNat_valid n) false apart blank, whole]
  simp only [ok_bind, if_pos (And.intro (Int.natCast_nonneg n) fits)]
  rfl

theorem boolean_readsBack (b : Bool) : boolean.ReadsBack height b := by
  intro sp level depth pad s _ _ blank _
  cases b with
  | true => exact plain_read rfl rfl blank depth _
  | false => exact plain_read rfl rfl blank depth _

theorem textAs_readsBack (expected t : String) : (textAs expected).ReadsBack height t := by
  intro sp level depth pad s _ _ blank _
  have read := readValue_text t 0 s
  rw [quote_cons, List.cons_append] at read
  change (textAs expected).read depth (pad ++ '"' :: (unquoted t ++ s)) = _
  rw [textAs, plain_read rfl rfl blank, read]
  rfl

theorem text_readsBack (t : String) : text.ReadsBack height t := textAs_readsBack _ t

/-! Absent values. -/

theorem option_readsBack {x : Option α}
    (back : ∀ y, x = some y → c.ReadsBack height y ∧ (c.toValue y).Solid) :
    c.option.ReadsBack height x := by
  intro sp level depth pad s lawful deep blank apart
  cases x with
  | none =>
    change c.option.read depth (pad ++ 'n' :: ('u' :: 'l' :: 'l' :: s)) = _
    simp only [option, skipBlanks_text blank (c := 'n') rfl]
    rfl
  | some y =>
    obtain ⟨back, solid⟩ := back y rfl
    have read := back sp level depth [] s lawful deep blank_nil apart
    obtain ⟨a, as, split, ink, -, letter⟩ := write_head (c.toValue y) sp level
    change c.option.read depth (pad ++ ((c.toValue y).write sp level ++ s)) = _
    rw [split, List.nil_append, List.cons_append] at read
    rw [split, List.cons_append]
    simp only [option, skipBlanks_text blank ink]
    split
    case h_1 same => exact absurd (List.cons.inj same).1 (letter solid)
    case h_2 => rw [read]; rfl

/-! Lists. -/

theorem nextItem_first {pad : List Char} (blank : Blank pad) {a : Char} (ink : isBlank a = false)
    (bracket : a ≠ ']') (s : List Char) : nextItem true (pad ++ a :: s) = .ok (true, a :: s) := by
  rw [nextItem, skipBlanks_text blank ink]
  split
  case h_1 none => exact nomatch none
  case h_2 same => exact absurd (List.cons.inj same).1 bracket
  case h_3 same =>
    obtain ⟨rfl, rfl⟩ := List.cons.inj same
    rfl

theorem nextItem_more {pad : List Char} (blank : Blank pad) {a : Char} (ink : isBlank a = false)
    (bracket : a ≠ ']') (s : List Char) :
    nextItem false (',' :: (pad ++ a :: s)) = .ok (true, a :: s) := by
  have comma : isBlank ',' = false := rfl
  rw [nextItem, skipBlanks_cons comma]
  change itemAfterComma (pad ++ a :: s) = _
  rw [itemAfterComma, skipBlanks_text blank ink]
  split
  case h_1 none => exact nomatch none
  case h_2 same => exact absurd (List.cons.inj same).1 bracket
  case h_3 => rfl

theorem nextItem_end {pad : List Char} (blank : Blank pad) (first : Bool) (s : List Char) :
    nextItem first (pad ++ ']' :: s) = .ok (false, s) := by
  have bracket : isBlank ']' = false := rfl
  simp only [nextItem, skipBlanks_text blank bracket]

theorem apart_items {sp : Spacing} (lawful : sp.Lawful) (level : Nat) (vs : List Value)
    (s : List Char) : Apart (Value.writeItems sp level vs ++ s) := by
  cases vs with
  | nil =>
    rw [Value.writeItems, List.append_assoc]
    exact apart_append (lawful.breaks level) (apart_cons rfl (by decide) rfl)
  | cons v vs => exact apart_cons rfl (by decide) rfl

theorem items_length (sp : Spacing) (level : Nat) (vs : List Value) :
    vs.length < (Value.writeItems sp level vs).length := by
  induction vs with
  | nil => simp [Value.writeItems]
  | cons v vs ih =>
    simp only [Value.writeItems, List.length_cons, List.length_append]
    omega

/-- An item and the ones behind it, however it is come by. -/
theorem items_step {sp : Spacing} (lawful : sp.Lawful) (level : Nat) {depth : Nat} (deep : height < depth)
    (back : c.ReadsBack height x) {xs : List α} {s cs : List Char} {fuel : Nat} {first : Bool}
    (next : nextItem first cs = .ok (true, (c.toValue x).write sp (level + 1) ++
      (Value.writeItems sp level (xs.map c.toValue) ++ s)))
    (rest : readItemsFuel (c.read depth) fuel false
      (Value.writeItems sp level (xs.map c.toValue) ++ s) = .ok (xs, s)) :
    readItemsFuel (c.read depth) (fuel + 1) first cs = .ok (x :: xs, s) := by
  have item := back sp (level + 1) depth [] _ lawful deep blank_nil
    (apart_items lawful level (xs.map c.toValue) s)
  rw [List.nil_append] at item
  simp only [readItemsFuel, next, ok_bind, item, rest, pure_ok]

/-- The items behind the first, up to the closing bracket. -/
theorem items_read {sp : Spacing} (lawful : sp.Lawful) (level : Nat) {depth : Nat} (deep : height < depth)
    (xs : List α) (back : ∀ x ∈ xs, c.ReadsBack height x) (s : List Char) (fuel : Nat)
    (enough : xs.length < fuel) :
    readItemsFuel (c.read depth) fuel false (Value.writeItems sp level (xs.map c.toValue) ++ s) =
      .ok (xs, s) := by
  induction xs generalizing fuel with
  | nil =>
    obtain ⟨fuel, rfl⟩ := Nat.exists_eq_succ_of_ne_zero (by omega : fuel ≠ 0)
    rw [List.map_nil, Value.writeItems, List.append_assoc, List.singleton_append, readItemsFuel,
      nextItem_end (lawful.breaks level)]
    rfl
  | cons x xs ih =>
    obtain ⟨fuel, rfl⟩ := Nat.exists_eq_succ_of_ne_zero (by omega : fuel ≠ 0)
    refine items_step lawful level deep (back x List.mem_cons_self) ?_
      (ih (fun y member => back y (List.mem_cons_of_mem x member)) fuel (by simpa using enough))
    obtain ⟨a, as, split, ink, bracket, -⟩ := write_head (c.toValue x) sp (level + 1)
    rw [List.map_cons, Value.writeItems, split]
    simp only [List.cons_append, List.append_assoc]
    exact nextItem_more (lawful.breaks (level + 1)) ink bracket _

theorem list_readsBack {xs : List α} (back : ∀ x ∈ xs, c.ReadsBack height x) :
    (list c).ReadsBack (height + 1) xs := by
  intro sp level depth pad s lawful deep blank apart
  have bracket : isBlank '[' = false := rfl
  have opened : ∀ r : List Char,
      (list c).read depth (pad ++ '[' :: r) = readItems (c.read (depth - 1)) r := by
    intro r
    simp only [list, skipBlanks_text blank bracket, if_neg (show ¬ depth ≤ 1 by omega)]
  cases xs with
  | nil =>
    change (list c).read depth (pad ++ '[' :: (']' :: s)) = _
    rw [opened, readItems, readItemsFuel, ← List.nil_append (']' :: s), nextItem_end blank_nil]
    rfl
  | cons x xs =>
    change (list c).read depth (pad ++ '[' :: ((sp.breakAt (level + 1) ++
      (c.toValue x).write sp (level + 1) ++ Value.writeItems sp level (xs.map c.toValue)) ++ s)) = _
    rw [opened, readItems]
    refine items_step lawful level (by omega) (back x List.mem_cons_self) ?_
      (items_read lawful level (by omega) xs (fun y member => back y (List.mem_cons_of_mem x member))
        s _ ?_)
    · obtain ⟨a, as, split, ink, bracket, -⟩ := write_head (c.toValue x) sp (level + 1)
      rw [split]
      simp only [List.cons_append, List.append_assoc]
      exact nextItem_first (lawful.breaks (level + 1)) ink bracket _
    · have count := items_length sp level (xs.map c.toValue)
      simp only [List.length_map, List.length_append] at count ⊢
      omega

/-! Names out of a table. -/

theorem readName_read {table : List (String × α)} {t : String} {x : α}
    (named : nameIndex table t = .ok x) {pad : List Char} (blank : Blank pad) (depth : Nat)
    (s : List Char) : readName table depth (pad ++ (quote t ++ s)) = .ok (x, s) := by
  have read := readValue_text t 0 s
  rw [quote_cons, List.cons_append] at read ⊢
  rw [readName, textAs, plain_read rfl rfl blank, read]
  simp only [ok_bind, named, pure_ok]

theorem choice_readsBack [BEq α] {table : List (String × α)} {x : α}
    (named : nameIndex table (nameOf table x) = .ok x) : (choice table).ReadsBack height x := by
  intro sp level depth pad s _ _ blank _
  have name := readName_read named blank_nil depth s
  have mark : isBlank '"' = false := rfl
  change (choice table).read depth (pad ++ (quote (nameOf table x) ++ s)) = _
  rw [quote_cons, List.cons_append] at name ⊢
  simp only [choice, skipBlanks_text blank mark]
  exact name

end Codec
end Montage.Json
