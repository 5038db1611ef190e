import Montage.Json.Codec
import Montage.Proofs.Json.Strings

/- Written values as text: the blanks between them, and how each of them begins. -/
namespace Montage.Json

def Blank (pad : List Char) : Prop := ∀ c ∈ pad, isBlank c = true

theorem blank_nil : Blank [] := fun _ member => nomatch member

theorem skipBlanks_append {pad : List Char} (blank : Blank pad) (s : List Char) :
    skipBlanks (pad ++ s) = skipBlanks s :=
  List.dropWhile_append_of_pos blank

theorem skipBlanks_cons {c : Char} (ink : isBlank c = false) (s : List Char) :
    skipBlanks (c :: s) = c :: s :=
  List.dropWhile_cons_of_neg (by rw [ink]; exact Bool.false_ne_true)

/-- Blanks before a text are passed over, up to its first character. -/
theorem skipBlanks_text {pad : List Char} (blank : Blank pad) {c : Char} (ink : isBlank c = false)
    (s : List Char) : skipBlanks (pad ++ c :: s) = c :: s := by
  rw [skipBlanks_append blank, skipBlanks_cons ink]

theorem apart_blank {c : Char} (blank : isBlank c = true) :
    c.isDigit = false ∧ c ≠ '.' ∧ isExponentMark c = false := by
  simp only [isBlank, Bool.or_eq_true, decide_eq_true_eq] at blank
  rcases blank with ((rfl | rfl) | rfl) | rfl <;> decide

theorem apart_append {pad s : List Char} (blank : Blank pad) (apart : Apart s) : Apart (pad ++ s) := by
  cases pad with
  | nil => exact apart
  | cons c pad =>
    obtain ⟨digit, point, mark⟩ := apart_blank (blank c List.mem_cons_self)
    exact apart_cons digit point mark

/-- Breaks and gaps hold blanks alone. -/
structure Spacing.Lawful (sp : Spacing) : Prop where
  breaks : ∀ level, Blank (sp.breakAt level)
  colon : ∃ gap, Blank gap ∧ sp.colon = ':' :: gap

theorem compact_lawful : Spacing.compact.Lawful := ⟨fun _ => blank_nil, [], blank_nil, rfl⟩

theorem indented_lawful : Spacing.indented.Lawful := by
  refine ⟨fun level c member => ?_, [' '], by simp [Blank, isBlank], rfl⟩
  rcases List.mem_cons.mp member with rfl | blank
  · rfl
  · rw [List.eq_of_mem_replicate blank]
    rfl

/-! How a written value begins. -/

theorem startsNumber_head {c : Char} (starts : Codec.startsNumber c = true) :
    isBlank c = false ∧ c ≠ ']' ∧ c ≠ 'n' ∧ c ≠ 't' ∧ c ≠ 'f' ∧ c ≠ '"' ∧ c ≠ '[' ∧ c ≠ '\x7b' := by
  refine ⟨?_, ?_, ?_, ?_, ?_, ?_, ?_, ?_⟩
  · cases blank : isBlank c with
    | false => rfl
    | true =>
      simp only [isBlank, Bool.or_eq_true, decide_eq_true_eq] at blank
      rcases blank with ((rfl | rfl) | rfl) | rfl <;> exact absurd starts (by decide)
  all_goals
    rintro rfl
    exact absurd starts (by decide)

theorem signed_head {m : Spelling} (valid : m.Valid) (negative : Bool) :
    ∃ c cs, NumberStyle.signed negative m.text = c :: cs ∧ Codec.startsNumber c = true := by
  cases negative with
  | true => exact ⟨'-', m.text, rfl, rfl⟩
  | false =>
    obtain ⟨d, ds, split, digit⟩ := Spelling.text_head valid
    exact ⟨d, ds, split, by rw [Codec.startsNumber, digit, Bool.or_true]⟩

theorem writeInteger_signed (n : Int) :
    writeInteger n = NumberStyle.signed (decide (n < 0)) (Spelling.ofNat n.natAbs).text := by
  have text : (Spelling.ofNat n.natAbs).text = Nat.toDigits 10 n.natAbs := by
    simp [Spelling.ofNat, Spelling.text, Spelling.pointed, Spelling.raised]
  rw [text, writeInteger, NumberStyle.signed]
  split <;> simp [*]

theorem writeNumber_signed {x : Float} (finite : x.isFinite = true) :
    ∃ (negative : Bool) (m : Spelling), m.Valid ∧ writeNumber x = NumberStyle.signed negative m.text := by
  rw [writeNumber, if_pos finite]
  exact NumberStyle.ofBits_spelled rfl (double_isFinite x ▸ finite)

theorem writeSample_signed {x : Float32} (finite : x.isFinite = true) :
    ∃ (negative : Bool) (m : Spelling), m.Valid ∧ writeSample x = NumberStyle.signed negative m.text := by
  rw [writeSample, if_pos finite]
  exact NumberStyle.ofBits_spelled rfl (single_isFinite x ▸ finite)

/-- A value that is not written as null. -/
def Value.Solid : Value → Prop
  | .null => False
  | .number x => x.isFinite = true
  | .sample x => x.isFinite = true
  | _ => True

/-- A written value begins with neither a blank nor a closing bracket, and with the first letter of
null only when it is null. -/
theorem write_head (v : Value) (sp : Spacing) (level : Nat) :
    ∃ c cs, v.write sp level = c :: cs ∧ isBlank c = false ∧ c ≠ ']' ∧ (v.Solid → c ≠ 'n') := by
  have number {negative : Bool} {m : Spelling} (valid : m.Valid) :
      ∃ c cs, NumberStyle.signed negative m.text = c :: cs ∧ isBlank c = false ∧ c ≠ ']' ∧ c ≠ 'n' := by
    obtain ⟨c, cs, split, starts⟩ := signed_head valid negative
    obtain ⟨ink, bracket, letter, _⟩ := startsNumber_head starts
    exact ⟨c, cs, split, ink, bracket, letter⟩
  cases v with
  | null => exact ⟨'n', _, rfl, rfl, by decide, fun solid => solid.elim⟩
  | boolean b => cases b <;> exact ⟨_, _, rfl, rfl, by decide, fun _ => by decide⟩
  | integer n =>
    obtain ⟨c, cs, split, ink, bracket, letter⟩ := number (Spelling.ofNat_valid n.natAbs)
    exact ⟨c, cs, by rw [Value.write, writeInteger_signed, split], ink, bracket, fun _ => letter⟩
  | number x =>
    cases finite : x.isFinite with
    | true =>
      obtain ⟨negative, m, valid, text⟩ := writeNumber_signed finite
      obtain ⟨c, cs, split, ink, bracket, letter⟩ := number valid
      exact ⟨c, cs, by rw [Value.write, text, split], ink, bracket, fun _ => letter⟩
    | false =>
      exact ⟨'n', _, by simp only [Value.write, writeNumber, finite]; rfl, rfl, by decide,
        fun solid => absurd solid (by simp [Value.Solid, finite])⟩
  | sample x =>
    cases finite : x.isFinite with
    | true =>
      obtain ⟨negative, m, valid, text⟩ := writeSample_signed finite
      obtain ⟨c, cs, split, ink, bracket, letter⟩ := number valid
      exact ⟨c, cs, by rw [Value.write, text, split], ink, bracket, fun _ => letter⟩
    | false =>
      exact ⟨'n', _, by simp only [Value.write, writeSample, finite]; rfl, rfl, by decide,
        fun solid => absurd solid (by simp [Value.Solid, finite])⟩
  | text s => exact ⟨'"', _, rfl, rfl, by decide, fun _ => by decide⟩
  | list vs => cases vs <;> exact ⟨'[', _, rfl, rfl, by decide, fun _ => by decide⟩
  | object fs => cases fs <;> exact ⟨'\x7b', _, rfl, rfl, by decide, fun _ => by decide⟩

end Montage.Json
