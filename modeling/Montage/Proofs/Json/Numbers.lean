import Montage.Json.Reader
import Montage.Proofs.Number.Spelling

/- Written numbers as they are read: the whole of the text is one number, whatever stands behind it
   that does not go on with a number. -/
namespace Montage.Json

@[simp] theorem ok_bind {ε α β : Type} (a : α) (f : α → Except ε β) : (Except.ok a >>= f) = f a := rfl

@[simp] theorem pure_ok {ε α : Type} (a : α) : (pure a : Except ε α) = .ok a := rfl

/-- Text that a number in front of it does not run into. -/
def Apart (s : List Char) : Prop :=
  ∀ c ∈ s.head?, c.isDigit = false ∧ c ≠ '.' ∧ isExponentMark c = false

theorem apart_nil : Apart [] := fun _ member => nomatch member

theorem apart_cons {c : Char} {s : List Char} (digit : c.isDigit = false) (point : c ≠ '.')
    (mark : isExponentMark c = false) : Apart (c :: s) := by
  intro a member
  obtain rfl : c = a := by simpa using member
  exact ⟨digit, point, mark⟩

section Digits
variable {ds s : List Char} (digits : ∀ c ∈ ds, c.isDigit = true)
  (behind : ∀ c ∈ s.head?, c.isDigit = false)
include digits behind

theorem splitDigits_append : splitDigits (ds ++ s) = (ds, s) := by
  have stop : s.takeWhile Char.isDigit = [] ∧ s.dropWhile Char.isDigit = s := by
    cases s with
    | nil => exact ⟨rfl, rfl⟩
    | cons c s => simp [behind c rfl]
  rw [splitDigits, List.takeWhile_append_of_pos digits, List.dropWhile_append_of_pos digits,
    stop.1, stop.2, List.append_nil]

theorem someDigits_append (some : ds ≠ []) : someDigits (ds ++ s) = .ok (ds, s) := by
  obtain ⟨d, ds, rfl⟩ := List.exists_cons_of_ne_nil some
  rw [someDigits, splitDigits_append digits behind]

theorem skipDigits_append (some : ds ≠ []) : skipDigits (ds ++ s) = .ok s := by
  obtain ⟨d, ds, rfl⟩ := List.exists_cons_of_ne_nil some
  rw [skipDigits, splitDigits_append digits behind]

end Digits

theorem digitsValue_toDigits (n : Nat) : digitsValue (Nat.toDigits 10 n) = n := by
  have step : (fun m c => m * 10 + (Char.toNat c - 48)) = fun m c => 10 * m + (c.toNat - '0'.toNat) := by
    funext m c
    rw [Nat.mul_comm]
    rfl
  rw [digitsValue, step]
  exact Nat.ofDigitChars_ten_toDigits

end Montage.Json

namespace Montage.Spelling
open Json

/-- The number that a magnitude stands for behind a sign. -/
def number (negative : Bool) (m : Spelling) : NumberText :=
  ⟨negative, m.whole, m.places, m.power.getD 0, m.places.isEmpty && m.power.isNone⟩

variable {m : Spelling} {s : List Char}

theorem raised_head (power : Option Int) (apart : Apart s) :
    ∀ c ∈ (raised power ++ s).head?, c.isDigit = false ∧ c ≠ '.' := by
  cases power with
  | none => exact fun c member => ⟨(apart c member).1, (apart c member).2.1⟩
  | some e =>
    intro c member
    obtain rfl : 'e' = c := by simpa [raised] using member
    decide

theorem pointed_head (places : List Char) (power : Option Int) (apart : Apart s) :
    ∀ c ∈ (pointed places ++ (raised power ++ s)).head?, c.isDigit = false := by
  cases places with
  | nil => exact fun c member => (raised_head power apart c member).1
  | cons d ds =>
    intro c member
    obtain rfl : '.' = c := by simpa [pointed] using member
    decide

theorem exponentDigits_raised (e : Int) (apart : Apart s) :
    exponentDigits ((if e < 0 then '-' else '+') :: (Nat.toDigits 10 e.natAbs ++ s)) = .ok (e, s) := by
  have digits : someDigits (Nat.toDigits 10 e.natAbs ++ s) = .ok (Nat.toDigits 10 e.natAbs, s) :=
    someDigits_append (toDigits_digits _) (fun c member => (apart c member).1) Nat.toDigits_ne_nil
  by_cases negative : e < 0
  · have value : -(e.natAbs : Int) = e := by omega
    simp only [if_pos negative, exponentDigits, digits, ok_bind, digitsValue_toDigits, value, pure_ok]
  · have value : (e.natAbs : Int) = e := by omega
    simp only [if_neg negative, exponentDigits, digits, ok_bind, digitsValue_toDigits, value, pure_ok]

theorem exponentPart_raised (n : NumberText) (power : Option Int) (apart : Apart s) :
    exponentPart n (raised power ++ s) =
      .ok (power.elim n fun e => { n with exponent := e, plain := false }, s) := by
  cases power with
  | none =>
    cases s with
    | nil => rfl
    | cons c s => simp [raised, exponentPart, (apart c rfl).2.2]
  | some e =>
    rw [raised, List.cons_append, List.cons_append, exponentPart, if_pos (by decide),
      exponentDigits_raised e apart]
    rfl

theorem skipExponent_raised (power : Option Int) (apart : Apart s) :
    skipExponent (raised power ++ s) = .ok s := by
  cases power with
  | none =>
    cases s with
    | nil => rfl
    | cons c s => simp [raised, skipExponent, (apart c rfl).2.2]
  | some e =>
    have digits : skipDigits (Nat.toDigits 10 e.natAbs ++ s) = .ok s :=
      skipDigits_append (toDigits_digits _) (fun c member => (apart c member).1) Nat.toDigits_ne_nil
    rw [raised, List.cons_append, List.cons_append]
    by_cases negative : e < 0
    · rw [if_pos negative, skipExponent, if_pos (by decide)]
      exact digits
    · rw [if_neg negative, skipExponent, if_pos (by decide)]
      exact digits

theorem fractionPart_pointed (valid : m.Valid) (negative : Bool) (apart : Apart s) :
    fractionPart negative m.whole (pointed m.places ++ (raised m.power ++ s)) =
      .ok (m.number negative, s) := by
  obtain ⟨whole, places, power⟩ := m
  cases places with
  | nil =>
    have after : fractionPart negative whole (raised power ++ s) =
        exponentPart ⟨negative, whole, [], 0, true⟩ (raised power ++ s) := by
      unfold fractionPart
      split
      · rename_i r point
        exact absurd rfl (raised_head power apart '.' (by rw [point]; rfl)).2
      · rfl
    rw [pointed, List.nil_append, after, exponentPart_raised _ power apart]
    cases power <;> rfl
  | cons d ds =>
    have digits : someDigits (d :: ds ++ (raised power ++ s)) = .ok (d :: ds, raised power ++ s) :=
      someDigits_append valid.places_digits
        (fun c member => (raised_head power apart c member).1) (List.cons_ne_nil d ds)
    simp only [pointed, List.cons_append, fractionPart] at digits ⊢
    simp only [digits, ok_bind, exponentPart_raised _ power apart]
    cases power <;> rfl

/-- A digit after a leading zero would be an error: there is none. -/
theorem zero_alone (m : Spelling) (apart : Apart s) :
    ((pointed m.places ++ (raised m.power ++ s)).head?.map Char.isDigit).getD false = false := by
  have behind := pointed_head m.places m.power apart
  cases head : (pointed m.places ++ (raised m.power ++ s)).head? with
  | none => rfl
  | some c => exact behind c head

/-- A magnitude is read whole. -/
theorem unsignedNumber_text (valid : m.Valid) (negative : Bool) (apart : Apart s) :
    unsignedNumber negative (m.text ++ s) = .ok (m.number negative, s) := by
  have parts := fractionPart_pointed valid negative apart
  rw [text, List.append_assoc, List.append_assoc]
  rcases valid.leading with zero | ⟨d, ds, split, nonzero⟩
  · rw [zero] at parts ⊢
    rw [List.singleton_append, unsignedNumber, zero_alone m apart, if_neg Bool.false_ne_true, parts]
  · have digits := splitDigits_append valid.whole_digits (pointed_head m.places m.power apart)
    have first := valid.whole_digits d (by rw [split]; exact List.mem_cons_self)
    rw [split] at parts digits ⊢
    rw [List.cons_append] at digits ⊢
    rw [unsignedNumber.eq_3 _ _ _ nonzero, if_pos first, digits]
    exact parts

theorem text_head (valid : m.Valid) : ∃ d ds, m.text = d :: ds ∧ d.isDigit = true := by
  rcases valid.leading with zero | ⟨d, ds, split, _⟩
  · exact ⟨'0', _, by rw [text, zero, List.singleton_append], rfl⟩
  · exact ⟨d, _, by rw [text, split, List.cons_append],
      valid.whole_digits d (by rw [split]; exact List.mem_cons_self)⟩

theorem readNumberText_signed (valid : m.Valid) (negative : Bool) (apart : Apart s) :
    readNumberText (NumberStyle.signed negative m.text ++ s) = .ok (m.number negative, s) := by
  have unsigned := unsignedNumber_text valid negative apart
  cases negative with
  | true => exact unsigned
  | false =>
    obtain ⟨d, ds, split, digit⟩ := text_head valid
    have other : d ≠ '-' := by rintro rfl; exact absurd digit (by decide)
    change readNumberText (m.text ++ s) = _
    rw [split, List.cons_append] at unsigned ⊢
    rw [readNumberText.eq_2 _ (fun r same => other (List.cons.inj same).1), unsigned]

theorem skipFraction_pointed (valid : m.Valid) (apart : Apart s) :
    skipFraction (pointed m.places ++ (raised m.power ++ s)) = .ok (raised m.power ++ s) := by
  have behind := raised_head m.power apart
  cases split : m.places with
  | nil =>
    rw [pointed, List.nil_append]
    exact skipFraction.eq_2 _ fun r point => (behind '.' (by rw [point]; rfl)).2 rfl
  | cons d ds =>
    have digits := valid.places_digits
    rw [split] at digits
    exact skipDigits_append digits (fun c member => (behind c member).1) (List.cons_ne_nil d ds)

theorem skipWhole_text (valid : m.Valid) (apart : Apart s) :
    skipWhole (m.text ++ s) = .ok (pointed m.places ++ (raised m.power ++ s)) := by
  rw [text, List.append_assoc, List.append_assoc]
  rcases valid.leading with zero | ⟨d, ds, split, nonzero⟩
  · rw [zero, List.singleton_append, skipWhole, zero_alone m apart, if_neg Bool.false_ne_true]
  · have digits := skipDigits_append valid.whole_digits (pointed_head m.places m.power apart)
      (by rw [split]; exact List.cons_ne_nil d ds)
    rw [split, List.cons_append] at digits ⊢
    rw [skipWhole.eq_2 _ (fun r same => nonzero (List.cons.inj same).1), digits]

/-- A number that nobody keeps is passed over whole. -/
theorem skipNumber_signed (valid : m.Valid) (negative : Bool) (apart : Apart s) :
    skipNumber (NumberStyle.signed negative m.text ++ s) = .ok ((), s) := by
  have sign : skipSign (NumberStyle.signed negative m.text ++ s) = m.text ++ s := by
    cases negative with
    | true => rfl
    | false =>
      obtain ⟨d, ds, split, digit⟩ := text_head valid
      have other : d ≠ '-' := by rintro rfl; exact absurd digit (by decide)
      change skipSign (m.text ++ s) = _
      rw [split, List.cons_append]
      exact skipSign.eq_2 _ fun r same => other (List.cons.inj same).1
  rw [skipNumber, sign, skipWhole_text valid apart, ok_bind, skipFraction_pointed valid apart,
    ok_bind, skipExponent_raised m.power apart, ok_bind, pure_ok]

end Montage.Spelling
