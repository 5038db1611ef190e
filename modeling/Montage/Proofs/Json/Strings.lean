import Montage.Proofs.Json.Numbers

/- Strings between quotes: every character is read back from what stands for it. -/
namespace Montage.Json

theorem hexValue_hexDigit : ∀ n < 16, hexValue? (hexDigit n) = some n := by decide

theorem nextChar_control {c : Char} (control : c.toNat < 0x20) (s : List Char) :
    nextChar ('\\' :: 'u' :: '0' :: '0' :: hexDigit (c.toNat / 16) :: hexDigit (c.toNat % 16) :: s) =
      .ok (some c, s) := by
  have high := hexValue_hexDigit (c.toNat / 16) (by omega)
  have low := hexValue_hexDigit (c.toNat % 16) (by omega)
  have unit : hexUnit? '0' '0' (hexDigit (c.toNat / 16)) (hexDigit (c.toNat % 16)) = some c.toNat := by
    rw [hexUnit?, high, low]
    change some (((0 * 16 + 0) * 16 + c.toNat / 16) * 16 + c.toNat % 16) = _
    congr 1
    omega
  have trailing : isTrailing c.toNat = false := by
    rw [isTrailing, decide_eq_false (by omega), Bool.false_and]
  have leading : isLeading c.toNat = false := by
    rw [isLeading, decide_eq_false (by omega), Bool.false_and]
  simp only [nextChar, unitEscape, hexEscape, unit, ok_bind, trailing, leading, Char.ofNat_toNat,
    Bool.false_eq_true, if_false, pure_ok]

theorem nextChar_plain {c : Char} (quote : c ≠ '"') (slash : c ≠ '\\') (high : ¬ c.toNat < 0x20)
    (s : List Char) : nextChar (c :: s) = .ok (some c, s) := by
  rw [nextChar.eq_6 _ _ quote (fun same _ => slash same) (fun _ same _ => slash same)
    (fun _ _ same _ => slash same), if_neg high]

/-- A character is read back from what stands for it. -/
theorem nextChar_escaped (c : Char) (s : List Char) :
    nextChar (escapeChar c ++ s) = .ok (some c, s) := by
  unfold escapeChar
  split
  · subst c; rfl
  split
  · subst c; rfl
  split
  · subst c; rfl
  split
  · subst c; rfl
  split
  · subst c; rfl
  split
  · subst c; rfl
  split
  · subst c; rfl
  split
  · exact nextChar_control ‹_› s
  · exact nextChar_plain ‹_› ‹_› ‹_› s

theorem escapeChar_length_pos (c : Char) : 0 < (escapeChar c).length := by
  unfold escapeChar
  repeat' split
  all_goals simp

theorem readCharsFuel_escaped (cs s : List Char) (fuel : Nat)
    (enough : (cs.flatMap escapeChar).length < fuel) :
    readCharsFuel fuel (cs.flatMap escapeChar ++ '"' :: s) = .ok (cs, s) := by
  induction cs generalizing fuel with
  | nil =>
    obtain ⟨fuel, rfl⟩ := Nat.exists_eq_succ_of_ne_zero (by omega : fuel ≠ 0)
    rfl
  | cons c cs ih =>
    obtain ⟨fuel, rfl⟩ := Nat.exists_eq_succ_of_ne_zero (by omega : fuel ≠ 0)
    have positive := escapeChar_length_pos c
    rw [List.flatMap_cons, List.length_append] at enough
    rw [List.flatMap_cons, List.append_assoc, readCharsFuel, nextChar_escaped, ok_bind]
    simp only [ih fuel (by omega), ok_bind, pure_ok]

/-- The rest of a written string, after its opening quote. -/
def unquoted (t : String) : List Char := t.toList.flatMap escapeChar ++ ['"']

theorem quote_cons (t : String) : quote t = '"' :: unquoted t := rfl

theorem readString_unquoted (t : String) (s : List Char) :
    readString (unquoted t ++ s) = .ok (t, s) := by
  have split : unquoted t ++ s = t.toList.flatMap escapeChar ++ '"' :: s := by simp [unquoted]
  have chars := readCharsFuel_escaped t.toList s ((unquoted t ++ s).length + 1)
    (by rw [split, List.length_append]; omega)
  rw [← split] at chars
  simp only [readString, chars, ok_bind, String.ofList_toList, pure_ok]

end Montage.Json
