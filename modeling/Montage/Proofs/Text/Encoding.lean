import Montage.Text.Utf8

/- Text as bytes: decoding gives back every character that was encoded. -/
namespace Montage.Utf8

theorem byte_toNat {n : Nat} (small : n < 256) : (UInt8.ofNat n).toNat = n := by
  rw [UInt8.toNat_ofNat']
  omega

theorem byte_lt {n : Nat} (small : n < 256) (b : UInt8) : UInt8.ofNat n < b ↔ n < b.toNat := by
  rw [UInt8.lt_iff_toNat_lt, byte_toNat small]

theorem lt_byte {n : Nat} (small : n < 256) (b : UInt8) : b < UInt8.ofNat n ↔ b.toNat < n := by
  rw [UInt8.lt_iff_toNat_lt, byte_toNat small]

theorem byte_le {n : Nat} (small : n < 256) (b : UInt8) : UInt8.ofNat n ≤ b ↔ n ≤ b.toNat := by
  rw [UInt8.le_iff_toNat_le, byte_toNat small]

theorem le_byte {n : Nat} (small : n < 256) (b : UInt8) : b ≤ UInt8.ofNat n ↔ b.toNat ≤ n := by
  rw [UInt8.le_iff_toNat_le, byte_toNat small]

theorem byte_eq {n : Nat} (small : n < 256) (b : UInt8) : UInt8.ofNat n = b ↔ n = b.toNat := by
  rw [← UInt8.toNat_inj, byte_toNat small]

/-- A byte that begins a character of more than one byte. -/
theorem leading_byte {n : Nat} (above : 0xc2 ≤ n) (below : n ≤ 0xf4) :
    ¬ UInt8.ofNat n < 0x80 ∧ ¬ (UInt8.ofNat n < 0xc2 ∨ 0xf4 < UInt8.ofNat n) := by
  have small : n < 256 := by omega
  rw [byte_lt small, byte_lt small, lt_byte small]
  simp only [UInt8.reduceToNat]
  omega

theorem tail_byte {n : Nat} (small : n < 64) :
    isTail (UInt8.ofNat (n + 128)) = true ∧ low (UInt8.ofNat (n + 128)) 64 = n := by
  rw [isTail, low, byte_toNat (by omega), beq_iff_eq]
  omega

theorem next_one {v : Nat} (small : v < 0x80) (r : Bytes) :
    next (UInt8.ofNat v :: r) = .char (Char.ofNat v) r := by
  have first : UInt8.ofNat v < 0x80 := (byte_lt (by omega) _).mpr small
  simp only [next, if_pos first, byte_toNat (show v < 256 by omega)]

theorem next_two {v : Nat} (above : 0x80 ≤ v) (below : v < 0x800) (r : Bytes) :
    next (UInt8.ofNat (v / 64 % 32 + 192) :: UInt8.ofNat (v % 64 + 128) :: r) =
      .char (Char.ofNat v) r := by
  obtain ⟨first, second⟩ := leading_byte (n := v / 64 % 32 + 192) (by omega) (by omega)
  have two : UInt8.ofNat (v / 64 % 32 + 192) < 0xe0 := by
    rw [byte_lt (by omega)]
    simp only [UInt8.reduceToNat]
    omega
  obtain ⟨tail, last⟩ := tail_byte (n := v % 64) (by omega)
  have head : low (UInt8.ofNat (v / 64 % 32 + 192)) 32 = v / 64 := by
    rw [low, byte_toNat (by omega)]
    omega
  have value : v / 64 * 64 + v % 64 = v := by omega
  simp only [next, if_neg first, if_neg second, if_pos two, tail, if_true, head, last, value]

theorem next_three {v : Nat} (above : 0x800 ≤ v) (below : v < 0x10000)
    (whole : v < 0xd800 ∨ 0xdfff < v) (r : Bytes) :
    next (UInt8.ofNat (v / 4096 % 16 + 224) :: UInt8.ofNat (v / 64 % 64 + 128) ::
      UInt8.ofNat (v % 64 + 128) :: r) = .char (Char.ofNat v) r := by
  obtain ⟨first, second⟩ := leading_byte (n := v / 4096 % 16 + 224) (by omega) (by omega)
  have two : ¬ UInt8.ofNat (v / 4096 % 16 + 224) < 0xe0 := by
    rw [byte_lt (by omega)]
    simp
  have three : UInt8.ofNat (v / 4096 % 16 + 224) < 0xf0 := by
    rw [byte_lt (by omega)]
    simp only [UInt8.reduceToNat]
    omega
  obtain ⟨tail, middle⟩ := tail_byte (n := v / 64 % 64) (by omega)
  obtain ⟨final, last⟩ := tail_byte (n := v % 64) (by omega)
  -- short forms and halves of pairs are shut out by the second byte
  have follows : secondOfThree (UInt8.ofNat (v / 4096 % 16 + 224)) (UInt8.ofNat (v / 64 % 64 + 128)) =
      true := by
    have small : v / 64 % 64 + 128 < 256 := by omega
    simp only [secondOfThree, byte_eq (show v / 4096 % 16 + 224 < 256 by omega), le_byte small,
      byte_le small, UInt8.reduceToNat, tail]
    split
    · rw [Bool.and_eq_true, decide_eq_true_eq, decide_eq_true_eq]
      omega
    · split
      · rw [Bool.and_eq_true, decide_eq_true_eq, decide_eq_true_eq]
        omega
      · rfl
  have head : low (UInt8.ofNat (v / 4096 % 16 + 224)) 16 = v / 4096 := by
    rw [low, byte_toNat (by omega)]
    omega
  have value : v / 4096 * 4096 + v / 64 % 64 * 64 + v % 64 = v := by omega
  simp only [next, if_neg first, if_neg second, if_neg two, if_pos three, follows, final, if_true,
    Utf8.three, head, middle, last, value]

theorem next_four {v : Nat} (above : 0x10000 ≤ v) (below : v < 0x110000) (r : Bytes) :
    next (UInt8.ofNat (v / 262144 % 8 + 240) :: UInt8.ofNat (v / 4096 % 64 + 128) ::
      UInt8.ofNat (v / 64 % 64 + 128) :: UInt8.ofNat (v % 64 + 128) :: r) = .char (Char.ofNat v) r := by
  obtain ⟨first, second⟩ := leading_byte (n := v / 262144 % 8 + 240) (by omega) (by omega)
  have two : ¬ UInt8.ofNat (v / 262144 % 8 + 240) < 0xe0 := by
    rw [byte_lt (by omega)]
    simp only [UInt8.reduceToNat]
    omega
  have three : ¬ UInt8.ofNat (v / 262144 % 8 + 240) < 0xf0 := by
    rw [byte_lt (by omega)]
    simp
  obtain ⟨tail, high⟩ := tail_byte (n := v / 4096 % 64) (by omega)
  obtain ⟨inner, middle⟩ := tail_byte (n := v / 64 % 64) (by omega)
  obtain ⟨final, last⟩ := tail_byte (n := v % 64) (by omega)
  have follows : secondOfFour (UInt8.ofNat (v / 262144 % 8 + 240)) (UInt8.ofNat (v / 4096 % 64 + 128)) =
      true := by
    have small : v / 4096 % 64 + 128 < 256 := by omega
    simp only [secondOfFour, byte_eq (show v / 262144 % 8 + 240 < 256 by omega), le_byte small,
      byte_le small, UInt8.reduceToNat, tail]
    split
    · rw [Bool.and_eq_true, decide_eq_true_eq, decide_eq_true_eq]
      omega
    · split
      · rw [Bool.and_eq_true, decide_eq_true_eq, decide_eq_true_eq]
        omega
      · rfl
  have head : low (UInt8.ofNat (v / 262144 % 8 + 240)) 8 = v / 262144 := by
    rw [low, byte_toNat (by omega)]
    omega
  have value : v / 262144 * 262144 + v / 4096 % 64 * 4096 + v / 64 % 64 * 64 + v % 64 = v := by omega
  simp only [next, if_neg first, if_neg second, if_neg two, if_neg three, follows, inner, final, if_true,
    four, head, high, middle, last, value]

/-- The first character of encoded text. -/
theorem next_encoded (c : Char) (r : Bytes) : next (String.utf8EncodeChar c ++ r) = .char c r := by
  have value : Char.ofNat c.val.toNat = c := Char.ofNat_toNat c
  have whole : c.val.toNat < 0xd800 ∨ 0xdfff < c.val.toNat ∧ c.val.toNat < 0x110000 := c.valid
  unfold String.utf8EncodeChar
  dsimp only
  split
  · exact (next_one (by omega) r).trans (by rw [value])
  split
  · exact (next_two (by omega) (by omega) r).trans (by rw [value])
  split
  · exact (next_three (by omega) (by omega) (by omega) r).trans (by rw [value])
  · exact (next_four (by omega) (by omega) r).trans (by rw [value])

theorem decodeFuel_encoded (cs : List Char) (fuel index : Nat)
    (enough : (cs.flatMap String.utf8EncodeChar).length < fuel) :
    decodeFuel fuel index (cs.flatMap String.utf8EncodeChar) = .ok cs := by
  induction cs generalizing fuel index with
  | nil =>
    obtain ⟨fuel, rfl⟩ := Nat.exists_eq_succ_of_ne_zero (by omega : fuel ≠ 0)
    rfl
  | cons c cs ih =>
    obtain ⟨fuel, rfl⟩ := Nat.exists_eq_succ_of_ne_zero (by omega : fuel ≠ 0)
    have some := List.length_pos_iff.mpr (String.utf8EncodeChar_ne_nil (c := c))
    rw [List.flatMap_cons, List.length_append] at enough
    rw [List.flatMap_cons, decodeFuel, next_encoded]
    dsimp only
    rw [ih fuel _ (by omega)]
    rfl

/-- Encoded text is decoded as it was. -/
theorem decode_encode (s : String) : decode (encode s) = .ok s := by
  rw [decode, encode, decodeFuel_encoded _ _ _ (Nat.lt_succ_self _), Except.map, String.ofList_toList]

end Montage.Utf8
