import Mathlib.Tactic.IntervalCases
import Montage.Picture.Color
import Montage.Proofs.Text.Blank

/- Hexadecimal colours. A colour is read from everything that the grammar spells, and from a little
   more: a channel of two places may have a plus sign where its first digit would be nought. -/
namespace Montage.Color

/-- A hexadecimal digit, small or capital, and its value. -/
def Stands (c : Char) (n : Nat) : Prop :=
  "0123456789abcdef".toList[n]? = some c ∨ "0123456789ABCDEF".toList[n]? = some c

/-- A channel in two digits. -/
inductive Channel : Char → Char → UInt8 → Prop where
  | digits {a b : Char} {high low : Nat} (first : Stands a high) (second : Stands b low) :
      Channel a b (high * 16 + low).toUInt8

/-- The spellings of a colour: a digit a channel, which then stands twice, or two digits a channel,
with or without the alpha channel. -/
inductive Spelled : List Char → Color → Prop where
  | short {r g b : Char} {red green blue : UInt8} (first : Channel r r red)
      (second : Channel g g green) (third : Channel b b blue) :
      Spelled ['#', r, g, b] ⟨red, green, blue, 255⟩
  | solid {r r' g g' b b' : Char} {red green blue : UInt8} (first : Channel r r' red)
      (second : Channel g g' green) (third : Channel b b' blue) :
      Spelled ['#', r, r', g, g', b, b'] ⟨red, green, blue, 255⟩
  | shaded {r r' g g' b b' a a' : Char} {red green blue alpha : UInt8} (first : Channel r r' red)
      (second : Channel g g' green) (third : Channel b b' blue) (fourth : Channel a a' alpha) :
      Spelled ['#', r, r', g, g', b, b', a, a'] ⟨red, green, blue, alpha⟩

/-- A plus sign in the first of every two places becomes a nought. -/
def zeroed : List Char → List Char
  | a :: b :: rest => (if a = '+' then '0' else a) :: b :: zeroed rest
  | rest => rest

/-- What would be a spelling of two digits a channel, were there not a plus sign for a nought. -/
def Signed (cs : List Char) (c : Color) : Prop :=
  ∃ body, cs = '#' :: body ∧ body.length ≠ 3 ∧ zeroed body ≠ body ∧ Spelled ('#' :: zeroed body) c

instance (c : Char) (n : Nat) : Decidable (Stands c n) := inferInstanceAs (Decidable (_ ∨ _))

section Digits
variable {a b c : Char} {n : Nat} {byte : UInt8}

theorem stands_lt (h : Stands c n) : n < 16 := by
  rcases h with small | capital
  · exact (List.getElem?_eq_some_iff.mp small).1
  · exact (List.getElem?_eq_some_iff.mp capital).1

theorem digit?_rows : ∀ n < 16, "0123456789abcdef".toList[n]?.bind digit? = some n ∧
    "0123456789ABCDEF".toList[n]?.bind digit? = some n := by
  decide

theorem stands_ofNat : (∀ v < 10, Stands (Char.ofNat (v + 48)) v) ∧
    ∀ v < 6, Stands (Char.ofNat (v + 97)) (v + 10) ∧ Stands (Char.ofNat (v + 65)) (v + 10) := by
  decide

theorem digit?_iff : digit? c = some n ↔ Stands c n := by
  constructor
  · intro read
    have same : Char.ofNat c.toNat = c := Char.ofNat_toNat c
    obtain ⟨ten, six⟩ := stands_ofNat
    unfold digit? at read
    split at read
    · rename_i row
      obtain ⟨low, high⟩ : 48 ≤ c.toNat ∧ c.toNat ≤ 57 := row
      have stands := ten (c.toNat - 48) (by omega)
      rwa [Nat.sub_add_cancel low, same, Option.some.inj read] at stands
    split at read
    · rename_i row
      obtain ⟨low, high⟩ : 97 ≤ c.toNat ∧ c.toNat ≤ 102 := row
      have stands := (six (c.toNat - 97) (by omega)).1
      have value := Option.some.inj read
      rwa [Nat.sub_add_cancel low, same, show c.toNat - 97 + 10 = n by omega] at stands
    split at read
    · rename_i row
      obtain ⟨low, high⟩ : 65 ≤ c.toNat ∧ c.toNat ≤ 70 := row
      have stands := (six (c.toNat - 65) (by omega)).2
      have value := Option.some.inj read
      rwa [Nat.sub_add_cancel low, same, show c.toNat - 65 + 10 = n by omega] at stands
    · cases read
  · intro stands
    obtain ⟨small, capital⟩ := digit?_rows n (stands_lt stands)
    rcases stands with row | row
    · rwa [row] at small
    · rwa [row] at capital

theorem channel_iff : Channel a b byte ↔
    ∃ high low, Stands a high ∧ Stands b low ∧ (high * 16 + low).toUInt8 = byte := by
  constructor
  · rintro ⟨first, second⟩
    exact ⟨_, _, first, second, rfl⟩
  · rintro ⟨high, low, first, second, rfl⟩
    exact .digits first second

theorem stands_unique {m : Nat} (one : Stands c m) (other : Stands c n) : m = n := by
  rw [← digit?_iff] at one other
  rw [one] at other
  exact Option.some.inj other

theorem doubled?_iff : doubled? c = some byte ↔ Channel c c byte := by
  rw [channel_iff, doubled?, Option.map_eq_some_iff]
  simp only [digit?_iff]
  constructor
  · rintro ⟨d, stands, rfl⟩
    exact ⟨d, d, stands, stands, by rw [show d * 16 + d = d * 17 by omega]⟩
  · rintro ⟨high, low, first, second, rfl⟩
    obtain rfl := stands_unique first second
    exact ⟨high, first, by rw [show high * 16 + high = high * 17 by omega]⟩

theorem stands_nought (h : Stands '0' n) : n = 0 :=
  stands_unique h (by decide)

theorem not_stands_plus : ¬ Stands '+' n := by
  rw [← digit?_iff]
  nofun

/-- A plus sign in the first place is read as a nought. -/
theorem channel?_iff : channel? a b = some byte ↔ Channel (if a = '+' then '0' else a) b byte := by
  rw [channel_iff, channel?]
  by_cases plus : a = '+'
  · simp only [plus, if_true, Option.bind_eq_bind, Option.bind_eq_some_iff, Option.pure_def,
      Option.some.injEq, digit?_iff]
    constructor
    · rintro ⟨low, second, rfl⟩
      exact ⟨0, low, by decide, second, by simp⟩
    · rintro ⟨high, low, first, second, rfl⟩
      obtain rfl := stands_nought first
      exact ⟨low, second, by simp⟩
  · simp only [plus, if_false, Option.bind_eq_bind, Option.bind_eq_some_iff, Option.pure_def,
      Option.some.injEq, digit?_iff]
    constructor
    · rintro ⟨low, second, high, first, rfl⟩
      exact ⟨high, low, first, second, rfl⟩
    · rintro ⟨high, low, first, second, rfl⟩
      exact ⟨low, second, high, first, rfl⟩

end Digits

section Spellings
variable {cs ds : List Char} {c : Color}

theorem spelled_length (h : Spelled ('#' :: ds) c) :
    ds.length = 3 ∨ ds.length = 6 ∨ ds.length = 8 := by
  cases h <;> simp

theorem zeroed_length : ∀ ds : List Char, (zeroed ds).length = ds.length
  | [] => rfl
  | [_] => rfl
  | _ :: _ :: rest => by simp [zeroed, zeroed_length rest]

theorem ofDigits?_spelled (read : ofDigits? ds = some c) :
    Spelled ('#' :: if ds.length = 3 then ds else zeroed ds) c := by
  unfold ofDigits? at read
  split at read
  · simp only [Option.bind_eq_bind, Option.bind_eq_some_iff, Option.pure_def, Option.some.injEq,
      doubled?_iff] at read
    obtain ⟨red, first, green, second, blue, third, rfl⟩ := read
    exact .short first second third
  · simp only [Option.bind_eq_bind, Option.bind_eq_some_iff, Option.pure_def, Option.some.injEq,
      channel?_iff] at read
    obtain ⟨red, first, green, second, blue, third, rfl⟩ := read
    exact .solid first second third
  · simp only [Option.bind_eq_bind, Option.bind_eq_some_iff, Option.pure_def, Option.some.injEq,
      channel?_iff] at read
    obtain ⟨red, first, green, second, blue, third, alpha, fourth, rfl⟩ := read
    exact .shaded first second third fourth
  · cases read

theorem spelled_ofDigits? (spelled : Spelled ('#' :: if ds.length = 3 then ds else zeroed ds) c) :
    ofDigits? ds = some c := by
  by_cases three : ds.length = 3
  · rw [if_pos three] at spelled
    cases spelled with
    | short first second third =>
      simp [ofDigits?, doubled?_iff.mpr first, doubled?_iff.mpr second, doubled?_iff.mpr third]
    | solid => simp at three
    | shaded => simp at three
  · rw [if_neg three] at spelled
    rcases zeroed_length ds ▸ spelled_length spelled with short | six | eight
    · exact absurd short three
    · match ds, six with
      | [r, r', g, g', b, b'], _ =>
        cases spelled with
        | solid first second third =>
          simp [ofDigits?, channel?_iff.mpr first, channel?_iff.mpr second, channel?_iff.mpr third]
    · match ds, eight with
      | [r, r', g, g', b, b', a, a'], _ =>
        cases spelled with
        | shaded first second third fourth =>
          simp [ofDigits?, channel?_iff.mpr first, channel?_iff.mpr second, channel?_iff.mpr third,
            channel?_iff.mpr fourth]

theorem channel_plain {a b : Char} {byte : UInt8} (h : Channel a b byte) :
    (if a = '+' then '0' else a) = a := by
  obtain ⟨first, -⟩ := h
  split
  · rename_i plus
    exact absurd (plus ▸ first) not_stands_plus
  · rfl

theorem spelled_plain (spelled : Spelled ('#' :: ds) c) : zeroed ds = ds := by
  cases spelled with
  | short first => simp only [zeroed, channel_plain first]
  | solid first second third =>
    simp only [zeroed, channel_plain first, channel_plain second, channel_plain third]
  | shaded first second third fourth =>
    simp only [zeroed, channel_plain first, channel_plain second, channel_plain third,
      channel_plain fourth]

theorem spelled_head (spelled : Spelled cs c) : ∃ ds, cs = '#' :: ds := by
  cases spelled <;> exact ⟨_, rfl⟩

theorem not_spelled_of_signed {other : Color} (signed : Signed cs c) : ¬ Spelled cs other := by
  obtain ⟨body, rfl, -, changed, -⟩ := signed
  intro spelled
  exact changed (spelled_plain spelled)

theorem parse?_iff (s : String) : parse? s = some c ↔
    Spelled (Text.trim s.toList) c ∨ Signed (Text.trim s.toList) c := by
  rw [parse?]
  generalize Text.trim s.toList = cs
  split
  · rename_i ds
    constructor
    · intro read
      have spelled := ofDigits?_spelled read
      split at spelled
      · exact .inl spelled
      · rename_i long
        by_cases same : zeroed ds = ds
        · exact .inl (same ▸ spelled)
        · exact .inr ⟨ds, rfl, long, same, spelled⟩
    · rintro (spelled | ⟨body, eq, long, -, spelled⟩)
      · apply spelled_ofDigits?
        rwa [spelled_plain spelled, ite_self]
      · cases eq
        apply spelled_ofDigits?
        rwa [if_neg long]
  · rename_i unmarked
    constructor
    · nofun
    · rintro (spelled | ⟨body, eq, -⟩)
      · obtain ⟨ds, eq⟩ := spelled_head spelled
        exact absurd eq (unmarked ds)
      · exact absurd eq (unmarked body)

theorem channel_digits {a b : Char} {byte : UInt8} (h : Channel a b byte) :
    (∃ n, Stands a n) ∧ ∃ n, Stands b n := by
  obtain ⟨first, second⟩ := h
  exact ⟨⟨_, first⟩, ⟨_, second⟩⟩

/-- What is spelled is a number sign and three, six or eight digits. -/
theorem spelled_iff : (∃ c, Spelled cs c) ↔
    ∃ ds, cs = '#' :: ds ∧ (ds.length = 3 ∨ ds.length = 6 ∨ ds.length = 8) ∧
      ∀ d ∈ ds, ∃ n, Stands d n := by
  constructor
  · rintro ⟨c, spelled⟩
    obtain ⟨ds, rfl⟩ := spelled_head spelled
    refine ⟨ds, rfl, spelled_length spelled, ?_⟩
    cases spelled with
    | short first second third =>
      simp [channel_digits first, channel_digits second, channel_digits third]
    | solid first second third =>
      simp [channel_digits first, channel_digits second, channel_digits third]
    | shaded first second third fourth =>
      simp [channel_digits first, channel_digits second, channel_digits third,
        channel_digits fourth]
  · rintro ⟨ds, rfl, three | six | eight, digits⟩
    · match ds, three with
      | [r, g, b], _ =>
        simp only [List.forall_mem_cons] at digits
        obtain ⟨⟨_, first⟩, ⟨_, second⟩, ⟨_, third⟩, -⟩ := digits
        exact ⟨_, .short (.digits first first) (.digits second second) (.digits third third)⟩
    · match ds, six with
      | [r, r', g, g', b, b'], _ =>
        simp only [List.forall_mem_cons] at digits
        obtain ⟨⟨_, r⟩, ⟨_, r'⟩, ⟨_, g⟩, ⟨_, g'⟩, ⟨_, b⟩, ⟨_, b'⟩, -⟩ := digits
        exact ⟨_, .solid (.digits r r') (.digits g g') (.digits b b')⟩
    · match ds, eight with
      | [r, r', g, g', b, b', a, a'], _ =>
        simp only [List.forall_mem_cons] at digits
        obtain ⟨⟨_, r⟩, ⟨_, r'⟩, ⟨_, g⟩, ⟨_, g'⟩, ⟨_, b⟩, ⟨_, b'⟩, ⟨_, a⟩, ⟨_, a'⟩, -⟩ := digits
        exact ⟨_, .shaded (.digits r r') (.digits g g') (.digits b b') (.digits a a')⟩

theorem stands_hexDigit : ∀ n < 16, Stands (Json.hexDigit n) n := by decide

theorem hexDigit_visible : ∀ n < 16, Text.isBlank (Json.hexDigit n) = false := by decide

theorem hexByte_channel (byte : UInt8) :
    Channel (Json.hexDigit (byte.toNat / 16)) (Json.hexDigit (byte.toNat % 16)) byte := by
  have small := byte.toNat_lt
  rw [channel_iff]
  refine ⟨_, _, stands_hexDigit _ (by omega), stands_hexDigit _ (by omega), ?_⟩
  rw [Nat.div_add_mod']
  exact UInt8.ofNat_toNat

theorem hexByte_visible (byte : UInt8) : ∀ d ∈ hexByte byte, Text.isBlank d = false := by
  have small := byte.toNat_lt
  simp only [hexByte, List.forall_mem_cons]
  exact ⟨hexDigit_visible _ (by omega), hexDigit_visible _ (by omega), by simp⟩

/-- Two digits a channel spell the colour they are written for. -/
theorem hex_spelled (c : Color) : Spelled (Text.trim ("#" ++ c.hex).toList) c := by
  have written : ("#" ++ c.hex).toList = '#' :: c.channels.flatMap hexByte := by
    simp [hex]
  have visible : ∀ d ∈ '#' :: c.channels.flatMap hexByte, Text.isBlank d = false := by
    rw [List.forall_mem_cons]
    refine ⟨by decide, ?_⟩
    intro d member
    obtain ⟨byte, -, inside⟩ := List.mem_flatMap.mp member
    exact hexByte_visible byte d inside
  rw [written, Text.trim_plain visible]
  exact .shaded (hexByte_channel _) (hexByte_channel _) (hexByte_channel _) (hexByte_channel _)

/-- A colour is read from every text whose inside is a number sign and three, six or eight digits,
with the channels that these stand for, and what is written is read back. The grammar gives the
whole of what is read from a text exactly when no plus sign stands in it for a nought. -/
theorem parse_follows_grammar_iff (s : String) :
    ((∀ c, parse? s = some c ↔ Spelled (Text.trim s.toList) c) ↔
        ∀ c, ¬ Signed (Text.trim s.toList) c) ∧
      (∀ c, Spelled (Text.trim s.toList) c → parse? s = some c) ∧
      ((∃ c, Spelled (Text.trim s.toList) c) ↔
        ∃ ds, Text.trim s.toList = '#' :: ds ∧ (ds.length = 3 ∨ ds.length = 6 ∨ ds.length = 8) ∧
          ∀ d ∈ ds, ∃ n, Stands d n) ∧
      ∀ c : Color, parse? ("#" ++ c.hex) = some c := by
  refine ⟨?_, fun c spelled => (parse?_iff s).mpr (.inl spelled), spelled_iff, ?_⟩
  · constructor
    · intro exactly c signed
      exact not_spelled_of_signed signed ((exactly c).mp ((parse?_iff s).mpr (.inr signed)))
    · intro unsigned c
      rw [parse?_iff]
      exact or_iff_left (unsigned c)
  · intro c
    exact (parse?_iff _).mpr (.inl (hex_spelled c))

/-- Plus signs before the digits of three channels, and a colour is read that nothing spells. -/
theorem signed_color_read :
    parse? "#+f+f+f" = some ⟨15, 15, 15, 255⟩ ∧
      ¬ ∃ c, Spelled (Text.trim "#+f+f+f".toList) c := by
  refine ⟨by decide, ?_⟩
  rw [spelled_iff]
  rintro ⟨ds, eq, -, digits⟩
  rw [show Text.trim "#+f+f+f".toList = ['#', '+', 'f', '+', 'f', '+', 'f'] by decide] at eq
  cases eq
  obtain ⟨_, stands⟩ := digits '+' (by simp)
  exact not_stands_plus stands

end Spellings

end Montage.Color
