/- Bytes as text. Decoding reports the first sequence that is not a character, or
   replaces each such sequence by one mark. -/
namespace Montage

abbrev Bytes := List UInt8

namespace Utf8

inductive Fault where
  /-- Bytes that begin no character, at an index. -/
  | invalid (length index : Nat)
  /-- The text stops inside a character. -/
  | incomplete (index : Nat)
  deriving DecidableEq, Repr

def Fault.message : Fault → String
  | .invalid n i => "invalid utf-8 sequence of " ++ toString n ++ " bytes from index " ++ toString i
  | .incomplete i => "incomplete utf-8 byte sequence from index " ++ toString i

/-- The first character, the bytes that are none, or the end. -/
inductive Piece where
  | char (c : Char) (rest : Bytes)
  | bad (length : Nat) (rest : Bytes)
  | cut
  | done

def isTail (b : UInt8) : Bool := b.toNat / 64 == 2

def low (b : UInt8) (size : Nat) : Nat := b.toNat % size

def three (a b c : UInt8) : Char := Char.ofNat (low a 16 * 4096 + low b 64 * 64 + low c 64)

def four (a b c d : UInt8) : Char :=
  Char.ofNat (low a 8 * 262144 + low b 64 * 4096 + low c 64 * 64 + low d 64)

/-- Which second bytes may follow a first byte of three. -/
def secondOfThree (a b : UInt8) : Bool :=
  if a = 0xe0 then decide (0xa0 ≤ b) && decide (b ≤ 0xbf)
  else if a = 0xed then decide (0x80 ≤ b) && decide (b ≤ 0x9f)
  else isTail b

def secondOfFour (a b : UInt8) : Bool :=
  if a = 0xf0 then decide (0x90 ≤ b) && decide (b ≤ 0xbf)
  else if a = 0xf4 then decide (0x80 ≤ b) && decide (b ≤ 0x8f)
  else isTail b

def next : Bytes → Piece
  | [] => .done
  | a :: r =>
    if a < 0x80 then .char (Char.ofNat a.toNat) r
    else if a < 0xc2 ∨ 0xf4 < a then .bad 1 r
    else if a < 0xe0 then
      match r with
      | [] => .cut
      | b :: r' => if isTail b then .char (Char.ofNat (low a 32 * 64 + low b 64)) r' else .bad 1 r
    else if a < 0xf0 then
      match r with
      | [] => .cut
      | b :: r' =>
        if secondOfThree a b then
          match r' with
          | [] => .cut
          | c :: r'' => if isTail c then .char (three a b c) r'' else .bad 2 r'
        else .bad 1 r
    else
      match r with
      | [] => .cut
      | b :: r' =>
        if secondOfFour a b then
          match r' with
          | [] => .cut
          | c :: r'' =>
            if isTail c then
              match r'' with
              | [] => .cut
              | d :: r''' => if isTail d then .char (four a b c d) r''' else .bad 3 r''
            else .bad 2 r'
        else .bad 1 r

def decodeFuel : Nat → Nat → Bytes → Except Fault (List Char)
  | 0, _, _ => .ok []
  | fuel + 1, index, bs =>
    match next bs with
    | .done => .ok []
    | .cut => .error (.incomplete index)
    | .bad n _ => .error (.invalid n index)
    | .char c r => (decodeFuel fuel (index + (bs.length - r.length)) r).map (c :: ·)

def decode (bs : Bytes) : Except Fault String :=
  (decodeFuel (bs.length + 1) 0 bs).map String.ofList

def lossyFuel (mark : Char) : Nat → Bytes → List Char
  | 0, _ => []
  | fuel + 1, bs =>
    match next bs with
    | .done => []
    | .cut => [mark]
    | .bad _ r => mark :: lossyFuel mark fuel r
    | .char c r => c :: lossyFuel mark fuel r

/-- Each sequence that is no character becomes one mark. -/
def decodeLossy (mark : Char) (bs : Bytes) : String :=
  String.ofList (lossyFuel mark (bs.length + 1) bs)

def replacement : Char := Char.ofNat 0xfffd

def encode (s : String) : Bytes := s.toList.flatMap String.utf8EncodeChar

end Utf8
end Montage
