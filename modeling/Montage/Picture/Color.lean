import Montage.Json.Value
import Montage.Text.Blank

/- Eight-bit colours and their hexadecimal spellings. -/
namespace Montage

structure Color where
  red : UInt8
  green : UInt8
  blue : UInt8
  alpha : UInt8
  deriving DecidableEq, Repr, Inhabited

namespace Color

def white : Color := ⟨255, 255, 255, 255⟩
def black : Color := ⟨0, 0, 0, 255⟩
def clear : Color := ⟨0, 0, 0, 0⟩

def digit? (c : Char) : Option Nat :=
  if '0' ≤ c ∧ c ≤ '9' then some (c.toNat - 48)
  else if 'a' ≤ c ∧ c ≤ 'f' then some (c.toNat - 87)
  else if 'A' ≤ c ∧ c ≤ 'F' then some (c.toNat - 55)
  else none

/-- A single digit stands for itself twice. -/
def doubled? (c : Char) : Option UInt8 := (digit? c).map fun d => (d * 17).toUInt8

/-- A channel in two places: two digits, or one digit with a plus sign before it. -/
def channel? (a b : Char) : Option UInt8 := do
  let low ← digit? b
  if a = '+' then return low.toUInt8
  else return ((← digit? a) * 16 + low).toUInt8

def ofDigits? : List Char → Option Color
  | [r, g, b] => do return ⟨← doubled? r, ← doubled? g, ← doubled? b, 255⟩
  | [r, r', g, g', b, b'] => do
    return ⟨← channel? r r', ← channel? g g', ← channel? b b', 255⟩
  | [r, r', g, g', b, b', a, a'] => do
    return ⟨← channel? r r', ← channel? g g', ← channel? b b', ← channel? a a'⟩
  | _ => none

/-- A number sign and three, six or eight places, with blanks around. -/
def parse? (s : String) : Option Color :=
  match Text.trim s.toList with
  | '#' :: ds => ofDigits? ds
  | _ => none

def channels (c : Color) : List UInt8 := [c.red, c.green, c.blue, c.alpha]

def hexByte (b : UInt8) : List Char :=
  [Json.hexDigit (b.toNat / 16), Json.hexDigit (b.toNat % 16)]

/-- Eight digits, two a channel. -/
def hex (c : Color) : String := String.ofList (c.channels.flatMap hexByte)

end Color
end Montage
