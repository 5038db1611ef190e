import Montage.Text.Invisible

/- Strings shown in diagnostics: quoted, with marks that cannot be seen spelled out. -/
namespace Montage.Text

def hexText (n : Nat) : List Char := Nat.toDigits 16 n

def diagnosticEscape (c : Char) : List Char :=
  if c = '"' then ['\\', '"']
  else if c = '\\' then ['\\', '\\']
  else if c = '\n' then ['\\', 'n']
  else if c = '\r' then ['\\', 'r']
  else if c = '\t' then ['\\', 't']
  else if c.toNat = 0 then ['\\', '0']
  else if c.toNat < 0x20 ∨ c.toNat = 0x7f ∨
      inRanges blankRanges c.toNat ∨ inRanges joiningRanges c.toNat then
    '\\' :: 'u' :: '\x7b' :: (hexText c.toNat ++ ['\x7d'])
  else [c]

def diagnosticQuote (s : String) : String :=
  String.ofList ('"' :: (s.toList.flatMap diagnosticEscape ++ ['"']))

end Montage.Text
