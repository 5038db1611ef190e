import Montage.Number.Style

/- Structured documents: values, their two written layouts, and their sorted form. -/
namespace Montage.Json

inductive Value where
  | null
  | boolean (b : Bool)
  | integer (n : Int)
  | number (x : Float)
  /-- A coarse number, such as an audio peak. -/
  | sample (x : Float32)
  | text (s : String)
  | list (items : List Value)
  | object (fields : List (String × Value))
  deriving Inhabited

/-- Where line breaks and blanks go. -/
structure Spacing where
  breakAt : Nat → List Char
  colon : List Char

def Spacing.compact : Spacing := ⟨fun _ => [], [':']⟩
def Spacing.indented : Spacing :=
  ⟨fun level => '\n' :: List.replicate (2 * level) ' ', [':', ' ']⟩

def hexDigit (n : Nat) : Char :=
  if n < 10 then Char.ofNat (48 + n) else Char.ofNat (87 + n)

/-- What stands for a character inside quotes. -/
def escapeChar (c : Char) : List Char :=
  if c = '"' then ['\\', '"']
  else if c = '\\' then ['\\', '\\']
  else if c = '\x08' then ['\\', 'b']
  else if c = '\x0c' then ['\\', 'f']
  else if c = '\n' then ['\\', 'n']
  else if c = '\r' then ['\\', 'r']
  else if c = '\t' then ['\\', 't']
  else if c.toNat < 0x20 then
    ['\\', 'u', '0', '0', hexDigit (c.toNat / 16), hexDigit (c.toNat % 16)]
  else [c]

def quote (s : String) : List Char := '"' :: (s.toList.flatMap escapeChar ++ ['"'])

/-- Numbers without a finite value are written as null. -/
def writeNumber (x : Float) : List Char :=
  if x.isFinite then NumberStyle.document.ofBits .double x.toBits.toNat
  else ['n', 'u', 'l', 'l']

def writeSample (x : Float32) : List Char :=
  if x.isFinite then NumberStyle.documentSingle.ofBits .single x.toBits.toNat
  else ['n', 'u', 'l', 'l']

def writeInteger (n : Int) : List Char :=
  if n < 0 then '-' :: Nat.toDigits 10 n.natAbs else Nat.toDigits 10 n.natAbs

namespace Value

mutual

def write (sp : Spacing) (level : Nat) : Value → List Char
  | .null => ['n', 'u', 'l', 'l']
  | .boolean true => ['t', 'r', 'u', 'e']
  | .boolean false => ['f', 'a', 'l', 's', 'e']
  | .integer n => writeInteger n
  | .number x => writeNumber x
  | .sample x => writeSample x
  | .text s => quote s
  | .list [] => ['[', ']']
  | .list (v :: vs) =>
    '[' :: (sp.breakAt (level + 1) ++ write sp (level + 1) v ++ writeItems sp level vs)
  | .object [] => ['\x7b', '\x7d']
  | .object ((k, v) :: fs) =>
    '\x7b' :: (sp.breakAt (level + 1) ++ quote k ++ sp.colon ++ write sp (level + 1) v ++
      writeFields sp level fs)

/-- Items after the first, and the closing bracket. -/
def writeItems (sp : Spacing) (level : Nat) : List Value → List Char
  | [] => sp.breakAt level ++ [']']
  | v :: vs => ',' :: (sp.breakAt (level + 1) ++ write sp (level + 1) v ++ writeItems sp level vs)

def writeFields (sp : Spacing) (level : Nat) : List (String × Value) → List Char
  | [] => sp.breakAt level ++ ['\x7d']
  | (k, v) :: fs =>
    ',' :: (sp.breakAt (level + 1) ++ quote k ++ sp.colon ++ write sp (level + 1) v ++
      writeFields sp level fs)

end

def compact (v : Value) : String := String.ofList (v.write .compact 0)
def indented (v : Value) : String := String.ofList (v.write .indented 0)

/-- Keeps the last field of each name. -/
def lastOfEach (fs : List (String × Value)) : List (String × Value) :=
  fs.foldr (fun f kept => if kept.any (fun k => k.1 == f.1) then kept else f :: kept) []

mutual

/-- Fields in order of their names, one of each. -/
def sorted : Value → Value
  | .list vs => .list (sortedItems vs)
  | .object fs =>
    .object ((lastOfEach (sortedFields fs)).mergeSort fun a b => decide (a.1 ≤ b.1))
  | v => v

def sortedItems : List Value → List Value
  | [] => []
  | v :: vs => sorted v :: sortedItems vs

def sortedFields : List (String × Value) → List (String × Value)
  | [] => []
  | (k, v) :: fs => (k, sorted v) :: sortedFields fs

end

def field? : Value → String → Option Value
  | .object fs, key => (fs.find? fun f => f.1 == key).map (·.2)
  | _, _ => none

end Value
end Montage.Json
