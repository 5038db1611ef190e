import Montage.Json.Fault
import Montage.Number.Scaled

/- Reading text in order: each step takes what it needs from the front and the first
   problem met is the one reported. A value that nobody keeps is stepped over with a
   laxer grammar at any depth; a kept one may nest only so deep. -/
namespace Montage.Json

/-- A reader is told how many brackets may still open; it gives what it read and the rest. -/
abbrev Reader (α : Type) := Nat → List Char → Except Fault (α × List Char)

/-- Brackets that may be open at once, and one. -/
def depthLimit : Nat := 128

def isBlank (c : Char) : Bool := c = ' ' || c = '\t' || c = '\n' || c = '\r'

def skipBlanks (cs : List Char) : List Char := cs.dropWhile isBlank

def expectRest : List Char → List Char → Except Fault (Unit × List Char)
  | [], cs => .ok ((), cs)
  | _ :: _, [] => .error .endedInValue
  | e :: es, c :: cs => if c = e then expectRest es cs else .error .expectedIdentifier

def hexValue? (c : Char) : Option Nat :=
  if c.isDigit then some (c.toNat - 48)
  else if 'a' ≤ c ∧ c ≤ 'f' then some (c.toNat - 87)
  else if 'A' ≤ c ∧ c ≤ 'F' then some (c.toNat - 55)
  else none

def hexUnit? (a b c d : Char) : Option Nat := do
  let a ← hexValue? a
  let b ← hexValue? b
  let c ← hexValue? c
  let d ← hexValue? d
  return ((a * 16 + b) * 16 + c) * 16 + d

def utf8Length (cs : List Char) : Nat := cs.foldl (fun n c => n + c.utf8Size) 0

/-- The four digits of an escape; fewer than four bytes left is an early end. -/
def hexEscape : List Char → Except Fault (Nat × List Char)
  | a :: b :: c :: d :: r =>
    match hexUnit? a b c d with
    | some n => .ok (n, r)
    | none => .error .invalidEscape
  | cs => .error (if utf8Length cs < 4 then .endedInString else .invalidEscape)

def isLeading (n : Nat) : Bool := decide (0xd800 ≤ n) && decide (n ≤ 0xdbff)
def isTrailing (n : Nat) : Bool := decide (0xdc00 ≤ n) && decide (n ≤ 0xdfff)

/-- A code unit escape, or two that form a pair. -/
def unitEscape (cs : List Char) : Except Fault (Char × List Char) := do
  let (n, cs) ← hexEscape cs
  if isTrailing n then .error .loneSurrogate
  else if isLeading n then
    match cs with
    | [] => .error .endedInString
    | '\\' :: [] => .error .endedInString
    | '\\' :: 'u' :: r =>
      let (m, r) ← hexEscape r
      if isTrailing m then
        .ok (Char.ofNat (0x10000 + (n - 0xd800) * 0x400 + (m - 0xdc00)), r)
      else .error .loneSurrogate
    | _ => .error .cutSurrogate
  else .ok (Char.ofNat n, cs)

def simpleEscape? (c : Char) : Option Char :=
  if c = '"' then some '"'
  else if c = '\\' then some '\\'
  else if c = '/' then some '/'
  else if c = 'b' then some '\x08'
  else if c = 'f' then some '\x0c'
  else if c = 'n' then some '\n'
  else if c = 'r' then some '\r'
  else if c = 't' then some '\t'
  else none

/-- One character of a string, or none at the closing quote. -/
def nextChar : List Char → Except Fault (Option Char × List Char)
  | [] => .error .endedInString
  | '"' :: r => .ok (none, r)
  | '\\' :: [] => .error .endedInString
  | '\\' :: 'u' :: r => do
    let (c, r) ← unitEscape r
    return (some c, r)
  | '\\' :: c :: r =>
    match simpleEscape? c with
    | some e => .ok (some e, r)
    | none => .error .invalidEscape
  | c :: r => if c.toNat < 0x20 then .error .controlCharacter else .ok (some c, r)

def readCharsFuel : Nat → List Char → Except Fault (List Char × List Char)
  | 0, _ => .error .endedInString
  | fuel + 1, cs => do
    match ← nextChar cs with
    | (none, r) => return ([], r)
    | (some c, r) =>
      let (more, r) ← readCharsFuel fuel r
      return (c :: more, r)

/-- The rest of a string whose opening quote has been taken. -/
def readString (cs : List Char) : Except Fault (String × List Char) := do
  let (chars, r) ← readCharsFuel (cs.length + 1) cs
  return (String.ofList chars, r)

/-- Steps over a string that is not kept: pairs of escapes are not checked. -/
def skipStringFuel : Nat → List Char → Except Fault (Unit × List Char)
  | 0, _ => .error .endedInString
  | fuel + 1, cs =>
    match cs with
    | [] => .error .endedInString
    | '"' :: r => .ok ((), r)
    | '\\' :: [] => .error .endedInString
    | '\\' :: 'u' :: r => do
      let (_, r) ← hexEscape r
      skipStringFuel fuel r
    | '\\' :: c :: r => if (simpleEscape? c).isSome then skipStringFuel fuel r else .error .invalidEscape
    | c :: r => if c.toNat < 0x20 then .error .controlCharacter else skipStringFuel fuel r

def skipString (cs : List Char) : Except Fault (Unit × List Char) := skipStringFuel (cs.length + 1) cs

/-- A number of a document as it is written. -/
structure NumberText where
  negative : Bool
  /-- Digits before the point. -/
  whole : List Char
  /-- Digits after it. -/
  places : List Char
  exponent : Int
  /-- Written without a point and a power of ten. -/
  plain : Bool

/-- Digits that must be there. -/
def someDigits (cs : List Char) : Except Fault (List Char × List Char) :=
  match splitDigits cs with
  | ([], []) => .error .endedInValue
  | ([], _) => .error .invalidNumber
  | (ds, r) => .ok (ds, r)

def exponentDigits (cs : List Char) : Except Fault (Int × List Char) :=
  match cs with
  | '-' :: r => do
    let (ds, r) ← someDigits r
    return (-(digitsValue ds : Int), r)
  | '+' :: r => do
    let (ds, r) ← someDigits r
    return ((digitsValue ds : Int), r)
  | r => do
    let (ds, r) ← someDigits r
    return ((digitsValue ds : Int), r)

def exponentPart (n : NumberText) : List Char → Except Fault (NumberText × List Char)
  | [] => .ok (n, [])
  | c :: r =>
    if isExponentMark c then do
      let (e, r) ← exponentDigits r
      return ({ n with exponent := e, plain := false }, r)
    else .ok (n, c :: r)

def fractionPart (negative : Bool) (ds : List Char) : List Char → Except Fault (NumberText × List Char)
  | '.' :: r => do
    let (fs, r) ← someDigits r
    exponentPart ⟨negative, ds, fs, 0, false⟩ r
  | cs => exponentPart ⟨negative, ds, [], 0, true⟩ cs

def unsignedNumber (negative : Bool) : List Char → Except Fault (NumberText × List Char)
  | [] => .error .endedInValue
  | '0' :: r =>
    if (r.head?.map Char.isDigit).getD false then .error .invalidNumber
    else fractionPart negative ['0'] r
  | c :: r =>
    if c.isDigit then
      let (ds, r) := splitDigits (c :: r)
      fractionPart negative ds r
    else .error .invalidNumber

def readNumberText : List Char → Except Fault (NumberText × List Char)
  | '-' :: r => unsignedNumber true r
  | cs => unsignedNumber false cs

def largestUnsigned : Nat := twoTo 64 - 1
def largestNegative : Nat := twoTo 63

/-- Whole numbers that fit 64 bits stay whole; negative zero is a number with a point. -/
def NumberText.toValue (n : NumberText) : Except Fault Value :=
  let m := digitsValue n.whole
  if n.plain ∧ ¬ n.negative ∧ m ≤ largestUnsigned then .ok (.integer m)
  else if n.plain ∧ n.negative ∧ m ≠ 0 ∧ m ≤ largestNegative then .ok (.integer (-(m : Int)))
  else
    match (Scaled.ofDigits n.whole n.places n.exponent).value? with
    | some x => .ok (.number (if n.negative then -x else x))
    | none => .error .numberOutOfRange

def readNumber (cs : List Char) : Except Fault (Value × List Char) := do
  let (n, r) ← readNumberText cs
  let v ← n.toValue
  return (v, r)

def skipDigits (cs : List Char) : Except Fault (List Char) :=
  match splitDigits cs with
  | ([], _) => .error .invalidNumber
  | (_, r) => .ok r

def skipExponent : List Char → Except Fault (List Char)
  | c :: r =>
    if isExponentMark c then
      match r with
      | '-' :: s => skipDigits s
      | '+' :: s => skipDigits s
      | s => skipDigits s
    else .ok (c :: r)
  | [] => .ok []

def skipFraction : List Char → Except Fault (List Char)
  | '.' :: r => skipDigits r
  | cs => .ok cs

def skipWhole : List Char → Except Fault (List Char)
  | '0' :: r => if (r.head?.map Char.isDigit).getD false then .error .invalidNumber else .ok r
  | cs => skipDigits cs

def skipSign : List Char → List Char
  | '-' :: r => r
  | cs => cs

def skipNumber (cs : List Char) : Except Fault (Unit × List Char) := do
  let r ← skipWhole (skipSign cs)
  let r ← skipFraction r
  let r ← skipExponent r
  return ((), r)

/-- The item that has to stand behind a comma. -/
def itemAfterComma (cs : List Char) : Except Fault (Bool × List Char) :=
  match skipBlanks cs with
  | [] => .error .endedInValue
  | ']' :: _ => .error .trailingComma
  | r => .ok (true, r)

/-- Moves to the next item of a list, or past its end. -/
def nextItem (first : Bool) (cs : List Char) : Except Fault (Bool × List Char) :=
  match skipBlanks cs with
  | [] => .error .endedInList
  | ']' :: r => .ok (false, r)
  | c :: r =>
    if first then .ok (true, c :: r)
    else if c = ',' then itemAfterComma r
    else .error .expectedCommaOrBracket

/-- The key that has to stand behind a comma. -/
def keyAfterComma (cs : List Char) : Except Fault (Bool × List Char) :=
  match skipBlanks cs with
  | [] => .error .endedInValue
  | '"' :: r => .ok (true, r)
  | '\x7d' :: _ => .error .trailingComma
  | _ => .error .keyNotString

/-- Moves past the opening quote of the next key of an object, or past its end. -/
def nextKey (first : Bool) (cs : List Char) : Except Fault (Bool × List Char) :=
  match skipBlanks cs with
  | [] => .error .endedInObject
  | '\x7d' :: r => .ok (false, r)
  | c :: r =>
    if first then
      if c = '"' then .ok (true, r) else .error .keyNotString
    else if c = ',' then keyAfterComma r
    else .error .expectedCommaOrBrace

def colon (cs : List Char) : Except Fault (Unit × List Char) :=
  match skipBlanks cs with
  | [] => .error .endedInObject
  | ':' :: r => .ok ((), r)
  | _ => .error .expectedColon

/-- The end of a list whose wanted items have been read. -/
def closeList (cs : List Char) : Except Fault (Unit × List Char) :=
  match skipBlanks cs with
  | [] => .error .endedInList
  | ']' :: r => .ok ((), r)
  | ',' :: r =>
    match skipBlanks r with
    | ']' :: _ => .error .trailingComma
    | _ => .error .trailingCharacters
  | _ => .error .trailingCharacters

/-- Open brackets around a value that is stepped over. -/
inductive Frame where
  | list
  | object
  deriving DecidableEq, Repr

/-- Steps past the closing brackets that follow a skipped value. -/
def skipClosings : List Frame → Bool → List Char → Except Fault (List Frame × List Char)
  | [], _, cs => .ok ([], cs)
  | f :: fs, afterValue, cs =>
    match skipBlanks cs, f with
    | [], .list => .error .endedInList
    | [], .object => .error .endedInObject
    | ']' :: r, .list => skipClosings fs true r
    | '\x7d' :: r, .object => skipClosings fs true r
    | c :: r, f =>
      if afterValue then
        if c = ',' then .ok (f :: fs, r)
        else match f with
          | .list => .error .expectedCommaOrBracket
          | .object => .error .expectedCommaOrBrace
      else .ok (f :: fs, c :: r)

/-- The key that comes before the next skipped value of an object. -/
def skipKey (cs : List Char) : Except Fault (Unit × List Char) :=
  match skipBlanks cs with
  | [] => .error .endedInObject
  | '"' :: r => do
    let (_, r) ← skipString r
    colon r
  | _ => .error .keyNotString

/-- The start of a skipped value: a whole plain value, or an opening bracket. -/
def skipStart (cs : List Char) : Except Fault (Option Frame × List Char) :=
  match skipBlanks cs with
  | [] => .error .endedInValue
  | 'n' :: r => do let (_, r) ← expectRest ['u', 'l', 'l'] r; return (none, r)
  | 't' :: r => do let (_, r) ← expectRest ['r', 'u', 'e'] r; return (none, r)
  | 'f' :: r => do let (_, r) ← expectRest ['a', 'l', 's', 'e'] r; return (none, r)
  | '"' :: r => do let (_, r) ← skipString r; return (none, r)
  | '[' :: r => .ok (some .list, r)
  | '\x7b' :: r => .ok (some .object, r)
  | c :: r =>
    if c = '-' ∨ c.isDigit then do
      let (_, r) ← skipNumber (c :: r)
      return (none, r)
    else .error .expectedValue

def skipFuel : Nat → List Frame → List Char → Except Fault (Unit × List Char)
  | 0, _, _ => .error .endedInValue
  | fuel + 1, frames, cs => do
    let (opened, r) ← skipStart cs
    let (frames, r) ← match opened with
      | some f => skipClosings (f :: frames) false r
      | none => skipClosings frames true r
    match frames with
    | [] => return ((), r)
    | .list :: _ => skipFuel fuel frames r
    | .object :: _ =>
      let (_, r) ← skipKey r
      skipFuel fuel frames r

/-- Steps over one value of any depth. -/
def skipValue (cs : List Char) : Except Fault (Unit × List Char) := skipFuel (cs.length + 1) [] cs

/-- Items of a list whose opening bracket has been taken. -/
def readItemsFuel {α : Type} (item : List Char → Except Fault (α × List Char)) : Nat → Bool → List Char → Except Fault (List α × List Char)
  | 0, _, _ => .error .endedInList
  | fuel + 1, first, cs => do
    match ← nextItem first cs with
    | (false, r) => return ([], r)
    | (true, r) =>
      let (x, r) ← item r
      let (xs, r) ← readItemsFuel item fuel false r
      return (x :: xs, r)

def readItems {α : Type} (item : List Char → Except Fault (α × List Char)) (cs : List Char) : Except Fault (List α × List Char) :=
  readItemsFuel item (cs.length + 1) true cs

/-- Fields of an object whose opening brace has been taken. -/
def readEntriesFuel {α : Type} (value : List Char → Except Fault (α × List Char)) :
    Nat → Bool → List Char → Except Fault ((List (String × α)) × List Char)
  | 0, _, _ => .error .endedInObject
  | fuel + 1, first, cs => do
    match ← nextKey first cs with
    | (false, r) => return ([], r)
    | (true, r) =>
      let (k, r) ← readString r
      let (_, r) ← colon r
      let (x, r) ← value r
      let (xs, r) ← readEntriesFuel value fuel false r
      return ((k, x) :: xs, r)

def readEntries {α : Type} (value : List Char → Except Fault (α × List Char)) (cs : List Char) :
    Except Fault ((List (String × α)) × List Char) :=
  readEntriesFuel value (cs.length + 1) true cs

/-- A value of any kind, kept whole, fields in written order with repetitions. -/
def readValue : Reader Value
  | 0, _ => .error .tooDeep
  | depth + 1, cs =>
    match skipBlanks cs with
    | [] => .error .endedInValue
    | 'n' :: r => do let (_, r) ← expectRest ['u', 'l', 'l'] r; return (.null, r)
    | 't' :: r => do let (_, r) ← expectRest ['r', 'u', 'e'] r; return (.boolean true, r)
    | 'f' :: r => do let (_, r) ← expectRest ['a', 'l', 's', 'e'] r; return (.boolean false, r)
    | '"' :: r => do let (s, r) ← readString r; return (.text s, r)
    | '[' :: r =>
      if depth = 0 then .error .tooDeep
      else do let (vs, r) ← readItems (readValue depth) r; return (.list vs, r)
    | '\x7b' :: r =>
      if depth = 0 then .error .tooDeep
      else do let (fs, r) ← readEntries (readValue depth) r; return (.object fs, r)
    | c :: r => if c = '-' ∨ c.isDigit then readNumber (c :: r) else .error .expectedValue

/-- Reports what stands here instead of the expected kind; brackets are not looked into. -/
def mismatch {α : Type} (expected : String) (cs : List Char) : Except Fault (α × List Char) :=
  match skipBlanks cs with
  | '[' :: _ => .error (.invalidType .sequence expected)
  | '\x7b' :: _ => .error (.invalidType .map expected)
  | cs => do
    let (v, _) ← readValue 1 cs
    .error (.invalidType (.ofValue v) expected)

/-- One value and nothing after it but blanks. -/
def readWhole {α : Type} (reader : Reader α) (depth : Nat) (text : String) : Except Fault α := do
  let (x, r) ← reader depth text.toList
  match skipBlanks r with
  | [] => return x
  | _ => .error .trailingCharacters

def parse (depth : Nat) (text : String) : Except Fault Value := readWhole readValue depth text

end Montage.Json
