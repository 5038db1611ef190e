import Montage.Json.Reader
import Montage.Number.Power
import Montage.Text.Utf8

/- A codec reads a domain value from text, takes it from a document value, and writes
   it. Records are built from named fields, in the order in which they are written. -/
namespace Montage.Json

structure Codec (α : Type) where
  read : Reader α
  ofValue : Value → Except Fault α
  toValue : α → Value

namespace Codec

/-- A plain value: only the head of the text decides whether it is one. -/
def plain {α : Type} (starts : Char → Bool) (expected : String)
    (ofValue : Value → Except Fault α) (toValue : α → Value) : Codec α where
  read _ cs :=
    match skipBlanks cs with
    | [] => .error .endedInValue
    | c :: r =>
      if starts c then do
        let (v, r) ← readValue 1 (c :: r)
        let x ← ofValue v
        return (x, r)
      else mismatch expected (c :: r)
  ofValue := ofValue
  toValue := toValue

def startsNumber (c : Char) : Bool := c = '-' || c.isDigit

def wrongType {α : Type} (expected : String) (v : Value) : Except Fault α :=
  .error (.invalidType (.ofValue v) expected)

/-- Whole numbers stand for themselves. -/
def double : Codec Float :=
  plain startsNumber "f64"
    (fun v => match v with
      | .number x => .ok x
      | .integer n => .ok (Float.ofInt n)
      | v => wrongType "f64" v)
    .number

def single : Codec Float32 :=
  plain startsNumber "f32"
    (fun v => match v with
      | .number x => .ok (nearestSingle x)
      | .integer n => .ok (Float32.ofInt n)
      | v => wrongType "f32" v)
    .sample

/-- Unsigned whole numbers of a given width. -/
def natural (bits : Nat) (name : String) : Codec Nat :=
  plain startsNumber name
    (fun v => match v with
      | .integer n =>
        if 0 ≤ n ∧ n ≤ unsignedMax bits then .ok n.toNat else .error (.invalidValue (.integer n) name)
      | v => wrongType name v)
    (fun n => .integer n)

/-- Signed whole numbers of a given width. -/
def signed (bits : Nat) (name : String) : Codec Int :=
  plain startsNumber name
    (fun v => match v with
      | .integer n =>
        if signedMin bits ≤ n ∧ n ≤ signedMax bits then .ok n
        else .error (.invalidValue (.integer n) name)
      | v => wrongType name v)
    .integer

def boolean : Codec Bool :=
  plain (fun c => c = 't' || c = 'f') "a boolean"
    (fun v => match v with
      | .boolean b => .ok b
      | v => wrongType "a boolean" v)
    .boolean

def textAs (expected : String) : Codec String :=
  plain (fun c => c = '"') expected
    (fun v => match v with
      | .text s => .ok s
      | v => wrongType expected v)
    .text

def text : Codec String := textAs "a string"

def any : Codec Value where
  read depth cs := readValue depth cs
  ofValue := .ok
  toValue v := v

/-- Null stands for absence. -/
def option {α : Type} (c : Codec α) : Codec (Option α) where
  read depth cs :=
    match skipBlanks cs with
    | 'n' :: r => do
      let (_, r) ← expectRest ['u', 'l', 'l'] r
      return (none, r)
    | cs => do
      let (x, r) ← c.read depth cs
      return (some x, r)
  ofValue
    | .null => .ok none
    | v => some <$> c.ofValue v
  toValue
    | none => .null
    | some x => c.toValue x

def list {α : Type} (c : Codec α) : Codec (List α) where
  read depth cs :=
    match skipBlanks cs with
    | [] => .error .endedInValue
    | '[' :: r =>
      if depth ≤ 1 then .error .tooDeep else readItems (c.read (depth - 1)) r
    | cs => mismatch "a sequence" cs
  ofValue
    | .list vs => vs.mapM c.ofValue
    | v => wrongType "a sequence" v
  toValue xs := .list (xs.map c.toValue)

/-- The same document under a narrower type. -/
def refine {α β : Type} (c : Codec α) (f : α → Except Fault β) (g : β → α) : Codec β where
  read depth cs := do
    let (x, r) ← c.read depth cs
    let y ← f x
    return (y, r)
  ofValue v := do f (← c.ofValue v)
  toValue x := c.toValue (g x)

/-- The same document under another type. -/
def imap {α β : Type} (c : Codec α) (f : α → β) (g : β → α) : Codec β :=
  c.refine (fun x => .ok (f x)) g

/-! A name out of a fixed list. -/

def nameIndex {α : Type} (table : List (String × α)) (s : String) : Except Fault α :=
  match table.find? fun e => e.1 == s with
  | some e => .ok e.2
  | none => .error (.unknownVariant s (table.map (·.1)))

/-- A name written as a string, where any other kind of value is a type error. -/
def readName {α : Type} (table : List (String × α)) (depth : Nat) (cs : List Char) :
    Except Fault (α × List Char) := do
  let (s, r) ← (textAs "variant identifier").read depth cs
  let x ← nameIndex table s
  return (x, r)

def readUnit (cs : List Char) : Except Fault (Unit × List Char) :=
  match skipBlanks cs with
  | [] => .error .endedInValue
  | 'n' :: r => expectRest ['u', 'l', 'l'] r
  | cs => mismatch "unit" cs

def nameOf {α : Type} [BEq α] (table : List (String × α)) (x : α) : String :=
  ((table.find? fun e => e.2 == x).map (·.1)).getD ""

/-- One of the named values, written as its name; an object with that one key and null is
also read. -/
def choice {α : Type} [BEq α] (table : List (String × α)) : Codec α where
  read depth cs :=
    match skipBlanks cs with
    | [] => .error .endedInValue
    | '"' :: r => readName table depth ('"' :: r)
    | '\x7b' :: r =>
      if depth ≤ 1 then .error .tooDeep
      else do
        let (x, r) ← readName table (depth - 1) r
        let (_, r) ← colon r
        let (_, r) ← readUnit r
        match skipBlanks r with
        | [] => .error .endedInObject
        | '\x7d' :: r => return (x, r)
        | _ => .error .expectedValue
    | _ => .error .expectedValue
  ofValue
    | .text s => nameIndex table s
    | .object [(k, v)] => do
      let x ← nameIndex table k
      match v with
      | .null => return x
      | v => wrongType "unit" v
    | .object _ => .error (.invalidValue .map "map with a single key")
    | v => wrongType "string or map" v
  toValue x := .text (nameOf table x)

end Codec

/-- Named fields of a record. A field may have a value that stands for its absence from an
object, one for its absence from the end of a list, and may be left out of the written form. -/
inductive Fields : Type → Type 1 where
  | done : Fields Unit
  | field {α β : Type} (name : String) (codec : Codec α) (absent short : Option α)
      (hides : α → Bool) (rest : Fields β) : Fields (α × β)

namespace Fields

def required {α β : Type} (name : String) (codec : Codec α) (rest : Fields β) : Fields (α × β) :=
  .field name codec none none (fun _ => false) rest

/-- A field whose absence means a given value. -/
def defaulted {α β : Type} (name : String) (codec : Codec α) (absent : α) (rest : Fields β) :
    Fields (α × β) :=
  .field name codec (some absent) (some absent) (fun _ => false) rest

/-- A field that is absent or null, and left out when it holds nothing. -/
def optional {α β : Type} (name : String) (codec : Codec α) (rest : Fields β) :
    Fields (Option α × β) :=
  .field name codec.option (some none) (some none) Option.isNone rest

/-- A field that is absent from an object or null, and written as null. -/
def nullable {α β : Type} (name : String) (codec : Codec α) (rest : Fields β) :
    Fields (Option α × β) :=
  .field name codec.option (some none) none (fun _ => false) rest

/-- A list that is left out when empty. -/
def listing {α β : Type} (name : String) (codec : Codec α) (rest : Fields β) :
    Fields (List α × β) :=
  .field name codec.list (some []) (some []) List.isEmpty rest

def size : {ρ : Type} → Fields ρ → Nat
  | _, .done => 0
  | _, .field _ _ _ _ _ rest => rest.size + 1

/-- What has been read so far, field by field. -/
@[reducible] def Slots : {ρ : Type} → Fields ρ → Type
  | _, .done => Unit
  | _, @field α _ _ _ _ _ _ rest => Option α × rest.Slots

def noSlots : {ρ : Type} → (fs : Fields ρ) → fs.Slots
  | _, .done => ()
  | _, .field _ _ _ _ _ rest => (none, rest.noSlots)

/-- How the value of a key is read into its slot: none for a key of no field, a fault for a
key that was there before. -/
def slotReader : {ρ : Type} → (fs : Fields ρ) → fs.Slots → String →
    Option (Except Fault (Reader fs.Slots))
  | _, .done, _, _ => none
  | _, .field name codec _ _ _ rest, slots, key =>
    if key = name then
      match slots.1 with
      | some _ => some (.error (.duplicateField name))
      | none => some <| .ok fun depth cs => do
        let (x, r) ← codec.read depth cs
        return ((some x, slots.2), r)
    else (rest.slotReader slots.2 key).map fun found => do
      let reader ← found
      return fun depth cs => do
        let (filled, r) ← reader depth cs
        return ((slots.1, filled), r)

/-- Every field, or its value for absence, in declared order. -/
def collect : {ρ : Type} → (fs : Fields ρ) → fs.Slots → Except Fault ρ
  | _, .done, _ => .ok ()
  | _, .field name _ absent _ _ rest, slots =>
    match slots.1 <|> absent with
    | some x => do return (x, ← rest.collect slots.2)
    | none => .error (.missingField name)

def readKeyedFuel {ρ : Type} (fs : Fields ρ) (depth : Nat) :
    Nat → Bool → fs.Slots → List Char → Except Fault (fs.Slots × List Char)
  | 0, _, _, _ => .error .endedInObject
  | fuel + 1, first, slots, cs => do
    match ← nextKey first cs with
    | (false, r) => return (slots, r)
    | (true, r) =>
      let (key, r) ← readString r
      match fs.slotReader slots key with
      | some found =>
        let reader ← found
        let (_, r) ← colon r
        let (slots, r) ← reader depth r
        readKeyedFuel fs depth fuel false slots r
      | none =>
        let (_, r) ← colon r
        let (_, r) ← skipValue r
        readKeyedFuel fs depth fuel false slots r

/-- A record written as an object, after its opening brace. -/
def readKeyed {ρ : Type} (fs : Fields ρ) (depth : Nat) (cs : List Char) :
    Except Fault (ρ × List Char) := do
  let (slots, r) ← readKeyedFuel fs depth (cs.length + 1) true fs.noSlots cs
  let x ← fs.collect slots
  return (x, r)

/-- A record written as a list of its fields in order; missing ones at the end may have a value
for absence. -/
def readPositional (whole : String) : {ρ : Type} → (fs : Fields ρ) → Nat → Nat → Bool → List Char →
    Except Fault (ρ × List Char)
  | _, .done, _, _, _, cs => .ok ((), cs)
  | _, .field _ codec _ short _ rest, position, depth, ended, cs => do
    let (more, r) ← if ended then .ok (false, cs) else nextElement (position == 0) cs
    if more then
      let (x, r) ← codec.read depth r
      let (xs, r) ← readPositional whole rest (position + 1) depth false r
      return ((x, xs), r)
    else
      match short with
      | some x =>
        let (xs, r) ← readPositional whole rest (position + 1) depth true r
        return ((x, xs), r)
      | none => .error (.invalidLength position whole)
where
  /-- Like nextItem, but the closing bracket is left in place. -/
  nextElement (first : Bool) (cs : List Char) : Except Fault (Bool × List Char) := do
    match ← nextItem first cs with
    | (false, _) => return (false, skipBlanks cs)
    | (true, r) => return (true, r)

/-- Converts known entries in the order in which they stand. -/
def convertEntry : {ρ : Type} → (fs : Fields ρ) → fs.Slots → String × Value →
    Except Fault fs.Slots
  | _, .done, slots, _ => .ok slots
  | _, .field name codec _ _ _ rest, slots, (key, v) =>
    if key = name then
      match slots.1 with
      | some _ => .error (.duplicateField name)
      | none => do return (some (← codec.ofValue v), slots.2)
    else do return (slots.1, ← rest.convertEntry slots.2 (key, v))

def ofEntries {ρ : Type} (fs : Fields ρ) (entries : List (String × Value)) : Except Fault ρ := do
  fs.collect (← entries.foldlM fs.convertEntry fs.noSlots)

def ofItems (whole : String) : {ρ : Type} → (fs : Fields ρ) → Nat → List Value →
    Except Fault (ρ × List Value)
  | _, .done, _, vs => .ok ((), vs)
  | _, .field _ codec _ _ _ rest, position, v :: vs => do
    let x ← codec.ofValue v
    let (xs, left) ← ofItems whole rest (position + 1) vs
    return ((x, xs), left)
  | _, .field _ _ _ short _ rest, position, [] =>
    match short with
    | some x => do
      let (xs, left) ← ofItems whole rest (position + 1) []
      return ((x, xs), left)
    | none => .error (.invalidLength position whole)

def toEntries : {ρ : Type} → (fs : Fields ρ) → ρ → List (String × Value)
  | _, .done, _ => []
  | _, .field name codec _ _ hides rest, (x, xs) =>
    if hides x then rest.toEntries xs else (name, codec.toValue x) :: rest.toEntries xs

end Fields

def counted (n : Nat) : String := toString n ++ (if n = 1 then " element" else " elements")

/-- A record under a name, written as an object. -/
def Codec.record {ρ : Type} (name : String) (fs : Fields ρ) : Codec ρ where
  read depth cs :=
    let whole := "struct " ++ name
    match skipBlanks cs with
    | [] => .error .endedInValue
    | '[' :: r =>
      if depth ≤ 1 then .error .tooDeep
      else do
        let (x, r) ← fs.readPositional (whole ++ " with " ++ counted fs.size) 0 (depth - 1) false r
        let (_, r) ← closeList r
        return (x, r)
    | '\x7b' :: r => if depth ≤ 1 then .error .tooDeep else fs.readKeyed (depth - 1) r
    | cs => mismatch whole cs
  ofValue
    | .object entries => fs.ofEntries entries
    | .list vs => do
      let (x, left) ← fs.ofItems ("struct " ++ name ++ " with " ++ counted fs.size) 0 vs
      if left.isEmpty then return x
      else .error (.invalidLength vs.length "fewer elements in array")
    | v => Codec.wrongType ("struct " ++ name) v
  toValue x := .object (fs.toEntries x)

def Codec.parse {α : Type} (c : Codec α) (text : String) : Except Fault α :=
  readWhole c.read depthLimit text

/-- Reads a whole text from its bytes. What is passed over need not be text; what is kept does. -/
def Codec.parseBytes {α : Type} (c : Codec α) (bytes : Bytes) : Except Fault α :=
  match Utf8.decode bytes with
  | .ok text => c.parse text
  | .error _ => do
    let x ← c.parse (Utf8.decodeLossy Utf8.replacement bytes)
    if (c.toValue x).compact.toList.contains Utf8.replacement then .error .notText else .ok x

end Montage.Json
