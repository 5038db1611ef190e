import Montage.Number.Bytes
import Montage.Number.Power
import Montage.Sound.SoundFile

/- Wave files, one kind of sound file: chunks in a RIFF container, of which one tells the form of the
   samples and one holds them. -/
namespace Montage.Wave

inductive Coding where
  | unsigned8
  | signed (bytes : Nat)
  | single
  | double
  deriving DecidableEq, Repr

namespace Coding

def width : Coding → Nat
  | .unsigned8 => 1
  | .signed bytes => bytes
  | .single => 4
  | .double => 8

/-- Whole numbers are scaled to lie from minus one to one. -/
def sample (c : Coding) (bytes : Bytes) : Float32 :=
  let n := ofLowBytes bytes
  match c with
  | .unsigned8 => Scalar.ofInt ((n : Int) - 128) / 128
  | .signed width => Scalar.ofInt (signExtend (8 * width) n) / Scalar.ofNat (twoTo (8 * width - 1))
  | .single => Float32.ofBits n.toUInt32
  | .double => (Float.ofBits n.toUInt64).toFloat32

/-- Whole numbers of one to four bytes, and two floating formats. -/
def of? (floating : Bool) (bits : Nat) : Option Coding :=
  match floating, bits with
  | false, 8 => some .unsigned8
  | false, 16 => some (.signed 2)
  | false, 24 => some (.signed 3)
  | false, 32 => some (.signed 4)
  | true, 32 => some .single
  | true, 64 => some .double
  | _, _ => none

end Coding

structure Form where
  shape : StreamShape
  block : Nat
  coding : Coding

/-- A field of a chunk. -/
def field (bytes : Bytes) (start size : Nat) : Nat := ofLowBytes ((bytes.drop start).take size)

/-- Plain numbers, floating numbers, or the extended form that says which of the two. -/
def Form.of? (chunk : Bytes) : Option Form := do
  let tag := field chunk 0 2
  let floating ← if tag = 1 then some false
    else if tag = 3 then some true
    else if tag = 0xFFFE ∧ chunk.length = 40 then
      match field chunk 24 2 with
      | 1 => some false
      | 3 => some true
      | _ => none
    else none
  let channels := field chunk 2 2
  let coding ← Coding.of? floating (field chunk 14 2)
  if (chunk.length = 16 ∨ chunk.length = 18 ∨ chunk.length = 40) ∧ 0 < channels ∧ channels ≤ 32 then
    some ⟨⟨channels, field chunk 4 4⟩, field chunk 12 2, coding⟩
  else none

/-- Whole blocks, as far as the data go. -/
def Form.samples (f : Form) (data : Bytes) : Option (Array Float32) :=
  if f.block = 0 then none
  else
    let count := data.length / f.block * f.shape.channels
    if count * f.coding.width ≤ data.length then some (read count data #[]) else none
where
  read : Nat → Bytes → Array Float32 → Array Float32
    | 0, _, out => out
    | n + 1, bytes, out =>
      read n (bytes.drop f.coding.width) (out.push (f.coding.sample (bytes.take f.coding.width)))

def ascii (s : String) : Bytes := s.toList.map fun c => c.toNat.toUInt8

/-- Length that stands for one that is not known. -/
def endless : Nat := twoTo 32 - 1

/-- Walks through the chunks: how many bytes the container still announces, and the form read so
far. -/
def chunks : Nat → Option Nat → Option Form → Bytes → Option (Sound Float32)
  | 0, _, _, _ => none
  | fuel + 1, left, form, bytes => do
    if left.any fun n => decide (n < 8) then none
    if bytes.length < 8 then none
    let tag := bytes.take 4
    let size := field bytes 4 4
    let rest := bytes.drop 8
    let left := left.map (· - 8)
    if left.any fun n => decide (n < size) then none
    if tag = ascii "data" then
      let form ← form
      let samples ← form.samples (if size = endless then rest else rest.take size)
      some ⟨samples, form.shape⟩
    else
      let form ← if tag = ascii "fmt " then
          if rest.length < size then none else (Form.of? (rest.take size)).map some
        else some form
      let padded := size + size % 2
      chunks fuel (left.map (· - padded)) form (rest.drop padded)

/-- What follows the first marker of a container. -/
def afterMarker : Bytes → Option Bytes
  | [] => none
  | b :: bs => if (ascii "RIFF").isPrefixOf (b :: bs) then some (bs.drop 3) else afterMarker bs

/-- Whatever stands before the container is passed over. -/
def read : SoundReader := fun bytes => do
  let rest ← afterMarker bytes
  if rest.length < 8 ∨ (rest.drop 4).take 4 ≠ ascii "WAVE" then none
  let size := field rest 0 4
  let body := rest.drop 8
  chunks (body.length + 1) (if size = endless then none else some (size - 4)) none body

end Montage.Wave
