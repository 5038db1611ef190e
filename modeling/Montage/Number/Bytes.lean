import Montage.Number.Power

/- Whole numbers as bytes, lowest first. -/
namespace Montage

/-- So many bytes of a number; what does not fit is lost. -/
def lowBytes : Nat → Nat → List UInt8
  | 0, _ => []
  | width + 1, n => (n % 256).toUInt8 :: lowBytes width (n / 256)

def ofLowBytes : List UInt8 → Nat
  | [] => 0
  | b :: bs => b.toNat + 256 * ofLowBytes bs

/-- A number of so many bits as a signed one, its highest bit being the sign. -/
def signExtend (bits n : Nat) : Int := Int.bmod n (twoTo bits)

end Montage
