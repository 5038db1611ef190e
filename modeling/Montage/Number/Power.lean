/- Powers of the two bases that numbers are stored and written in, and how many values a
   word of so many bits has. -/
namespace Montage

def twoTo (n : Nat) : Nat := Nat.pow 2 n
def tenTo (n : Nat) : Nat := Nat.pow 10 n

/-- Bounds of whole numbers in words of so many bits. -/
def unsignedMax (bits : Nat) : Int := twoTo bits - 1
def signedMin (bits : Nat) : Int := -(twoTo (bits - 1) : Int)
def signedMax (bits : Nat) : Int := twoTo (bits - 1) - 1

end Montage
