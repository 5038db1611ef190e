/- Text in columns. Width is counted in characters; what is wider than its column stays
   whole. -/
namespace Montage.Text

def blanks (width : Nat) (s : String) : List Char := List.replicate (width - s.length) ' '

def toLeft (width : Nat) (s : String) : String := String.ofList (s.toList ++ blanks width s)

def toRight (width : Nat) (s : String) : String := String.ofList (blanks width s ++ s.toList)

/-- Lines, each with its break. -/
def ofLines (lines : List String) : String := String.join (lines.map (· ++ "\n"))

end Montage.Text
