/- File paths as components. Repeated separators and inner single dots make no
   difference; a leading separator and a leading dot do. -/
namespace Montage.Path

inductive Part where
  | root
  | here
  | up
  | name (s : String)
  deriving DecidableEq, Repr

def splitSlash : List Char → List (List Char)
  | [] => [[]]
  | c :: r =>
    match splitSlash r with
    | [] => [[c]]
    | p :: ps => if c = '/' then [] :: p :: ps else (c :: p) :: ps

def partOf? (cs : List Char) : Option Part :=
  if cs = [] ∨ cs = ['.'] then none
  else if cs = ['.', '.'] then some .up
  else some (.name (String.ofList cs))

def components (s : String) : List Part :=
  match splitSlash s.toList with
  | [] => []
  | p :: ps =>
    let rest := ps.filterMap partOf?
    if s = "" then []
    else if p = [] then .root :: rest
    else if p = ['.'] then .here :: rest
    else ((partOf? p).toList) ++ rest

/-- Equality of paths, part by part. -/
def same (a b : String) : Bool := components a == components b

/-- The last part, when it is a name. -/
def fileName? (s : String) : Option String :=
  match (components s).getLast? with
  | some (.name n) => some n
  | _ => none

def isAbsolute (s : String) : Bool := s.toList.head? == some '/'

def endsInSlash (s : String) : Bool := s.toList.getLast? == some '/'

/-- An absolute second path replaces the first. -/
def join (a b : String) : String :=
  if isAbsolute b then b
  else if a = "" ∨ endsInSlash a then a ++ b
  else a ++ "/" ++ b

end Montage.Path
