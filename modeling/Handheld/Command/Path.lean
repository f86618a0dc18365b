namespace Handheld.Path

/-- The pieces between slashes, empty ones included. -/
def pieces (p : List Char) : List (List Char) := go p []
where
  go : List Char → List Char → List (List Char)
    | [], piece => [piece.reverse]
    | '/' :: r, piece => piece.reverse :: go r []
    | c :: r, piece => go r (c :: piece)

/-- The names between slashes. -/
def names (p : String) : List String :=
  ((pieces p.toList).filter (· ≠ [])).map String.ofList

def isAbsolute (p : String) : Bool := p.toList.head? = some '/'

/-- An absolute name stands for itself. -/
def join (dir name : String) : String :=
  if isAbsolute name || dir.isEmpty then name
  else if dir.toList.getLast? = some '/' then dir ++ name
  else dir ++ "/" ++ name

/-- A reversed path without slashes, and single dots behind a slash, at its end. -/
def dropEnd : List Char → List Char
  | '/' :: r => dropEnd r
  | '.' :: '/' :: r => dropEnd r
  | r => r

/-- The last name of a reversed path without such an end, and the path before it. -/
def splitBack (back : List Char) : List Char × List Char :=
  ((back.takeWhile (· ≠ '/')).reverse, back.dropWhile (· ≠ '/'))

/-- What stands before the file name, and the name itself. -/
def splitName? (p : String) : Option (List Char × List Char) :=
  let (name, back) := splitBack (dropEnd p.toList.reverse)
  if name = [] ∨ name = ['.'] ∨ name = ['.', '.'] then none else some (back.reverse, name)

/-- The path without its last name; none without a name. -/
def parent? (p : String) : Option String :=
  match splitBack (dropEnd p.toList.reverse) with
  | ([], _) => none
  | (_, back) =>
    let dir := dropEnd back
    some (if dir = [] ∧ back ≠ [] then "/" else String.ofList dir.reverse)

/-- A path and those above it that have a name. The number bounds them. -/
def ancestorsUpTo : Nat → String → List String
  | 0, _ => []
  | n + 1, p =>
    match parent? p with
    | none => []
    | some q => p :: ancestorsUpTo n q

def ancestors (p : String) : List String := ancestorsUpTo p.length p

/-- A name cut at its last dot; a dot at its start does not count. -/
def splitDot (name : List Char) : List Char × Option (List Char) :=
  let after := (name.reverse.takeWhile (· ≠ '.')).reverse
  let stem := name.take (name.length - after.length - 1)
  if after.length = name.length ∨ stem = [] then (name, none) else (stem, some after)

def extension? (p : String) : Option String :=
  (splitName? p).bind fun (_, name) => (splitDot name).2.map String.ofList

/-- The path with an extension behind the stem of its file name. -/
def setExtension (p ext : String) : String :=
  match splitName? p with
  | some (dir, name) => String.ofList (dir ++ (splitDot name).1) ++ "." ++ ext
  | none => p

/-- The path with another extension, or with a first one. A path that names no file without its
extension is left that way. -/
def withExtension (p ext : String) : String :=
  match extension? p with
  | some old => setExtension (String.ofList (p.toList.take (p.length - old.length))) ext
  | none => setExtension p ext

end Handheld.Path
