import Handheld.Instruction.Setting

namespace Handheld

namespace Screen

@[ext] structure Cursor where
  row : Nat
  col : Nat
  shape : CursorShape
  deriving DecidableEq

/-- Cells of one row. -/
@[ext] structure Damage where
  row : Nat
  col : Nat
  len : Nat
  deriving DecidableEq

/-- What can be done to a screen. -/
inductive Drawing where
  | clearAll
  | clearRegion (row col len : Nat)
  | text (row col : Nat) (t : Text)
  | cursor (row col : Nat) (shape : CursorShape)
  | hideCursor
  | beep
  deriving DecidableEq

end Screen

/-- A grid of cells, a cursor and a buzzer. -/
structure Screen where
  columns : Nat
  /-- The cells, row by row. -/
  rows : List Text
  cursor : Option Screen.Cursor
  beeps : Nat
  deriving DecidableEq

namespace Screen

def blank (rows columns : Nat) : Screen :=
  ⟨columns, List.replicate rows (.spaces columns), none, 0⟩

/-- The cells of a row, none where there is no such row. -/
def row (s : Screen) (r : Nat) : Text := (s.rows[r]?).getD .empty

/-- The part of a drawing that lies on the screen: a text at its place in a row, or nothing. Text is
cut at the right edge. -/
def visible? (s : Screen) (r c : Nat) (t : Text) : Option Text :=
  if r < s.rows.length ∧ c < s.columns then some (t.slice 0 (s.columns - c)) else none

/-- The blanks that clear a region, cut at the right edge; a region of no cells is none. -/
def erasure? (s : Screen) (r c len : Nat) : Option Text :=
  if r < s.rows.length ∧ c < min (c + len) s.columns then some (.spaces (min (c + len) s.columns - c))
  else none

/-- Writes over cells of a row. -/
def put (s : Screen) (r c : Nat) (t : Text) : Screen :=
  { s with rows := s.rows.set r ((s.row r).replace c t) }

def apply (s : Screen) : Drawing → Screen
  | .clearAll => { s with rows := s.rows.map fun _ => .spaces s.columns }
  | .clearRegion r c len =>
    match s.erasure? r c len with
    | some t => s.put r c t
    | none => s
  | .text r c t =>
    match s.visible? r c t with
    | some t => s.put r c t
    | none => s
  | .cursor r c shape =>
    { s with cursor :=
        if r < s.rows.length ∧ c < s.columns ∧ shape ≠ .none then some ⟨r, c, shape⟩ else none }
  | .hideCursor => { s with cursor := none }
  | .beep => { s with beeps := s.beeps + 1 }

/-- The cells that a drawing overwrites; clearing all reports every row. -/
def damage (s : Screen) : Drawing → List Damage
  | .clearAll => (List.range s.rows.length).map fun r => ⟨r, 0, s.columns⟩
  | .clearRegion r c len =>
    match s.erasure? r c len with
    | some t => [⟨r, c, t.length⟩]
    | none => []
  | .text r c t =>
    match s.visible? r c t with
    | some t => [⟨r, c, t.length⟩]
    | none => []
  | _ => []

/-- The rows as lines of text. -/
def render (s : Screen) : String := "\n".intercalate (s.rows.map Text.lossy)

end Screen
end Handheld
