import Handheld.Json.Basic

namespace Handheld.Json

/-- Reads a value, or refuses it. -/
abbrev Reader (α : Type) := Json → Option α

def text? : Reader String
  | str s => s
  | _ => none

def bool? : Reader Bool
  | bool b => some b
  | _ => none

def int? (low high : Int) : Reader Int
  | num (some (.integer n)) => if low ≤ n ∧ n ≤ high then some n else none
  | _ => none

/-- A natural number below the limit. -/
def nat? (limit : Nat) (j : Json) : Option Nat := (int? 0 (limit - 1) j).map Int.toNat

/-- A position or length. -/
def size? : Reader Nat := nat? Word.limit

def list? {α : Type} (read : Reader α) : Reader (List α)
  | arr items => items.mapM read
  | _ => none

def option? {α : Type} (read : Reader α) : Reader (Option α)
  | null => some none
  | j => (read j).map some

/-- Refuses values in which some numeral or string has no value. -/
def whole? {α : Type} (read : Reader α) (j : Json) : Option α :=
  if j.settled then read j else none

/-- The values of one field. -/
def occurrences (name : String) (fields : List (Option String × Json)) : List Json :=
  fields.filterMap fun f => if f.1 = some name then some f.2 else none

/-- The field, if it is there; refused if it repeats. -/
def field? (fields : List (Option String × Json)) (name : String) : Option (Option Json) :=
  match occurrences name fields with
  | [] => some none
  | [j] => some (some j)
  | _ => none

/-- The fields of a record by name, written as an object. -/
def namedRecord? (names : List String) : Reader (List (Option Json))
  | obj fields => if fields.all (·.1.isSome) then names.mapM (field? fields) else none
  | _ => none

/-- The fields of a record by name. -/
def record? (names : List String) (j : Json) : Option (List (Option Json)) :=
  match j with
  | arr items =>
    if items.length ≤ names.length then
      some (items.map some ++ List.replicate (names.length - items.length) none)
    else none
  | j => namedRecord? names j

/-- A field that has to be there. -/
def required {α : Type} (read : Reader α) : Option Json → Option α
  | none => none
  | some j => read j

/-- A field with a value to take in its absence. -/
def optional {α : Type} (absent : α) (read : Reader α) : Option Json → Option α
  | none => some absent
  | some j => read j

/-- The name of an alternative and its content. -/
def variant? : Reader (String × Option Json)
  | str (some s) => some (s, none)
  | obj [(some k, j)] => some (k, some j)
  | _ => none

/-- The content of an alternative that has none. -/
def isUnit : Option Json → Bool
  | none => true
  | some null => true
  | _ => false

/-- An alternative without content, by its name. -/
def choice? {α : Type} (all : List α) (name : α → String) (j : Json) : Option α :=
  match variant? j with
  | some (s, content) => if isUnit content then all.find? fun a => name a = s else none
  | none => none

end Handheld.Json
