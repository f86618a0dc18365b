import Handheld.Diagnostic.Basic
import Handheld.Json.Printer

namespace Handheld.Diagnostic

/-- How a part of the report looks. -/
inductive Style where
  | bold
  | boldRed
  | boldYellow
  | cyan
  | dim
  deriving DecidableEq

/-- The parameters of the escape sequence that switches the style on. -/
def Style.sequence : Style → String
  | bold => "1"
  | boldRed => "1;31"
  | boldYellow => "1;33"
  | cyan => "36"
  | dim => "2"

def paint (color : Bool) (style : Style) (s : String) : String :=
  if color then "\x1b[" ++ style.sequence ++ "m" ++ s ++ "\x1b[0m" else s

def Severity.style : Severity → Style
  | error => .boldRed
  | warning => .boldYellow

/-- Path and line; a line alone where there is no path. -/
def Location.display (l : Location) : String :=
  match l.line with
  | none => l.path
  | some n =>
    if l.path.isEmpty then "line " ++ Decimal.text n else l.path ++ ":" ++ Decimal.text n

def head (d : Diagnostic) : String :=
  match d.code with
  | some code => d.severity.name ++ "[" ++ code ++ "]"
  | none => d.severity.name

/-- An indented remark. -/
def remark (color : Bool) (kind text : String) : String :=
  "  " ++ paint color .dim "=" ++ " " ++ kind ++ ": " ++ text ++ "\n"

/-- The lines for people. -/
def render (d : Diagnostic) (color : Bool) : String :=
  paint color d.severity.style d.head ++ ": " ++ paint color .bold d.message ++ "\n" ++
    (match d.location with
    | some l => "  " ++ paint color .cyan "-->" ++ " " ++ l.display ++ "\n"
    | none => "") ++
    String.join (d.notes.map (remark color "note")) ++
    (match d.suggestion with
    | some s => remark color "suggestion" s
    | none => "")

/-- A field that is there only with a value. -/
def optionalField {α : Type} (name : String) (f : α → Json) : Option α → List (String × Json)
  | some a => [(name, f a)]
  | none => []

/-- The fields stand in the order of their names. -/
def toJson (d : Diagnostic) : Json :=
  .object (optionalField "code" .ofString d.code ++
    optionalField "line" .ofNat (d.location.bind (·.line)) ++
    [("message", .ofString d.message), ("notes", .array (d.notes.map .ofString))] ++
    optionalField "path" (fun l => .ofString l.path) d.location ++
    [("severity", .ofString d.severity.name)] ++
    optionalField "suggestion" .ofString d.suggestion)

end Handheld.Diagnostic
