import Handheld.Construct.Error
import Handheld.Diagnostic.Catalog
import Handheld.Line.Reader

namespace Handheld

namespace Diagnostic

inductive Severity where
  | error
  | warning
  deriving DecidableEq

def Severity.name : Severity → String
  | error => "error"
  | warning => "warning"

/-- A file, and a line in it where one is known. -/
@[ext] structure Location where
  path : String
  line : Option Nat
  deriving DecidableEq

end Diagnostic

/-- What the program reports about a problem. -/
structure Diagnostic where
  severity : Diagnostic.Severity
  code : Option String
  message : String
  location : Option Diagnostic.Location
  notes : List String
  suggestion : Option String
  deriving DecidableEq

namespace Diagnostic

def error (message : String) : Diagnostic := ⟨.error, none, message, none, [], none⟩

def warning (message : String) : Diagnostic := ⟨.warning, none, message, none, [], none⟩

def withCode (d : Diagnostic) (code : String) : Diagnostic := { d with code := some code }

def withNote (d : Diagnostic) (note : String) : Diagnostic := { d with notes := d.notes ++ [note] }

def withSuggestion (d : Diagnostic) (s : String) : Diagnostic := { d with suggestion := some s }

/-- Points at a file; a line that is known stays. -/
def withPath (d : Diagnostic) (path : String) : Diagnostic :=
  { d with location := some ⟨path, d.location.bind (·.line)⟩ }

/-- Points at a line; a path that is known stays. -/
def withLine (d : Diagnostic) (line : Nat) : Diagnostic :=
  { d with location := some ⟨(d.location.map (·.path)).getD "", some line⟩ }

def sourceCode : SourceError → ErrorCode
  | .noEnclosingLoop _ => .noEnclosingLoop
  | .noLabeledLoop _ _ => .noLabeledLoop
  | .systemTarget _ _ => .systemTarget
  | .unreadableSource _ => .unreadableSource
  | .typeMismatch _ _ _ => .typeMismatch
  | .tooManyKeys _ _ => .tooManyKeys
  | .titleTooLong _ _ _ => .titleTooLong
  | .emptyMenu => .emptyMenu
  | .duplicateLabel _ => .duplicateLabel

/-- What to do about a mistake, where there is something to say. -/
def remedy : SourceError → Option String
  | .noEnclosingLoop _ => some "break and continue only make sense inside a loop body"
  | .noLabeledLoop _ label =>
    some ("place label '" ++ label ++ "' immediately before the loop it names")
  | .systemTarget _ _ => some "write to a DAT, INT, FLT or USR register instead"
  | .unreadableSource _ => some "copy the status with get_result and read that register"
  | .duplicateLabel _ => some "give each label construct its own name"
  | _ => none

def ofSource (e : SourceError) : Diagnostic :=
  { (error e.message).withCode (sourceCode e).name with suggestion := remedy e }

def ofFault (f : Fault) : Diagnostic :=
  ((error ("internal fault: " ++ f.message)).withCode ErrorCode.fault.name).withNote
    "this is a defect in the toolchain or a corrupt program, not a source error"

/-- A line of a program file that cannot be read. -/
def unreadableLine (line : Nat) (message : String) : Diagnostic :=
  ((error message).withCode ErrorCode.malformedFile.name).withLine line

def ofDecode (e : Line.DecodeError) : Diagnostic := unreadableLine e.line e.flaw.message

/-- A field of a program file that cannot be written. -/
def unwritable (field reason : String) : Diagnostic :=
  (error ("cannot encode " ++ field ++ ": " ++ reason)).withCode ErrorCode.doesNotFit.name

def ofEncode (e : Line.EncodeError) : Diagnostic := unwritable e.field e.reason

def ofCompile : CompileError → Diagnostic
  | .source e => ofSource e
  | .fault f => ofFault f
  | .encode e => ofEncode e

end Diagnostic
end Handheld
