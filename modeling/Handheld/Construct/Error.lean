import Handheld.Fault
import Handheld.Line.Field

namespace Handheld

/-- A mistake in the source. Most name the construct in which it was found. -/
inductive SourceError where
  | noEnclosingLoop (construct : String)
  | noLabeledLoop (construct label : String)
  | systemTarget (construct : String) (reg : Register)
  | unreadableSource (reg : Register)
  | typeMismatch (construct : String) (reg : Register) (expected : String)
  | tooManyKeys (construct : String) (count : Nat)
  | titleTooLong (field : String) (length max : Nat)
  | emptyMenu
  | duplicateLabel (label : String)
  deriving DecidableEq

def SourceError.message : SourceError → String
  | noEnclosingLoop c => c ++ " outside of any loop"
  | noLabeledLoop c l => c ++ ": no enclosing loop is labeled '" ++ l ++ "'"
  | systemTarget c r => c ++ ": system register " ++ r.name ++ " cannot be written by a program"
  | unreadableSource r => "assign: " ++ r.name ++ " cannot be used as a source"
  | typeMismatch c r expected =>
    c ++ ": register " ++ r.name ++ " must be a " ++ expected ++ " register"
  | tooManyKeys c n =>
    c ++ ": " ++ Decimal.text n ++ " special keys given, at most " ++ Decimal.text KeySet.special ++
      " allowed"
  | titleTooLong f n max =>
    "title: " ++ f ++ " is " ++ Decimal.text n ++ " bytes, at most " ++ Decimal.text max ++ " allowed"
  | emptyMenu => "menu_loop: a menu needs at least one entry"
  | duplicateLabel l => "label: '" ++ l ++ "' is placed more than once"

/-- What stops a compilation: a mistake in the source, an internal fault, or an instruction that the program
file cannot hold. -/
inductive CompileError where
  | source (e : SourceError)
  | fault (f : Fault)
  | encode (e : Line.EncodeError)
  deriving DecidableEq

def CompileError.message : CompileError → String
  | source e => e.message
  | fault f => "internal fault: " ++ f.message
  | encode e => e.message

end Handheld
