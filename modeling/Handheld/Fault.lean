import Handheld.Label
import Handheld.Register

namespace Handheld

/-- An internal defect: a state that a well-formed program never reaches. It ends the compilation or
the run. -/
inductive Fault where
  | labelReassigned (label : Label) (field : Label.Attribute) (old new : Nat)
  | unresolvedLabel (label : Label) (field : Label.Attribute)
  | unknownLabel (label : Label)
  | poolExhausted (kind : Kind)
  | notAllocated (register : Register)
  | registerLeak (register : Register)
  /-- A write to a register that is not of the expected role. -/
  | wrongRole (register : Register) (expected : Register.Role)
  | endOfProgram (pc : Nat)
  deriving DecidableEq

def Register.Role.name : Register.Role → String
  | pooled => "pooled"
  | user => "user"
  | system => "system"

def Fault.message : Fault → String
  | labelReassigned l a old new =>
    l.display ++ " " ++ a.name ++ " already assigned " ++ Decimal.text old ++ ", refusing " ++
      Decimal.text new
  | unresolvedLabel l a => l.display ++ " has no " ++ a.name ++ " assigned"
  | unknownLabel l => l.display ++ " was never created"
  | poolExhausted k => "no free " ++ k.label ++ " register"
  | notAllocated r => "register " ++ r.name ++ " released but not allocated"
  | registerLeak r => "register " ++ r.name ++ " still allocated after compilation"
  | wrongRole r expected => "register " ++ r.name ++ " is not a " ++ expected.name ++ " register"
  | endOfProgram pc =>
    "program counter " ++ Decimal.text pc ++ " ran past the end of the instruction list"

end Handheld
