import Handheld.Decimal

namespace Handheld.Log

inductive Level where
  | warn
  | info
  | debug
  | trace
  deriving DecidableEq

namespace Level

def name : Level → String
  | warn => "WARN"
  | info => "INFO"
  | debug => "DEBUG"
  | trace => "TRACE"

def rank : Level → Nat
  | warn => 0
  | info => 1
  | debug => 2
  | trace => 3

/-- The least important level shown: warnings, and one level more for each step of verbosity. -/
def ofVerbosity : Nat → Level
  | 0 => warn
  | 1 => info
  | 2 => debug
  | _ => trace

end Level

/-- The part of the program that speaks. -/
inductive Origin where
  | command
  | programFile
  | context
  | generator
  | optimizer
  | machine
  | keypad
  | link
  deriving DecidableEq

def Origin.name : Origin → String
  | command => "phl"
  | programFile => "phl::codec"
  | context => "phl::compiler::context"
  | generator => "phl::compiler::generator"
  | optimizer => "phl::compiler::optimize"
  | machine => "phl::vm"
  | keypad => "phl::vm::input"
  | link => "phl::vm::link"

structure Entry where
  level : Level
  origin : Origin
  message : String
  deriving DecidableEq

/-- One line, the level padded to five columns. -/
def Entry.line (e : Entry) : String :=
  let name := e.level.name
  name ++ String.ofList (List.replicate (5 - name.length) ' ') ++ " " ++ e.origin.name ++ ": " ++
    e.message ++ "\n"

def shown (least : Level) (e : Entry) : Bool := e.level.rank ≤ least.rank

end Handheld.Log
