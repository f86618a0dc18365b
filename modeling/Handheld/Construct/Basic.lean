import Handheld.Instruction.Basic

namespace Handheld

/-- A line of a menu screen. -/
inductive MenuLine where
  | register (reg : Register)
  | text (t : Text)
  deriving DecidableEq

mutual

inductive Construct where
  | op (op : Operation)
  /-- Names a position; a loop right after it is the target of jumps with this name. -/
  | label (name : String)
  | block (body : List Construct)
  | ifElse (cond : Condition) (yes no : List Construct)
  | loop (body : List Construct)
  /-- Runs the body of the first case whose key equals the register, else the default. -/
  | switch (reg : Register) (cases : List Case) (default : List Construct)
  | leave (name : Option String)
  | again (name : Option String)
  | leaveIf (cond : Condition) (name : Option String)
  | againIf (cond : Condition) (name : Option String)
  | ifFileExists (file : FileName) (yes no : List Construct)
  /-- Copies the status of the last operation: 0, -1 or -2, and -3 for anything else. -/
  | getResult (dst : Register)
  | menuLines (lines : List MenuLine)
  /-- A menu of pages with four entries each. Digits pick an entry, `prev` goes back a page or
  leaves from the first, `next` goes forward and repeats the last. -/
  | menuLoop (entries : List MenuEntry) (next prev : Option Key)

inductive Case where
  | mk (key : Operand) (body : List Construct)

/-- An entry without an action is shown but takes no digit. -/
inductive MenuEntry where
  | mk (text : Text) (action : Option (List Construct))

end

def Construct.name : Construct → String
  | op o => o.name
  | label _ => "label"
  | block _ => "block"
  | ifElse .. => "if"
  | loop _ => "loop"
  | switch .. => "switch"
  | leave _ => "break"
  | again _ => "continue"
  | leaveIf .. => "if_break"
  | againIf .. => "if_continue"
  | ifFileExists .. => "if_file_exists"
  | getResult _ => "get_result"
  | menuLines _ => "menu_lines"
  | menuLoop .. => "menu_loop"

/-- A program as it is written. -/
structure Source where
  title : Title
  barcode : List BarcodeSetup
  body : List Construct

end Handheld
