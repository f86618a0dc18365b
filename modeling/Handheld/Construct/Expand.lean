import Handheld.Construct.Build

namespace Handheld

mutual

/-- The building step that a construct stands for. -/
def Construct.expand : Construct → Build
  | .op o => .op o
  | .label name => .label name
  | .block body => .seq (expandAll body)
  | .ifElse cond yes no => .branch cond (expandAll yes) (expandAll no)
  | .loop body => .loop (.seq (expandAll body))
  | .switch reg cases default => .switch reg (expandCases cases) (expandAll default)
  | .leave name => .toLoop name "break" fun lp c => c.jump lp.exit
  | .again name => .toLoop name "continue" fun lp c => c.jump lp.entry
  | .leaveIf cond name => .toLoop name "if_break" fun lp c => c.jumpIf cond.normalize lp.exit
  | .againIf cond name => .toLoop name "if_continue" fun lp c => c.jumpIf cond.normalize lp.entry
  | .ifFileExists file yes no => .ifFileExists file (expandAll yes) (expandAll no)
  | .getResult dst => .getResult dst
  | .menuLines lines => .menuLines lines
  | .menuLoop entries next prev => .menu (expandEntries entries) next prev

def expandAll : List Construct → List Build
  | [] => []
  | k :: rest => k.expand :: expandAll rest

def expandCases : List Case → List (Operand × List Build)
  | [] => []
  | .mk key body :: rest => (key, expandAll body) :: expandCases rest

def expandEntries : List MenuEntry → List Build.Entry
  | [] => []
  | .mk text action :: rest => (text, expandAction action) :: expandEntries rest

def expandAction : Option (List Construct) → Option (List Build)
  | none => none
  | some body => some (expandAll body)

end

end Handheld
