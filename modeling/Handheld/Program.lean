import Handheld.Instruction.Display
import Handheld.LabelTable

namespace Handheld

/-- A program: its header, its instructions, and what is recorded about its labels. -/
@[ext] structure Program where
  title : Title
  code : List Instruction
  labels : LabelTable
  deriving DecidableEq

namespace Program

/-- Gives every label in the list its index, counted from `i`, up to the first fault. -/
def indexLabels (labels : LabelTable) (i : Nat) : List Instruction → LabelTable × Option Fault
  | [] => (labels, none)
  | .label l :: rest =>
    match labels.set .index l i with
    | .error f => (labels, some f)
    | .ok labels => indexLabels labels (i + 1) rest
  | _ :: rest => indexLabels labels (i + 1) rest

/-- Every jump of the list goes to a label with an index. -/
def checkTargets (labels : LabelTable) : List Instruction → Except Fault Unit
  | [] => .ok ()
  | inst :: rest =>
    match inst.target? with
    | none => checkTargets labels rest
    | some t =>
      match labels.get .index t with
      | .error f => .error f
      | .ok _ => checkTargets labels rest

/-- Indexes the labels, then checks the jumps. The indexes written before a fault stay written. -/
def linkLabels (p : Program) : LabelTable × Option Fault :=
  match indexLabels p.labels 0 p.code with
  | (labels, some f) => (labels, some f)
  | (labels, none) =>
    match checkTargets labels p.code with
    | .error f => (labels, some f)
    | .ok () => (labels, none)

/-- The program with indexed labels. -/
def link (p : Program) : Except Fault Program :=
  match p.linkLabels with
  | (_, some f) => .error f
  | (labels, none) => .ok { p with labels }

/-- The name of a label in listings: its number, or its place in the table while it has none. -/
def labelName (labels : LabelTable) (l : Label) : String :=
  match labels.get .number l with
  | .ok n => "L" ++ Decimal.text n
  | .error _ => "L#" ++ Decimal.text l.id

def listingLine (labels : LabelTable) : Instruction → String
  | .label l => labelName labels l ++ ":\n"
  | .jump t => "    jump " ++ labelName labels t ++ "\n"
  | .jumpIf c t => "    if " ++ c.display ++ " jump " ++ labelName labels t ++ "\n"
  | .op op => "    " ++ op.display ++ "\n"

def listing (p : Program) : String :=
  "title " ++ p.title.title.quoted ++ " version " ++ p.title.version.quoted ++ "\n" ++
    String.join (p.code.map (listingLine p.labels))

end Program
end Handheld
