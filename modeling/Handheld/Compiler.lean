import Handheld.Construct.Expand
import Handheld.Optimizer
import Handheld.Program

namespace Handheld.Compiler

/-- The first number of a placed label; lower numbers are reserved. -/
def firstNumber : Nat := 4

def checkTitle (t : Title) : Except SourceError Unit :=
  if Title.titleMax < t.title.length then
    .error (.titleTooLong "title" t.title.length Title.titleMax)
  else if Title.versionMax < t.version.length then
    .error (.titleTooLong "version" t.version.length Title.versionMax)
  else .ok ()

/-- Gives the labels of the list ascending numbers in list order. -/
def numberLabels (labels : LabelTable) (n : Nat) : List Label → Except Fault LabelTable
  | [] => .ok labels
  | l :: rest =>
    match labels.set .number l n with
    | .error f => .error f
    | .ok labels => numberLabels labels (n + 1) rest

def debug (message : String) : Log.Entry := ⟨.debug, .generator, message⟩

/-- The expanded source. -/
def expand (s : Source) : Context × Except CompileError Unit :=
  match checkTitle s.title with
  | .error e => (.initial, .error (.source e))
  | .ok () =>
    let c := s.barcode.foldl (fun c b => c.op (.barcodeSetup b)) Context.initial
    match Build.seq (expandAll s.body) c with
    | (c, .error e) => (c, .error e)
    | (c, .ok ()) =>
      match c.checkAllFree with
      | .error f => (c, .error (.fault f))
      | .ok () => (c, .ok ())

/-- The clean-up of an expanded list, unless it is turned off. -/
def tidy (optimize : Bool) (code : List Instruction) : List Instruction × List Log.Entry :=
  if optimize then
    let r := Optimizer.optimize code
    (r.code, r.log ++ [debug ("optimized to " ++ Decimal.text r.code.length ++ " instructions in " ++
      Decimal.text r.rounds ++ " rounds")])
  else (code, [])

/-- The program of a source, which ends with a jump back to the entry, and what there is to tell. -/
def compile (s : Source) (optimize : Bool) : Except CompileError Program × List Log.Entry :=
  match expand s with
  | (c, .error e) => (.error e, c.log)
  | (c, .ok ()) =>
    let (code, log) := tidy optimize c.code
    let log := c.log ++ debug ("expanded " ++ Decimal.text c.code.length ++ " instructions") :: log
    match numberLabels c.labels firstNumber (code.filterMap Instruction.label?) with
    | .error f => (.error (.fault f), log)
    | .ok labels => (.ok ⟨s.title, code ++ [.jump .entry], labels⟩, log)

end Handheld.Compiler
