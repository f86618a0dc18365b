import Handheld.Construct.Error
import Handheld.Construct.Pool
import Handheld.LabelTable
import Handheld.Log

namespace Handheld

/-- An open loop: `again` goes to its entry, `leave` to its exit. -/
@[ext] structure Loop where
  entry : Label
  exit : Label
  /-- The label placed right before the loop. -/
  label : Option Label
  deriving DecidableEq

/-- The state of a compilation. -/
structure Context where
  code : List Instruction
  labels : LabelTable
  /-- The registers that can be handed out as temporaries. -/
  pools : Pools
  /-- The open loops, the innermost first. -/
  loops : List Loop
  named : List (String × Label)
  log : List Log.Entry

namespace Context

def initial : Context := ⟨[], .initial, .full, [], [], []⟩

def note (c : Context) (message : String) : Context :=
  { c with log := c.log ++ [⟨.trace, .context, message⟩] }

/-- The registers of a kind that are free, in catalog order. -/
def free (c : Context) (k : Kind) : List Register := (c.pools.get k).free

/-- The register is a temporary that has been handed out. -/
def isHeld (c : Context) (r : Register) : Bool := r.isPooled && !(c.free r.kind).contains r

/-- Takes the first free register of the kind. -/
def allocate (c : Context) (k : Kind) : Except Fault (Register × Context) :=
  match c.pools.take? k with
  | none => .error (.poolExhausted k)
  | some (r, pools) => .ok (r, { c with pools }.note ("allocate " ++ r.name))

/-- Puts a register back into the pool of its kind. -/
def release (c : Context) (r : Register) : Except Fault Context :=
  match c.pools.give? r with
  | none => .error (.notAllocated r)
  | some pools => .ok ({ c with pools }.note ("release " ++ r.name))

/-- Releases the registers in order up to the first that is not held; absent ones are skipped. -/
def releaseAll (c : Context) : List (Option Register) → Context × Except Fault Unit
  | [] => (c, .ok ())
  | none :: rest => c.releaseAll rest
  | some r :: rest =>
    match c.release r with
    | .error f => (c, .error f)
    | .ok c => c.releaseAll rest

/-- Fails with the first register, in catalog order, that is still held. -/
def checkAllFree (c : Context) : Except Fault Unit :=
  match Register.all.find? c.isHeld with
  | some r => .error (.registerLeak r)
  | none => .ok ()

def newLabel (c : Context) : Label × Context :=
  let (l, labels) := c.labels.create
  (l, { c with labels })

def newLabels (c : Context) : Nat → List Label × Context
  | 0 => ([], c)
  | n + 1 =>
    let (l, c) := c.newLabel
    let (ls, c) := c.newLabels n
    (l :: ls, c)

def emit (c : Context) (i : Instruction) : Context := { c with code := c.code ++ [i] }

def op (c : Context) (o : Operation) : Context := c.emit (.op o)

def place (c : Context) (l : Label) : Context := c.emit (.label l)

def jump (c : Context) (t : Label) : Context := c.emit (.jump t)

def jumpIf (c : Context) (cond : Condition) (t : Label) : Context := c.emit (.jumpIf cond t)

def find? (c : Context) (name : String) : Option Label :=
  (c.named.find? fun n => n.1 = name).map (·.2)

/-- Places a new label for a name of the source; a name can be placed once. -/
def placeNamed (c : Context) (name : String) : Except SourceError (Label × Context) :=
  match c.find? name with
  | some _ => .error (.duplicateLabel name)
  | none =>
    let (l, c) := c.newLabel
    .ok (l, { c with named := (name, l) :: c.named }.place l)

/-- Opens a loop; it belongs to a label that is the last instruction so far. -/
def pushLoop (c : Context) : Loop × Context :=
  let label := c.code.getLast?.bind Instruction.label?
  let (entry, c) := c.newLabel
  let (exit, c) := c.newLabel
  (⟨entry, exit, label⟩, { c with loops := ⟨entry, exit, label⟩ :: c.loops })

def popLoop (c : Context) : Context := { c with loops := c.loops.tail }

def currentLoop (c : Context) (construct : String) : Except SourceError Loop :=
  match c.loops with
  | lp :: _ => .ok lp
  | [] => .error (.noEnclosingLoop construct)

/-- The innermost loop that belongs to the label of the name. -/
def labeledLoop (c : Context) (name construct : String) : Except SourceError Loop :=
  match (c.find? name).bind fun l => c.loops.find? fun lp => lp.label = some l with
  | some lp => .ok lp
  | none => .error (.noLabeledLoop construct name)

def findLoop (c : Context) (name : Option String) (construct : String) : Except SourceError Loop :=
  match name with
  | some n => c.labeledLoop n construct
  | none => c.currentLoop construct

end Context
end Handheld
