import Handheld.Machine.Execute

namespace Handheld.Machine

/-- How a step leaves the program. -/
inductive Step where
  | running
  /-- It jumped back to its entry. -/
  | returned
  /-- It will not run any more. -/
  | terminated
  deriving DecidableEq

def Step.name : Step → String
  | running => "continue"
  | returned => "returned"
  | terminated => "terminated"

/-- The spelling in log entries. -/
def Step.title : Step → String
  | running => "Continue"
  | returned => "Returned"
  | terminated => "Terminated"

/-- The column and the visible part of a text in the middle of a row. -/
def centered (t : Text) (columns : Nat) : Nat × Text :=
  if t.length ≤ columns then ((columns - t.length) / 2, t)
  else (0, t.slice ((t.length - columns) / 2) columns)

def titleRow : Nat := 3

def versionRow : Nat := 5

/-- The milliseconds that the title stays. -/
def titlePause : Nat := 2000

namespace Act

def drawCentered (row : Nat) (t : Text) : Act Unit := do
  let (col, t) := centered t (← read Machine.screen).columns
  draw (.text row col t)

def showTitle (t : Title) : Act Unit := do
  if t.startScreen ≠ .none then
    draw .clearAll
    drawCentered titleRow t.title
    drawCentered versionRow (.ofString "Ver " ++ t.version)
    match t.startScreen with
    | .twoSeconds => let _ ← sleep titlePause
    | .anyKey => let _ ← nextCode
    | .none => pure ()

def start : Act Step := do
  let p ← read Machine.program
  update fun m => { m with started := true }
  note (.starting p.title.title p.code.length)
  showTitle p.title
  pure .running

def jump (target : Label) : Act Step := do
  let pc ← lift ((← read Machine.program).labels.get .index target)
  update fun m => { m with pc }
  pure (if target = .entry then .returned else .running)

def holds (c : Condition) : Act Bool := do
  let left ← read fun m => m.registers.get c.left
  return c.comparison.holds (left.order (← valueOf c.right))

def run (reply : LinkReply) : Instruction → Act Step
  | .label _ => pure .running
  | .jump target => jump target
  | .jumpIf cond target => do if ← holds cond then jump target else pure .running
  | .op o => do
    execute reply o
    pure .running

/-- Runs the instruction at the program counter. -/
def fetch (reply : LinkReply) : Act Step := do
  let pc ← read Machine.pc
  match (← read Machine.program).code[pc]? with
  | none => stop (.fault (.endOfProgram pc))
  | some i =>
    update fun m => { m with pc := pc + 1 }
    note (.executing pc i)
    run reply i

/-- One step. It does nothing once the input has ended, and counts as the last one when the input
ends in it. -/
def step (reply : LinkReply) : Act Step := do
  if (← read Machine.keys).cancelled then pure .terminated
  else
    let s ← if (← read Machine.started) then fetch reply else start
    pure (if (← read Machine.keys).cancelled then .terminated else s)

end Act

/-- One step; a step that has to wait for a key has not happened yet. -/
def step (m : Machine) (reply : LinkReply) : Except Stop Step × Machine :=
  match Act.step reply m with
  | (.error .waiting, _) => (.error .waiting, m)
  | r => r

/-- What the next step asks of the link. -/
def request? (m : Machine) : Option LinkRequest :=
  if m.keys.cancelled || !m.started then none
  else
    match m.program.code[m.pc]? with
    | some (.op (.upload file _ _ _)) =>
      let name := match file with
        | .literal name => name
        | .register r => m.registers.text r
      (m.files.get? name).map fun f => .upload (Transfer.empty.put name f.content)
    | some (.op (.download _ _ _)) => some (.download .empty)
    | _ => none

/-- The other end of the serial link, with its own state. -/
def Link (σ : Type) := LinkRequest → σ → LinkReply × σ

def Link.nobody : Link Unit := fun r s => (.nobody r, s)

/-- A step with a link at hand. -/
def stepWith {σ : Type} (link : Link σ) (m : Machine) (s : σ) : Except Stop Step × Machine × σ :=
  match m.request? with
  | none =>
    let (r, m) := m.step ⟨.empty, []⟩
    (r, m, s)
  | some request =>
    let (reply, s) := link request s
    let (r, m) := m.step reply
    (r, m, s)

/-- How a run ends; it may also exceed the steps it was given. -/
inductive Ending where
  | step (s : Step)
  | stop (s : Stop)
  | unfinished
  deriving DecidableEq

/-- Runs until the program returns or is terminated. The first number bounds the steps. -/
def runUntilReturn {σ : Type} (link : Link σ) : Nat → Machine → σ → Ending × Machine × σ
  | 0, m, s => (.unfinished, m, s)
  | n + 1, m, s =>
    match m.stepWith link s with
    | (.ok .running, m, s) => runUntilReturn link n m s
    | (.ok step, m, s) => (.step step, m, s)
    | (.error stop, m, s) => (.stop stop, m, s)

/-- After a return: whether any key can still come. -/
def exhausted : Act Bool := do
  let (ended, keys) := (← Act.read Machine.keys).exhausted
  Act.adopt keys
  if ended then Act.note .inputExhausted
  pure ended

/-- Runs until terminated. A program that returns when no key can come any more would only repeat
itself, so the run ends there too. -/
def runToEnd {σ : Type} (link : Link σ) : Nat → Machine → σ → Ending × Machine × σ
  | 0, m, s => (.unfinished, m, s)
  | n + 1, m, s =>
    match m.stepWith link s with
    | (.ok .running, m, s) => runToEnd link n m s
    | (.ok .returned, m, s) =>
      match exhausted m with
      | (.ok true, m) => (.step .returned, m, s)
      | (_, m) => runToEnd link n m s
    | (.ok .terminated, m, s) => (.step .terminated, ((Act.note (.terminated m.pc)) m).2, s)
    | (.error stop, m, s) => (.stop stop, m, s)

/-- More steps than any run can take. -/
def stepLimit : Nat := 0x4000000000000000

end Handheld.Machine
