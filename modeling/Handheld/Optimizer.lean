import Handheld.Instruction.Basic
import Handheld.Log

namespace Handheld.Optimizer

/-- What follows a label in the list; of several placements the last one counts. -/
def after? (l : Label) : List Instruction → Option (List Instruction)
  | [] => none
  | i :: r =>
    match after? l r with
    | some s => some s
    | none => if i = .label l then some r else none

/-- The last label of the run that starts with `l`, and what follows the run. -/
def endOfRun (l : Label) : List Instruction → Label × List Instruction
  | .label m :: r => endOfRun m r
  | r => (l, r)

/-- Where a jump really ends up. -/
inductive Resolution where
  | final (l : Label)
  /-- Jumps and labels lead back to a label already passed. -/
  | cycle (through : Label)
  deriving DecidableEq

/-- Follows labels and unconditional jumps; the first argument bounds the steps. -/
def resolveFrom (code : List Instruction) : Nat → List Label → Label → Resolution
  | 0, _, l => .cycle l
  | fuel + 1, seen, l =>
    if seen.contains l then .cycle l
    else
      match after? l code with
      | none => .final l
      | some r =>
        match endOfRun l r with
        | (_, .jump next :: _) => resolveFrom code fuel (l :: seen) next
        | (last, _) => .final last

/-- Every step passes another label of the list, so its length bounds the steps. -/
def resolve (code : List Instruction) (target : Label) : Resolution :=
  resolveFrom code (code.length + 2) [] target

/-- The outcome of a pass. -/
structure Pass where
  code : List Instruction
  changed : Bool
  log : List Log.Entry

def cycleWarning (through target : Label) : Log.Entry :=
  ⟨.warn, .optimizer,
    "jump cycle through " ++ through.display ++ "; leaving " ++ target.display ++ " in place"⟩

/-- Retargets the jumps of the second list in order; the first holds what comes before it. -/
def correctFrom (before : List Instruction) : List Instruction → Pass
  | [] => ⟨before, false, []⟩
  | i :: rest =>
    match i.target? with
    | none => correctFrom (before ++ [i]) rest
    | some t =>
      match resolve (before ++ i :: rest) t with
      | .cycle through =>
        let p := correctFrom (before ++ [i]) rest
        { p with log := cycleWarning through t :: p.log }
      | .final u =>
        let p := correctFrom (before ++ [i.retarget u]) rest
        { p with changed := p.changed || u ≠ t }

/-- Sends every jump to its final destination; a jump into a cycle stays. -/
def correctJumps (code : List Instruction) : Pass := correctFrom [] code

/-- The outcome of dropping instructions. -/
def dropped (before after : List Instruction) : Pass := ⟨after, after.length ≠ before.length, []⟩

/-- Drops labels that no jump goes to. -/
def removeUnusedLabels (code : List Instruction) : Pass :=
  let used := code.filterMap Instruction.target?
  dropped code (code.filter fun i =>
    match i.label? with
    | some l => used.contains l
    | none => true)

/-- Drops unconditional jumps right behind another; the flag says whether one came before. -/
def withoutDeadJumps (afterJump : Bool) : List Instruction → List Instruction
  | [] => []
  | i :: rest =>
    if i.isJump && afterJump then withoutDeadJumps true rest
    else i :: withoutDeadJumps i.isJump rest

def removeDeadJumps (code : List Instruction) : Pass := dropped code (withoutDeadJumps false code)

/-- The labels at the front of a list. -/
def leadingLabels : List Instruction → List Label
  | .label l :: rest => l :: leadingLabels rest
  | _ => []

def withoutFallthrough : List Instruction → List Instruction
  | [] => []
  | .jump t :: rest =>
    if (leadingLabels rest).contains t then withoutFallthrough rest
    else .jump t :: withoutFallthrough rest
  | i :: rest => i :: withoutFallthrough rest

/-- Drops unconditional jumps to a label right behind them. -/
def removeFallthroughJumps (code : List Instruction) : Pass := dropped code (withoutFallthrough code)

def Pass.andThen (p : Pass) (next : List Instruction → Pass) : Pass :=
  let q := next p.code
  ⟨q.code, p.changed || q.changed, p.log ++ q.log⟩

def round (code : List Instruction) : Pass :=
  (((correctJumps code).andThen removeUnusedLabels).andThen removeDeadJumps).andThen
    removeFallthroughJumps

/-- The optimized list and the number of rounds that changed it. -/
structure Result where
  code : List Instruction
  rounds : Nat
  log : List Log.Entry

def roundMessage (n : Nat) (code : List Instruction) : Log.Entry :=
  ⟨.debug, .optimizer,
    "optimizer round " ++ Decimal.text n ++ ": " ++ Decimal.text code.length ++ " instructions"⟩

/-- Rounds after the first `n`; the first argument bounds them. -/
def roundsFrom : Nat → Nat → List Instruction → Result
  | 0, n, code => ⟨code, n, []⟩
  | fuel + 1, n, code =>
    let p := round code
    if p.changed then
      let r := roundsFrom fuel (n + 1) p.code
      { r with log := p.log ++ roundMessage (n + 1) p.code :: r.log }
    else ⟨p.code, n, p.log⟩

/-- Of two rounds in a row one drops an instruction, or the second finds nothing to change, so that
fewer would do. -/
def roundLimit (code : List Instruction) : Nat := (code.length + 2) * (code.length + 2)

def optimize (code : List Instruction) : Result := roundsFrom (roundLimit code) 0 code

end Handheld.Optimizer
