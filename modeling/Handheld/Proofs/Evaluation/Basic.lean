import Handheld.Proofs.Construct.Success
import Handheld.Proofs.Flow.Run

namespace Handheld

open Machine

namespace Machine.View

/-- The status of the last operation as a program gets it. -/
def status (v : View) : Int32 :=
  let code := v.registers.int .rslt
  if code = 0 ∨ code = -1 ∨ code = -2 then code else -3

end Machine.View

/-- How an evaluation comes out. -/
inductive Completion where
  /-- What stands behind comes next. -/
  | next
  | leave (name : Option String)
  | again (name : Option String)
  /-- The run ends, or the evaluation has gone round often enough. -/
  | ended (e : Ending)
  deriving DecidableEq

/-- An exit without a name is one from the innermost loop; one with a name, from the loop that has
it. -/
def picks (target name : Option String) : Bool := target.isNone || target = name

structure Outcome (σ : Type) where
  /-- The operations, each with what can be seen afterwards. -/
  performed : List (Operation × View × σ)
  completion : Completion
  view : View
  link : σ

variable {σ : Type}

/-- What an evaluation tells of a run: its operations, its ending, and what is left. -/
abbrev Tale (σ : Type) := List (Operation × View × σ) × Ending × View × σ

/-- The outcome as that of a whole source, which ends with the return. -/
def Outcome.tale (o : Outcome σ) : Tale σ :=
  match o.completion with
  | .ended e => (o.performed, e, o.view, o.link)
  | _ => (o.performed, .step .returned, o.view, o.link)

/-- An evaluation from what can be seen of the machine and a state of the link. -/
def Evaluation (σ : Type) := View → σ → Outcome σ

/-- The outcome, after some operations more. -/
def Outcome.behind (o : Outcome σ) (before : List (Operation × View × σ)) : Outcome σ :=
  { o with performed := before ++ o.performed }

namespace Evaluation

def exit (c : Completion) : Evaluation σ := fun v s => ⟨[], c, v, s⟩

def skip : Evaluation σ := exit .next

def perform (link : Link σ) (o : Operation) : Evaluation σ := fun v s =>
  match v.perform link o s with
  | (none, v, s) => ⟨[(o, v, s)], .next, v, s⟩
  | (some e, v, s) => ⟨[(o, v, s)], .ended e, v, s⟩

def andThen (a b : Evaluation σ) : Evaluation σ := fun v s =>
  match (a v s).completion with
  | .next => (b (a v s).view (a v s).link).behind (a v s).performed
  | _ => a v s

def performAll (link : Link σ) : List Operation → Evaluation σ
  | [] => skip
  | o :: rest => (perform link o).andThen (performAll link rest)

/-- Tests the condition once and evaluates one branch. -/
def branch (c : Condition) (yes no : Evaluation σ) : Evaluation σ := fun v s =>
  if v.holds c then yes v s else no v s

/-- Evaluates the first case whose key equals the register, else the default. -/
def select (reg : Register) (cases : List (Operand × Evaluation σ)) (default : Evaluation σ) :
    Evaluation σ :=
  match cases with
  | [] => default
  | (key, body) :: rest => branch ⟨reg, .eq, key⟩ body (select reg rest default)

/-- Stores the status of the last operation. -/
def copyStatus (link : Link σ) (dst : Register) : Evaluation σ := fun v =>
  perform link (Operation.assign dst (.value (.int v.status))).normalize v

/-- Repeats the body until something leaves the loop. The number bounds the rounds. -/
def loop (name : Option String) (body : Evaluation σ) : Nat → Evaluation σ
  | 0 => exit (.ended .unfinished)
  | n + 1 => fun v s =>
    let round := body v s
    let rest := (loop name body n round.view round.link).behind round.performed
    match round.completion with
    | .next => rest
    | .again target => if picks target name then rest else round
    | .leave target => if picks target name then { round with completion := .next } else round
    | .ended _ => round

end Evaluation

/-- The operations that show the lines of a menu, from place `i` on. -/
def menuLineOps (i : Nat) : List MenuLine → List Operation
  | [] => []
  | l :: rest => Build.menuLine (Build.menuRow i) l :: menuLineOps (i + 1) rest

mutual

/-- The name that a loop has behind the construct, if one with the given name were in front of it. -/
def Construct.trail (before : Option String) : Construct → Option String
  | .label name => some name
  | .block body => trailAll before body
  | .ifElse _ [] [] => before
  | _ => none

def trailAll (before : Option String) : List Construct → Option String
  | [] => before
  | k :: rest => trailAll (k.trail before) rest

end

mutual

/-- No menu over pages is a part of the construct. -/
def Construct.menuFree : Construct → Bool
  | .block body | .loop body => menuFreeAll body
  | .ifElse _ yes no | .ifFileExists _ yes no => menuFreeAll yes && menuFreeAll no
  | .switch _ cases default => menuFreeCases cases && menuFreeAll default
  | .menuLoop .. => false
  | _ => true

def menuFreeAll : List Construct → Bool
  | [] => true
  | k :: rest => k.menuFree && menuFreeAll rest

def menuFreeCases : List Case → Bool
  | [] => true
  | .mk _ body :: rest => menuFreeAll body && menuFreeCases rest

end

section Evaluate

variable (link : Link σ) (n : Nat)

mutual

/-- The evaluation of a construct; `before` is the name of the label right in front of it. -/
def Construct.evaluate (before : Option String) : Construct → Evaluation σ
  | .op o => .perform link o.normalize
  | .label _ => .skip
  | .block body => evaluateAll before body
  | .ifElse cond yes no => .branch cond (evaluateAll none yes) (evaluateAll none no)
  | .loop body => .loop before (evaluateAll none body) n
  | .switch reg cases default => .select reg (evaluateCases cases) (evaluateAll none default)
  | .leave name => .exit (.leave name)
  | .again name => .exit (.again name)
  | .leaveIf cond name => .branch cond (.exit (.leave name)) .skip
  | .againIf cond name => .branch cond (.exit (.again name)) .skip
  | .ifFileExists file yes no =>
    .andThen (.perform link (.fileExists file))
      (.branch Build.succeeded (evaluateAll none yes) (evaluateAll none no))
  | .getResult dst => .copyStatus link dst
  | .menuLines lines => .performAll link (.displayClear :: menuLineOps 0 lines)
  -- a loop of its own over pages and keys, which is not evaluated
  | .menuLoop .. => .exit (.ended .unfinished)

def evaluateAll (before : Option String) : List Construct → Evaluation σ
  | [] => .skip
  | k :: rest => (k.evaluate before).andThen (evaluateAll (k.trail before) rest)

def evaluateCases : List Case → List (Operand × Evaluation σ)
  | [] => []
  | .mk key body :: rest => (key, evaluateAll none body) :: evaluateCases rest

end

end Evaluate

namespace Machine.View

/-- A machine that looks as given, with a title and no instructions. -/
def titled (v : View) (t : Title) : Machine := { v.machine with program := ⟨t, [], .initial⟩ }

/-- The title shown, as it can be seen. -/
def opening (v : View) (t : Title) : Except Stop Step × View :=
  let r := (v.titled t).settled (Machine.opening t (v.titled t).opened)
  (r.1, r.2.view)

end Machine.View

namespace Source

/-- The body of a source behind its barcode configuration. -/
def evaluateBody (link : Link σ) (n : Nat) (src : Source) : Evaluation σ :=
  (Evaluation.performAll link (src.barcode.map .barcodeSetup)).andThen
    (evaluateAll link n none src.body)

/-- The evaluation of a source, which shows its title first if that has not happened yet. It ends
with the return where the body is done. -/
def evaluate (link : Link σ) (n : Nat) (src : Source) (v : View) (s : σ) : Tale σ :=
  if v.keys.cancelled then ([], .step .terminated, v, s)
  else if v.started then (src.evaluateBody link n v s).tale
  else
    match v.opening src.title with
    | (.ok .running, v) => (src.evaluateBody link n v s).tale
    | (.ok step, v) => ([], .step step, v, s)
    | (.error stop, v) => ([], .stop stop, v, s)

end Source

namespace Machine.View

theorem holds_negate (v : View) (c : Condition) : v.holds c.negate = !v.holds c :=
  Comparison.holds_opposite _ _

/-- A value compares in the same way when it has been converted to the kind of the register. -/
theorem order_coerce (a b : Value) : a.order (b.coerce a.kind) = a.order b := by
  cases a <;> rfl

theorem holds_normalize (v : View) (c : Condition) : v.holds c.normalize = v.holds c := by
  obtain ⟨left, comparison, right⟩ := c
  have hk : (v.registers.get left).kind = left.kind := v.registers.kind_get left
  have ho (x : Value) := order_coerce (v.registers.get left) x
  rw [hk] at ho
  cases right with
  | register r => rfl
  | key k => simp only [holds, Condition.normalize, Operand.normalize, value, ho]
  | value x => simp only [holds, Condition.normalize, Operand.normalize, value, ho]

/-- Integers are equal where they compare so. -/
theorem order_int {a : Value} (ha : a.kind = .int) (n : Int32) :
    Comparison.eq.holds (a.order (.int n)) = decide (a.toInt = n) := by
  cases a with
  | int m =>
    have he : m.toInt = n.toInt ↔ m = n := Int32.toInt_inj
    rw [Bool.eq_iff_iff]
    simp only [Comparison.holds, Value.order, Value.toInt, Std.compare_eq_iff_eq, decide_eq_true_eq, he]
    exact decide_eq_true_iff.symm
  | float x => cases ha
  | text t => cases ha

theorem holds_status (v : View) (n : Int32) :
    v.holds ⟨.rslt, .eq, .value (.int n)⟩ = decide (v.registers.int .rslt = n) :=
  order_int (v.registers.kind_get .rslt) n

end Machine.View

namespace Evaluation

variable (link : Link σ)

theorem andThen_skip (a : Evaluation σ) : a.andThen skip = a := by
  funext v s
  unfold andThen
  cases hc : (a v s).completion with
  | next =>
    rcases ha : a v s with ⟨es, k, v', s'⟩
    rw [ha] at hc
    obtain rfl : k = .next := hc
    simp [skip, exit, Outcome.behind]
  | _ => rfl

/-- Copying the status chooses among the assignments of the four values that it may have. -/
theorem copyStatus_eq (dst : Register) :
    let store (n : Int32) := perform link (Operation.assign dst (.value (.int n))).normalize
    copyStatus link dst = select .rslt
      ([0, -1, -2].map fun n => (.value (.int n), store n)) (store (-3)) := by
  intro store
  funext v s
  simp only [copyStatus, View.status, List.map_cons, List.map_nil, select, branch, v.holds_status,
    decide_eq_true_eq]
  by_cases h0 : v.registers.int .rslt = 0
  · simp only [h0, true_or, if_true, store]
  by_cases h1 : v.registers.int .rslt = -1
  · simp only [h1, true_or, or_true, if_true, store]
    rfl
  by_cases h2 : v.registers.int .rslt = -2
  · simp only [h2, or_true, if_true, store]
    rfl
  · simp only [h0, h1, h2, or_self, if_false, store]

end Evaluation
end Handheld
