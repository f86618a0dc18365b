import Handheld.Construct.Basic
import Handheld.Construct.Context

namespace Handheld

/-- A building step: it extends the context and may fail; a failed one leaves what it has built. -/
def Build := Context → Context × Except CompileError Unit

namespace Build

def done : Build := fun c => (c, .ok ())

def fail (e : CompileError) : Build := fun c => (c, .error e)

def andThen (a b : Build) : Build := fun c =>
  match a c with
  | (c, .ok ()) => b c
  | (c, .error e) => (c, .error e)

/-- The steps in order, up to the first that fails. -/
def seq : List Build → Build
  | [] => done
  | b :: rest => b.andThen (seq rest)

/-- An operation as the source may contain it: it writes no system register, has not too many
special keys, works on registers of the right kinds, and its literal is converted to the kind of
the destination. -/
def check (o : Operation) : Except SourceError Operation :=
  let expect (r : Register) (k : Kind) : Except SourceError Unit :=
    if r.kind = k then .ok () else .error (.typeMismatch o.name r k.label)
  match o.written.filter (·.isSystem) with
  | some r => .error (.systemTarget o.name r)
  | none =>
    let keys := (o.specialKeys.map KeySet.size).getD 0
    if KeySet.special < keys then .error (.tooManyKeys o.name keys)
    else match o with
      | .assign dst src =>
        match src.register?.filter (·.isUnreadable) with
        | some r => .error (.unreadableSource r)
        | none => .ok (.assign dst (src.normalize dst.kind))
      | .stringConcat dst _ first second =>
        (expect dst .text).bind fun _ => (expect first.reg .text).bind fun _ =>
          match second with
          | some s => (expect s.reg .text).map fun _ => o
          | none => .ok o
      | .extractCopy dst _ src => (expect dst .text).bind fun _ => (expect src.reg .text).map fun _ => o
      | .stringShift reg .. => (expect reg .text).map fun _ => o
      | .numberToString dst src =>
        (expect dst .text).bind fun _ =>
          if src.kind = .text then .error (.typeMismatch o.name src "numeric") else .ok o
      | .barcodeInput _ _ dst .. =>
        if dst.isPooled && dst.kind = .text then .ok o else .error (.typeMismatch o.name dst "DAT")
      | .noEchoInput dst => (expect dst .int).map fun _ => o
      | _ => .ok o

def op (o : Operation) : Build := fun c =>
  match check o with
  | .ok o => (c.op o, .ok ())
  | .error e => (c, .error (.source e))

def label (name : String) : Build := fun c =>
  match c.placeNamed name with
  | .ok (_, c) => (c, .ok ())
  | .error e => (c, .error (.source e))

/-- A jump that a loop gives the target of. -/
def toLoop (name : Option String) (construct : String) (jump : Loop → Context → Context) : Build :=
  fun c =>
    match c.findLoop name construct with
    | .ok lp => (jump lp c, .ok ())
    | .error e => (c, .error (.source e))

/-- The loop is closed also when its body fails. -/
def loop (body : Build) : Build := fun c =>
  let (lp, c) := c.pushLoop
  let (c, r) := body (c.place lp.entry)
  (((c.jump lp.entry).place lp.exit).popLoop, r)

/-- Tests the condition once; an empty branch takes no code. -/
def branch (cond : Condition) (yes no : List Build) : Build := fun c =>
  let cond := cond.normalize
  match yes.isEmpty, no.isEmpty with
  | true, true => (c, .ok ())
  | false, true =>
    let (exit, c) := c.newLabel
    match seq yes (c.jumpIf cond.negate exit) with
    | (c, .ok ()) => (c.place exit, .ok ())
    | (c, .error e) => (c, .error e)
  | true, false =>
    let (exit, c) := c.newLabel
    match seq no (c.jumpIf cond exit) with
    | (c, .ok ()) => (c.place exit, .ok ())
    | (c, .error e) => (c, .error e)
  | false, false =>
    let (other, c) := c.newLabel
    let (exit, c) := c.newLabel
    match seq yes (c.jumpIf cond.negate other) with
    | (c, .error e) => (c, .error e)
    | (c, .ok ()) =>
      match seq no ((c.jump exit).place other) with
      | (c, .ok ()) => (c.place exit, .ok ())
      | (c, .error e) => (c, .error e)

/-- The tests of a switch, in order. -/
def tests (reg : Register) (c : Context) : List (Operand × Label) → Context
  | [] => c
  | (key, l) :: rest => tests reg (c.jumpIf (Condition.mk reg .eq key).normalize l) rest

/-- The bodies of a switch, each behind its label and followed by a jump to the exit. -/
def bodies (exit : Label) : List (Label × List Build) → Build
  | [] => done
  | (l, body) :: rest => fun c =>
    match seq body (c.place l) with
    | (c, .ok ()) => bodies exit rest (c.jump exit)
    | (c, .error e) => (c, .error e)

/-- The head of a switch: its tests and the jump behind them. The results are the exit and the bodies
that the tests and the jump lead to. -/
def dispatch (reg : Register) (cases : List (Operand × List Build)) (default : List Build)
    (c : Context) : Label × List (Label × List Build) × Context :=
  let (exit, c) := c.newLabel
  let (labels, c) := c.newLabels cases.length
  let c := tests reg c ((cases.map (·.1)).zip labels)
  let targets := labels.zip (cases.map (·.2))
  if default.isEmpty then (exit, targets, c.jump exit)
  else
    let (other, c) := c.newLabel
    (exit, targets ++ [(other, default)], c.jump other)

def switch (reg : Register) (cases : List (Operand × List Build)) (default : List Build) : Build :=
  fun c =>
    if reg.kind ≠ .int then (c, .error (.source (.typeMismatch "switch" reg "integer")))
    else
      let (exit, targets, c) := dispatch reg cases default c
      match bodies exit targets c with
      | (c, .ok ()) => (c.place exit, .ok ())
      | (c, .error e) => (c, .error e)

/-- Rows of a menu are every other one, from row one. -/
def menuRow (i : Nat) : Nat := 1 + 2 * i

/-- The width of a register shown as a menu line. -/
def menuLineWidth : Nat := 16

def menuLine (row : Nat) : MenuLine → Operation
  | .text t => .displayString row 0 0 t
  | .register r => .displayRegister row 0 r 0 menuLineWidth 0 false false

/-- Appends lines from place `i` on. -/
def lines (i : Nat) (c : Context) : List MenuLine → Context
  | [] => c
  | l :: rest => lines (i + 1) (c.op (menuLine (menuRow i) l)) rest

def menuLines (ls : List MenuLine) : Build := fun c => (lines 0 (c.op .displayClear) ls, .ok ())

/-- A menu entry: its text, and what it does. -/
abbrev Entry := Text × Option (List Build)

/-- Entries on one page of a menu. -/
def pageSize : Nat := 4

/-- Cuts entries into pages; the first argument bounds their number. -/
def pages : Nat → List Entry → List (List Entry)
  | 0, _ => []
  | _, [] => []
  | n + 1, es => es.take pageSize :: pages n (es.drop pageSize)

/-- A test for each entry with an action: the digits from `digit` on go to new labels. -/
def digitTests (key : Register) (digit : Nat) (c : Context) :
    List Entry → List (Label × List Build) × Context
  | [] => ([], c)
  | (_, none) :: rest => digitTests key digit c rest
  | (_, some action) :: rest =>
    let (l, c) := c.newLabel
    let c := c.jumpIf ⟨key, .eq, .value (.int (Int32.ofNat (48 + digit)))⟩ l
    let (targets, c) := digitTests key (digit + 1) c rest
    ((l, action) :: targets, c)

/-- A test for a key, if there is one. -/
def keyTest (key : Register) (k : Option Key) (target : Label) (c : Context) : Context :=
  match k with
  | some k => c.jumpIf (Condition.mk key .eq (.key k)).normalize target
  | none => c

/-- The actions of a page; each returns to the top of the page, also when its body fails. -/
def actions (top : Label) : List (Label × List Build) → Build
  | [] => done
  | (l, body) :: rest => fun c =>
    match seq body (c.place l) with
    | (c, .ok ()) => actions top rest (c.jump top)
    | (c, .error e) => (c.jump top, .error e)

/-- One page: it shows the entries, reads a key into a register, and dispatches on it. -/
def pageBody (next prev : Option Key) (back : Label) (last : Bool) (es : List Entry)
    (key : Register) : Build := fun c =>
  let (top, c) := c.newLabel
  let (bottom, c) := c.newLabel
  let c := lines 0 ((c.place top).op .displayClear) (es.map fun e => .text e.1)
  let (targets, c) := digitTests key 1 (c.op (.noEchoInput key)) es
  let c := keyTest key next (if last then top else bottom) (keyTest key prev back c)
  let (c, r) := actions top targets (c.jump top)
  (c.place bottom, r)

/-- A step with a temporary, which is given back also when the step fails. -/
def withTemporary (k : Kind) (body : Register → Build) : Build := fun c =>
  match c.allocate k with
  | .error f => (c, .error (.fault f))
  | .ok (r, c) =>
    let (c, result) := body r c
    match c.release r with
    | .error f => (c, .error (.fault f))
    | .ok c => (c, result)

def page (next prev : Option Key) (back : Label) (last : Bool) (es : List Entry) : Build :=
  withTemporary .int (pageBody next prev back last es)

/-- The pages with their labels; `back` is where the previous key of the first one goes. -/
def pageSeq (next prev : Option Key) (back : Label) : List (Label × List Entry) → Build
  | [] => done
  | (l, es) :: rest => fun c =>
    match page next prev back rest.isEmpty es (c.place l) with
    | (c, .ok ()) => pageSeq next prev l rest c
    | (c, .error e) => (c, .error e)

def menu (es : List Entry) (next prev : Option Key) : Build := fun c =>
  if es.isEmpty then (c, .error (.source .emptyMenu))
  else
    let (lp, c) := c.pushLoop
    let ps := pages es.length es
    let (labels, c) := (c.place lp.entry).newLabels ps.length
    let (c, r) := pageSeq next prev lp.exit (labels.zip ps) c
    ((c.place lp.exit).popLoop, r)

/-- The condition that the last operation succeeded. -/
def succeeded : Condition := ⟨.rslt, .eq, .value (.int 0)⟩

def ifFileExists (file : FileName) (yes no : List Build) : Build := fun c =>
  branch succeeded yes no (c.op (.fileExists file))

def assignInt (dst : Register) (n : Int32) : Build := op (.assign dst (.value (.int n)))

def getResult (dst : Register) : Build :=
  switch .rslt ([0, -1, -2].map fun n => (.value (.int n), [assignInt dst n])) [assignInt dst (-3)]

end Build
end Handheld
