import Handheld.KeyQueue
import Handheld.Program
import Handheld.Record.Area
import Handheld.RegisterStore
import Handheld.Screen
import Handheld.Transfer

namespace Handheld

namespace Machine

/-- What a run tells about itself. -/
inductive Note where
  | starting (title : Text) (count : Nat)
  | executing (pc : Nat) (i : Instruction)
  | unknownKey (code : Int32)
  | keypadsGone
  | link (e : Log.Entry)
  | inputExhausted
  | terminated (pc : Nat)
  deriving DecidableEq

/-- What has happened, the last thing first. -/
structure Journal where
  notes : List Note
  damage : List Screen.Damage
  /-- The milliseconds slept. -/
  slept : Nat
  deriving DecidableEq

def Journal.empty : Journal := ⟨[], [], 0⟩

/-- Why an action goes no further. -/
inductive Stop where
  | fault (f : Fault)
  | overflow
  /-- It needs a key that has not been pressed yet. -/
  | waiting
  deriving DecidableEq

end Machine

/-- A running terminal. -/
structure Machine where
  /-- The program, with indexed labels. -/
  program : Program
  registers : RegisterStore
  files : FileArea
  screen : Screen
  keys : KeyQueue
  pc : Nat
  /-- The title has been shown. -/
  started : Bool
  /-- After so many more texts drawn, a watcher of the screen asks to terminate; nobody watches if it
  is zero. -/
  watcher : Nat
  journal : Machine.Journal
  deriving DecidableEq

namespace Machine

/-- A terminal about to run a program, which is linked first. -/
def load (p : Program) (clock : Clock) (screen : Screen) : Except Fault Machine :=
  p.link.map fun p => ⟨p, .initial clock, .empty, screen, .initial, 0, false, 0, .empty⟩

/-- An action on the machine. -/
def Act (α : Type) := Machine → Except Stop α × Machine

namespace Act

instance : Monad Act where
  pure a := fun m => (.ok a, m)
  bind act next := fun m =>
    match act m with
    | (.error s, m) => (.error s, m)
    | (.ok a, m) => next a m

@[simp] theorem run_pure {α : Type} (a : α) (m : Machine) : (pure a : Act α) m = (.ok a, m) := rfl

theorem run_bind {α β : Type} (act : Act α) (next : α → Act β) (m : Machine) :
    (act >>= next) m = match act m with
      | (.error s, m) => (.error s, m)
      | (.ok a, m) => next a m := rfl

def stop {α : Type} (s : Stop) : Act α := fun m => (.error s, m)

/-- A part of the machine. -/
def read {α : Type} (f : Machine → α) : Act α := fun m => (.ok (f m), m)

def update (f : Machine → Machine) : Act Unit := fun m => (.ok (), f m)

def checked {α : Type} : Except Overflow α → Act α
  | .ok a => pure a
  | .error _ => stop .overflow

def lift {α : Type} : Except Fault α → Act α
  | .ok a => pure a
  | .error f => stop (.fault f)

def note (n : Note) : Act Unit :=
  update fun m => { m with journal := { m.journal with notes := n :: m.journal.notes } }

def notes : List Note → Act Unit
  | [] => pure ()
  | n :: rest => do note n; notes rest

/-- A change of the registers that may be refused. -/
def change (f : RegisterStore → Except Fault RegisterStore) : Act Unit := do
  let s ← lift (f (← read Machine.registers))
  update fun m => { m with registers := s }

def set (r : Register) (v : Value) : Act Unit := change (·.set r v)

def setSystem (r : Register) (v : Value) : Act Unit := change (·.setSystem r v)

def reset (r : Register) : Act Unit := change (·.initUser r)

def putFile (name : Text) (f : RecordFile) : Act Unit :=
  update fun m => { m with files := m.files.put name f }

/-- Counts a drawn text for the watcher. -/
def watched (m : Machine) : Machine :=
  match m.watcher with
  | 0 => m
  | 1 => { m with watcher := 0, keys := m.keys.terminate }
  | n + 2 => { m with watcher := n + 1 }

def draw (d : Screen.Drawing) : Act Unit := update fun m =>
  let drawn := { m with
    screen := m.screen.apply d
    journal := { m.journal with damage := (m.screen.damage d).reverse ++ m.journal.damage } }
  match d with
  | .text .. => watched drawn
  | _ => drawn

def drawAll : List Screen.Drawing → Act Unit
  | [] => pure ()
  | d :: rest => do draw d; drawAll rest

/-- Takes over the keys, and tells when the last keypad has been found gone. -/
def adopt (keys : KeyQueue) : Act Unit := do
  let gone := keys.cancelled && !(← read Machine.keys).cancelled
  update fun m => { m with keys }
  if gone then note .keypadsGone

/-- The next key code, none once the input has ended. -/
def nextCode : Act (Option Int32) := do
  let (r, keys) := (← read Machine.keys).next
  adopt keys
  match r with
  | .key code => pure (some code)
  | .ended => pure none
  | .waiting => stop .waiting

/-- Sleeps; false if a request to terminate cut it short. -/
def sleep (ms : Nat) : Act Bool := do
  let (done, keys) := (← read Machine.keys).sleep ms
  update fun m => { m with keys, journal := { m.journal with slept := m.journal.slept + ms } }
  pure done

/-- Skips unknown codes up to a known key. The first argument bounds the codes. -/
def knownKeyAmong (beep : Bool) : Nat → Act (Option Key)
  | 0 => stop .waiting
  | n + 1 => do
    match ← nextCode with
    | none => pure none
    | some code =>
      match Key.ofCode32? code with
      | some k => pure (some k)
      | none =>
        note (.unknownKey code)
        if beep then draw .beep
        knownKeyAmong beep n

/-- The next known key; codes that are none are reported, and may beep. -/
def knownKey (beep : Bool) : Act (Option Key) := do
  knownKeyAmong beep ((← read Machine.keys).size + 1)

end Act
end Machine
end Handheld
