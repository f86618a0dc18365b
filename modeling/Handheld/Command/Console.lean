import Handheld.Command.Arguments
import Handheld.Command.Error
import Handheld.Instruction.Trace
import Handheld.Machine.Step
import Handheld.Unicode.Category

namespace Handheld

namespace Machine

/-- A number in five columns. -/
def inFive (n : Nat) : String :=
  let s := Decimal.text n
  String.ofList (List.replicate (5 - s.length) ' ') ++ s

/-- What a run tells, as a log entry. -/
def Note.entry : Note → Log.Entry
  | starting title count =>
    ⟨.info, .machine,
      "starting " ++ title.quoted ++ ", " ++ Decimal.text count ++ " instructions"⟩
  | executing pc i => ⟨.trace, .machine, inFive pc ++ ": " ++ i.trace⟩
  | unknownKey code =>
    ⟨.warn, .machine, "ignoring unknown key code " ++ Decimal.signedText code.toInt⟩
  | keypadsGone => ⟨.debug, .keypad, "all keypads disconnected"⟩
  | link e => e
  | inputExhausted => ⟨.info, .machine, "input exhausted, stopping at entry"⟩
  | terminated pc => ⟨.info, .machine, "terminated at pc " ++ Decimal.text pc⟩

end Machine

namespace Command

def lower (c : Char) : Char := if 'A' ≤ c ∧ c ≤ 'Z' then Char.ofNat (c.toNat + 32) else c

def upper (c : Char) : Char := if 'a' ≤ c ∧ c ≤ 'z' then Char.ofNat (c.toNat - 32) else c

/-- A key by its name in any case, or a raw code. -/
def keyCode? (token : List Char) : Option Int32 :=
  match Key.all.find? fun k => k.name.toList.map lower = token.map lower with
  | some k => some k.code32
  | none => Decimal.readInt32? (token.flatMap Utf8.encodeChar)

def press (k : Machine) (code : Int32) : Machine := { k with keys := (k.keys.press code).2 }

/-- Presses the keys of a line up to the first that is unknown. -/
def pressAll (k : Machine) : List (List Char) → Except CommandError Machine
  | [] => .ok k
  | token :: rest =>
    match keyCode? token with
    | some code => pressAll (press k code) rest
    | none => .error (.unknownKey (String.ofList token))

end Command

namespace Host

open Command

variable {m : Type → Type} [Monad m]

def tell (host : Host m) (s : Command.Settings) (e : Log.Entry) : m Unit :=
  if Log.shown (.ofVerbosity s.verbosity) e then host.report e.line else pure ()

def tellAll (host : Host m) (s : Command.Settings) : List Log.Entry → m Unit
  | [] => pure ()
  | e :: rest => do
    host.tell s e
    host.tellAll s rest

/-- Presses the keys of a typed line; unknown ones only give a warning. -/
def typeKeys (host : Host m) (s : Command.Settings) (k : Machine) : List (List Char) → m Machine
  | [] => pure k
  | token :: rest =>
    match keyCode? token with
    | some code => host.typeKeys s (press k code) rest
    | none => do
      host.tell s ⟨.warn, .command, (CommandError.unknownKey (String.ofList token)).diagnostic.message⟩
      host.typeKeys s k rest

/-- Presses what is on the next line typed. The keypad goes away when there is none, and at a line
that is no text. -/
def typeLine (host : Host m) (s : Command.Settings) (k : Machine) : m Machine := do
  match (← host.readLine).bind Utf8.decode? with
  | some line => host.typeKeys s k (Unicode.words line.toList)
  | none => pure { k with keys := k.keys.removeKeypad }

/-- Tells what has happened in the machine, and lets the time pass that it has slept. -/
def settle (host : Host m) (s : Command.Settings) (k : Machine) : m Machine := do
  host.tellAll s (k.journal.notes.reverse.map Machine.Note.entry)
  if 0 < k.journal.slept then host.pause k.journal.slept
  return { k with journal := .empty }

/-- One step at the present time, with a directory or nobody at the end of the link. -/
def step (host : Host m) (link : Option String) (k : Machine) :
    m (Except Machine.Stop Machine.Step × Machine) := do
  let k := { k with registers := { k.registers with clock := ← host.now } }
  match k.request? with
  | none => return k.step ⟨.empty, []⟩
  | some request =>
    match link with
    | some dir => return k.step (← host.directoryLink dir request)
    | none => return k.step (.nobody request)

end Host
end Handheld
