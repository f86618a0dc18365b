import Handheld.Line.Field
import Handheld.Unicode.Category

namespace Handheld.Line

/-- What is wrong with a line. -/
inductive Flaw where
  /-- The line lacks this many bytes. -/
  | short (missing : Nat)
  | notNumber (raw : Text)
  | noRegister
  | unknownRegister (name : Text)
  | unknownKey (code : Nat)
  | unknownComparison (symbol : Text)
  | unknownFilePosition (name : Text)
  | positionZero
  /-- Bytes left over behind the last field. -/
  | trailing (n : Nat)
  | noTerminator
  | noPrefix
  | wrongLength (declared actual : Nat)
  | unknownHead (shown : Text)
  | malformedLabel (text : Text)
  | badNumeral (why : Decimal.Refusal)
  | unknownStartScreen (code : Nat)
  | unknownProfile (machine fontSize : Nat)
  | unknownFullAction (code : Nat)
  | unknownCursor (code : Nat)
  | noTextRegister (n : Nat)
  | unknownBarcodeRecord (n : Nat)
  | emptyProgram
  | noTitle
  | reservedNumber
  | twoOffsets (number : Nat)
  | undeclared (number : Nat)
  | headerInside
  | orphanOffset (offset : Nat)
  /-- A field ends at a position that needs more than 64 bits. -/
  | overflow
  deriving DecidableEq

/-- The number of the first bad line, from one, and what is wrong with it. -/
structure DecodeError where
  line : Nat
  flaw : Flaw
  deriving DecidableEq

def Flaw.message : Flaw → String
  | short n => "line ends " ++ Decimal.text n ++ " bytes early"
  | notNumber raw => "expected a number, found " ++ raw.quoted
  | noRegister => "expected a register name"
  | unknownRegister name => "unknown register " ++ name.quoted
  | unknownKey code => "unknown key code " ++ Decimal.text code
  | unknownComparison symbol => "unknown comparison " ++ symbol.quoted
  | unknownFilePosition name => "unknown file position " ++ name.quoted
  | positionZero => "positions start at 1"
  | trailing n => Decimal.text n ++ " unexpected trailing bytes"
  | noTerminator => "line has no CRLF terminator"
  | noPrefix => "line has no length prefix"
  | wrongLength declared actual =>
    "length prefix says " ++ Decimal.text declared ++ ", line is " ++ Decimal.text actual
  | unknownHead shown => "unsupported instruction head " ++ shown.quoted
  | malformedLabel text => "malformed label " ++ text.quoted
  | badNumeral why => why.message
  | unknownStartScreen code => "unknown start screen " ++ Decimal.text code
  | unknownProfile machine font =>
    "no profile for machine " ++ Decimal.text machine ++ " with " ++ Decimal.text font ++ "-dot font"
  | unknownFullAction code => "unknown full-column action " ++ Decimal.text code
  | unknownCursor code => "unknown cursor shape " ++ Decimal.text code
  | noTextRegister n => "no register DAT" ++ Decimal.text n
  | unknownBarcodeRecord n => "unknown barcode info record " ++ Decimal.text n
  | emptyProgram => "empty program"
  | noTitle => "program does not start with a title"
  | reservedNumber => "label number 1 is reserved for the entry point"
  | twoOffsets n => "label " ++ Decimal.text n ++ " declared at two offsets"
  | undeclared n => "jump to undeclared label " ++ Decimal.text n
  | headerInside => "header line inside the body"
  | orphanOffset n => "no instruction starts at label offset " ++ Decimal.text n
  | overflow => "a position is out of range"

def DecodeError.message (e : DecodeError) : String :=
  "line " ++ Decimal.text e.line ++ ": " ++ e.flaw.message

/-- A reading of the front of some bytes: what it yields, and the bytes it leaves. A field that is
too short leaves all of them, a field that does not parse is consumed. -/
def Read (α : Type) := List UInt8 → Except Flaw α × List UInt8

namespace Read

def fail {α : Type} (f : Flaw) : Read α := fun bs => (.error f, bs)

instance : Monad Read where
  pure a := fun bs => (.ok a, bs)
  bind m f := fun bs =>
    match m bs with
    | (.error e, r) => (.error e, r)
    | (.ok a, r) => f a r

@[simp] theorem run_pure {α : Type} (a : α) (bs : List UInt8) : (pure a : Read α) bs = (.ok a, bs) := rfl

theorem run_bind {α β : Type} (m : Read α) (f : α → Read β) (bs : List UInt8) :
    (m >>= f) bs = match m bs with
      | (.error e, r) => (.error e, r)
      | (.ok a, r) => f a r := rfl

def ofOption {α : Type} (f : Flaw) : Option α → Read α
  | some a => pure a
  | none => fail f

/-- Exactly `n` bytes. -/
def take (n : Nat) : Read (List UInt8) := fun bs =>
  if n ≤ bs.length then (.ok (bs.take n), bs.drop n) else (.error (.short (n - bs.length)), bs)

def skip (n : Nat) : Read Unit := do let _ ← take n

/-- All bytes that are left. -/
def rest : Read (List UInt8) := fun bs => (.ok bs, [])

def text (n : Nat) : Read Text := return ⟨← take n⟩

/-- The number of a field with white space around the digits and an optional plus sign. -/
def parseInt? (raw : List UInt8) : Option Nat :=
  (Utf8.decode? raw).bind fun s =>
    Decimal.readUnsigned? (Word.limit - 1) ((Unicode.trim s.toList).flatMap Utf8.encodeChar)

def int (n : Nat) : Read Nat := do
  let raw ← take n
  ofOption (.notNumber ⟨raw⟩) (parseInt? raw)

/-- Every number but one is false. -/
def flag : Read Bool := return (← int 1) == 1

/-- A position, from zero. -/
def position (n : Nat) : Read Nat := do
  match ← int n with
  | 0 => fail .positionZero
  | pos + 1 => pure pos

def optRegister : Read (Option Register) := do
  let name := (← text registerWidth).trim
  if name.isEmpty then pure none
  else return some (← ofOption (.unknownRegister name) (Register.ofName? name.lossy))

def register : Read Register := do ofOption .noRegister (← optRegister)

def key : Read (Option Key) := do
  let raw ← take keyWidth
  if raw.all (· == Text.fill) then pure none
  else
    let code ← ofOption (.notNumber ⟨raw⟩) (parseInt? raw)
    return some (← ofOption (.unknownKey code) (Key.ofCode? code))

/-- The keys of `n` places, blank ones skipped. -/
def keyPlaces : Nat → Read (List Key)
  | 0 => pure []
  | n + 1 => do
    let k ← key
    return k.toList ++ (← keyPlaces n)

def keys : Read KeySet := return .ofList (← keyPlaces KeySet.special)

def comparison : Read Comparison := do
  let raw := (← text 2).trim
  ofOption (.unknownComparison raw) (Comparison.ofSymbol? raw.lossy)

/-- A name without the blanks around it; the name of a pooled text register refers to it. -/
def fileName : Read FileName := do
  let name := (← text fileNameWidth).trim
  match Register.ofName? name.lossy with
  | some r => if r.isPooled && r.kind = .text then pure (.register r) else pure (.literal name)
  | none => pure (.literal name)

def filePosition : Read FilePosition := do
  let name := (← text 4).trim
  ofOption (.unknownFilePosition name) (FilePosition.ofName? name.lossy)

/-- The rest of the line: a register where it names one, else a literal of the kind. -/
def operand (kind : Kind) : Read Operand := do
  let raw : Text := ⟨← rest⟩
  match Register.ofName? raw.trim.lossy with
  | some r => pure (.register r)
  | none => pure (.value ((Value.text raw).coerce kind))

/-- Refuses bytes that are left over. -/
def finish : Read Unit := fun bs =>
  if bs.isEmpty then (.ok (), bs) else (.error (.trailing bs.length), bs)

end Read

/-- A line that is being read: how many bytes have been consumed, and those that are left. -/
structure Reader where
  position : Nat
  left : List UInt8

namespace Reader

def ofBytes (bs : List UInt8) : Reader := ⟨0, bs⟩

def run {α : Type} (r : Reader) (m : Read α) : Except Flaw α × Reader :=
  let (a, left) := m r.left
  (a, ⟨r.position + (r.left.length - left.length), left⟩)

/-- Reads a field of `n` bytes. -/
def field {α : Type} (r : Reader) (n : Nat) (m : Nat → Read α) : Except Flaw α × Reader :=
  if r.position + n < Word.limit then r.run (m n) else (.error .overflow, r)

end Reader
end Handheld.Line
