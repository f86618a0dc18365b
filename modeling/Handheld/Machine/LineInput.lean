import Handheld.Machine.Basic
import Handheld.Machine.InputField

namespace Handheld.Machine.Act

/-- The status of an operation that succeeded. -/
def success : Int32 := 0

/-- Ends the input without storing anything. -/
def abandon : Act Unit := draw .hideCursor

/-- Ends the input with a special key: its code is the result. -/
def endSpecial (k : Key) : Act Unit := do
  setSystem .rslt (.ofKey k)
  setSystem .endky (.int 1)
  setSystem .numbr (.int 0)
  draw .hideCursor

/-- Stores what has been typed and its length. -/
def commitLine (f : InputField) (typed : List UInt8) : Act Unit := do
  set f.dst (.text ⟨typed⟩)
  setSystem .rslt (.int success)
  setSystem .endky (.int 0)
  setSystem .numbr (.int (Int32.ofNat typed.length))
  draw .hideCursor

def showCursor (f : InputField) (typed : List UInt8) : Act Unit := do
  if f.cursor ≠ .none then
    draw (.cursor f.row (← checked (f.cursorColumn typed)) f.cursor)

/-- The milliseconds before a full field is taken. -/
def fullPause : Nat := 1000

/-- Takes one key after the other until one ends the input; the first argument bounds the keys. -/
def typeLine (f : InputField) : Nat → List UInt8 → Act Unit
  | 0, _ => stop .waiting
  | n + 1, typed => do
    showCursor f typed
    match ← knownKey false with
    | none => abandon
    | some k =>
      match ← checked (f.respond typed k) with
      | .special => endSpecial k
      | .commit => commitLine f typed
      | .edit typed drawings =>
        drawAll drawings
        typeLine f n typed
      | .type typed drawings =>
        drawAll drawings
        if typed.length < f.columns then typeLine f n typed
        else match f.full with
          | .immediate => commitLine f typed
          | .oneSecond => if ← sleep fullPause then commitLine f typed else abandon
          | .nothing => typeLine f n typed

def lineInput (f : InputField) : Act Unit := do
  typeLine f ((← read Machine.keys).size + 1) []

end Handheld.Machine.Act
