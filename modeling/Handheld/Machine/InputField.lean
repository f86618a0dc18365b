import Handheld.Screen
import Handheld.Instruction.Basic
import Handheld.Word

namespace Handheld

/-- A field of the screen into which a line is typed. -/
structure InputField where
  row : Nat
  col : Nat
  dst : Register
  /-- The most bytes that can be typed. -/
  columns : Nat
  echo : Bool
  full : FullAction
  /-- The keys that end the input besides Enter. -/
  special : KeySet
  cursor : CursorShape
  deriving DecidableEq

namespace InputField

/-- What a key does, given what has been typed so far. -/
inductive Response where
  /-- Ends the input without storing it. -/
  | special
  /-- Ends the input and stores it. -/
  | commit
  /-- Something else than adding a byte: what is left, and the drawings that show it. -/
  | edit (typed : List UInt8) (drawings : List Screen.Drawing)
  /-- Adds a byte. -/
  | type (typed : List UInt8) (drawings : List Screen.Drawing)

/-- Digits can be typed into every field, a period into those that are not integers. -/
def accepts : Kind → Key → Bool
  | _, .num _ => true
  | k, .period => k ≠ .int
  | _, _ => false

def keyByte (k : Key) : UInt8 := k.code.toUInt8

/-- Special keys come first. Backspace and Clear also wipe cells that show nothing. -/
def respond (f : InputField) (typed : List UInt8) (k : Key) : Except Overflow Response :=
  if f.special.contains k then .ok .special
  else match k with
    | .enter => .ok .commit
    | .backspace =>
      if typed.isEmpty then .ok (.edit typed [])
      else
        (Word.check (f.col + typed.dropLast.length)).map fun col =>
          .edit typed.dropLast [.clearRegion f.row col 1]
    | .clear =>
      if typed.isEmpty then .ok (.edit typed [])
      else .ok (.edit [] [.clearRegion f.row f.col typed.length, .beep])
    | k =>
      if typed.length < f.columns ∧ accepts f.dst.kind k then
        if f.echo then
          (Word.check (f.col + typed.length + 1)).map fun _ =>
            .type (typed ++ [keyByte k]) [.text f.row (f.col + typed.length) ⟨[keyByte k]⟩]
        else .ok (.type (typed ++ [keyByte k]) [])
      else .ok (.edit typed [.beep])

/-- Where the cursor stands: behind what is typed, or on the last cell of a full field. -/
def cursorColumn (f : InputField) (typed : List UInt8) : Except Overflow Nat :=
  Word.check (f.col + min typed.length (f.columns - 1))

end InputField
end Handheld
