import Handheld.Line.Reader

namespace Handheld.Line

/-- One line: its number from one, its place in the file, and its bytes between prefix and CRLF. -/
@[ext] structure Frame where
  number : Nat
  start : Nat
  payload : List UInt8
  deriving DecidableEq

/-- The frame of a line without its CRLF. -/
def Frame.ofLine (number start : Nat) (line : List UInt8) : Except DecodeError Frame :=
  if line.length < prefixWidth then .error ⟨number, .noPrefix⟩
  else
    match Decimal.readUnsigned? (Word.limit - 1) (line.take prefixWidth) with
    | none => .error ⟨number, .noPrefix⟩
    | some declared =>
      let actual := line.length + crlf.length
      if declared = actual then .ok ⟨number, start, line.drop prefixWidth⟩
      else .error ⟨number, .wrongLength declared actual⟩

/-- The lines that remain. The line being read is given in reverse. -/
def framesFrom (number start : Nat) (line : List UInt8) : List UInt8 → Except DecodeError (List Frame)
  | [] => if line.isEmpty then .ok [] else .error ⟨number, .noTerminator⟩
  | 0x0D :: 0x0A :: r =>
    match Frame.ofLine number start line.reverse with
    | .error e => .error e
    | .ok f => (framesFrom (number + 1) (start + line.length + crlf.length) [] r).map (f :: ·)
  | b :: r => framesFrom number start (b :: line) r

/-- Splits a file into its lines and checks their lengths. -/
def frames (bytes : List UInt8) : Except DecodeError (List Frame) := framesFrom 1 0 [] bytes

end Handheld.Line
