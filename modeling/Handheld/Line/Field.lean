import Handheld.Instruction.Basic
import Handheld.Text.Quoted

namespace Handheld.Line

/-- Why something cannot be written as a line. -/
inductive EncodeError where
  /-- A number that needs another number of digits than its field has. -/
  | misfit (field : String) (value width : Nat)
  /-- Text with a carriage return or a line feed. -/
  | lineBreak (field : String)
  | tooManyKeys (count : Nat)
  /-- A line of more bytes than its length prefix can say. -/
  | tooLong (total : Nat)
  /-- A literal that is spelled like a register. -/
  | readsAsRegister (literal : Text) (reg : Register)
  /-- A position whose one-based form needs more than 64 bits, or a size out of range. -/
  | overflow
  deriving DecidableEq

namespace EncodeError

/-- The field that a message names. -/
def field : EncodeError → String
  | misfit f _ _ => f
  | lineBreak f => f
  | tooManyKeys _ => "special keys"
  | tooLong _ => "line"
  | readsAsRegister _ _ => "literal"
  | overflow => "position"

def reason : EncodeError → String
  | misfit _ v w => Decimal.text v ++ " does not fit in " ++ Decimal.text w ++ " digits"
  | lineBreak _ => "line breaks cannot be encoded"
  | tooManyKeys n => Decimal.text n ++ " keys, at most 10"
  | tooLong n => Decimal.text n ++ " bytes is longer than 999"
  | readsAsRegister t r => "'" ++ t.lossy ++ "' would read back as register " ++ r.name
  | overflow => "is out of range"

def message (e : EncodeError) : String := "cannot encode " ++ e.field ++ ": " ++ e.reason

end EncodeError

def registerWidth : Nat := 5

def fileNameWidth : Nat := 12

def keyWidth : Nat := 3

/-- One field with its content. -/
inductive Field where
  /-- A number with leading zeros. -/
  | int (name : String) (value width : Nat)
  /-- A position, counted from one in the line. -/
  | position (name : String) (pos width : Nat)
  | flag (b : Bool)
  | pad (byte : UInt8) (n : Nat)
  | bytes (name : String) (bs : List UInt8)
  /-- A register's name on the left, or blanks. -/
  | register (reg : Option Register)
  /-- The code of a key, or blanks. -/
  | key (k : Option Key)
  /-- Ten places for keys, blank after the last key. -/
  | keys (s : KeySet)
  | comparison (c : Comparison)
  | fileName (file : Option FileName)
  | filePosition (p : FilePosition)
  /-- A register's name, or the literal converted to the kind. Nothing marks a literal, so one that
  is spelled like a register is refused. -/
  | operand (o : Operand) (kind : Kind)

/-- Cut or padded with blanks on the right. -/
def left (width : Nat) (s : String) : List UInt8 := ((Text.ofString s).forceSize width Text.fill).bytes

/-- The greatest width of a number. -/
def widthLimit : Nat := 0xFFFF

def intBytes (name : String) (value width : Nat) : Except EncodeError (List UInt8) :=
  if widthLimit < width then .error .overflow
  else if 0 < width ∧ value < Decimal.power width then .ok (Decimal.padded width value)
  else .error (.misfit name value width)

def plainBytes (name : String) (bs : List UInt8) : Except EncodeError (List UInt8) :=
  if bs.any fun b => b = 0x0D || b = 0x0A then .error (.lineBreak name) else .ok bs

def keyBytes (k : Key) : List UInt8 := Decimal.padded keyWidth k.code

def blanks (n : Nat) : List UInt8 := List.replicate n Text.fill

def operandBytes (o : Operand) (kind : Kind) : Except EncodeError (List UInt8) :=
  match o.normalize kind with
  | .register r => .ok (left registerWidth r.name)
  | .key k => plainBytes "literal" (Value.ofKey k).toText.bytes
  | .value v =>
    match Register.ofName? v.toText.trim.lossy with
    | some r => .error (.readsAsRegister v.toText r)
    | none => plainBytes "literal" v.toText.bytes

def Field.encode : Field → Except EncodeError (List UInt8)
  | int name value width => intBytes name value width
  | position name pos width =>
    if pos + 1 < Word.limit then intBytes name (pos + 1) width else .error .overflow
  | flag b => .ok [if b then 0x31 else 0x30]
  | pad byte n => .ok (List.replicate n byte)
  | bytes name bs => plainBytes name bs
  | register none => .ok (blanks registerWidth)
  | register (some r) => .ok (left registerWidth r.name)
  | key none => .ok (blanks keyWidth)
  | key (some k) => .ok (keyBytes k)
  | keys s =>
    if KeySet.special < s.size then .error (.tooManyKeys s.size)
    else .ok (s.keys.flatMap keyBytes ++ blanks (keyWidth * (KeySet.special - s.size)))
  | comparison c => .ok (left 2 c.symbol)
  | fileName none => .ok (blanks fileNameWidth)
  | fileName (some (.literal name)) =>
    plainBytes "file name" (name.forceSize fileNameWidth Text.fill).bytes
  | fileName (some (.register r)) => .ok (left fileNameWidth r.name)
  | filePosition p => .ok (left 4 p.name)
  | operand o kind => operandBytes o kind

/-- The fields one after the other, up to the first that is refused. -/
def encodeFields : List Field → Except EncodeError (List UInt8)
  | [] => .ok []
  | f :: r =>
    match f.encode with
    | .error e => .error e
    | .ok bs =>
      match encodeFields r with
      | .error e => .error e
      | .ok rest => .ok (bs ++ rest)

def crlf : List UInt8 := [0x0D, 0x0A]

/-- The width of the length prefix. -/
def prefixWidth : Nat := 3

/-- A whole line: its total length, the head, the fields and the line end. -/
def frame (head payload : List UInt8) : Except EncodeError (List UInt8) :=
  let total := prefixWidth + head.length + payload.length + crlf.length
  if total < Decimal.power prefixWidth then
    .ok (Decimal.padded prefixWidth total ++ head ++ payload ++ crlf)
  else .error (.tooLong total)

/-- A line under construction. -/
structure Writer where
  buffer : List UInt8

namespace Writer

def empty : Writer := ⟨[]⟩

/-- So many more bytes do not make the line longer than a text can be. -/
def hasRoom (w : Writer) : Field → Bool
  | .pad _ n => w.buffer.length + n < Text.sizeLimit
  | _ => true

/-- Appends keys up to the first that is refused; those before it stay. -/
def putKeys : List Key → Writer → Except EncodeError Unit × Writer
  | [], w => (.ok (), w)
  | k :: ks, w =>
    match intBytes "key" k.code keyWidth with
    | .error e => (.error e, w)
    | .ok bs => putKeys ks ⟨w.buffer ++ bs⟩

/-- Appends a field. The answer is whether it was refused; the writer is the one behind it. The keys of
a set are appended one by one. -/
def put (w : Writer) (f : Field) : Except EncodeError Unit × Writer :=
  if w.hasRoom f then
    match f with
    | .keys s =>
      if KeySet.special < s.size then (.error (.tooManyKeys s.size), w)
      else
        match putKeys s.keys w with
        | (.error e, w) => (.error e, w)
        | (.ok (), w) => (.ok (), ⟨w.buffer ++ blanks (keyWidth * (KeySet.special - s.size))⟩)
    | f =>
      match f.encode with
      | .error e => (.error e, w)
      | .ok bs => (.ok (), ⟨w.buffer ++ bs⟩)
  else (.error .overflow, w)

/-- The finished line, and the writer behind it: an emptied one, or the same if the line is too long. -/
def finish (w : Writer) (head : List UInt8) : Except EncodeError (List UInt8) × Writer :=
  match frame head w.buffer with
  | .error e => (.error e, w)
  | .ok line => (.ok line, empty)

end Writer
end Handheld.Line
