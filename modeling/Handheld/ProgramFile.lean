import Handheld.Compiler
import Handheld.Line.Decode

namespace Handheld.ProgramFile

/-- Label offsets have 32 bits. -/
def offsetModulus : Nat := Word.limit32

def liftFault {α : Type} : Except Fault α → Except CompileError α
  | .ok a => .ok a
  | .error f => .error (.fault f)

def liftEncode {α : Type} : Except Line.EncodeError α → Except CompileError α
  | .ok a => .ok a
  | .error e => .error (.encode e)

/-- The body behind `body`, and the labels with their offsets. -/
def encodeBody (labels : LabelTable) (body : List UInt8) :
    List Instruction → Except CompileError (List UInt8 × LabelTable)
  | [] => .ok (body, labels)
  | .label l :: rest => do
    let labels ← liftFault (labels.set .offset l (body.length % offsetModulus))
    encodeBody labels body rest
  | .jump t :: rest => do
    let n ← liftFault (labels.get .number t)
    let bs ← liftEncode (Line.jump n).encode
    encodeBody labels (body ++ bs) rest
  | .jumpIf cond t :: rest => do
    let n ← liftFault (labels.get .number t)
    let bs ← liftEncode (Line.jumpIf cond n).encode
    encodeBody labels (body ++ bs) rest
  | .op o :: rest => do
    let bs ← liftEncode (Line.op o).encode
    encodeBody labels (body ++ bs) rest

/-- The label lines, in list order. -/
def encodeLabels (labels : LabelTable) : List Label → Except CompileError (List UInt8)
  | [] => .ok []
  | l :: rest => do
    let n ← liftFault (labels.get .number l)
    let offset ← liftFault (labels.get .offset l)
    let bs ← liftEncode (Line.label n offset).encode
    let more ← encodeLabels labels rest
    return bs ++ more

/-- Header and body of the file. The offsets are known once the body is written. -/
def encodeParts (p : Program) : Except CompileError (List UInt8 × List UInt8) := do
  let (body, labels) ← encodeBody p.labels [] p.code
  let title ← liftEncode (Line.title p.title).encode
  let more ← encodeLabels labels (p.code.filterMap Instruction.label?)
  return (title ++ more, body)

def encode (p : Program) : Except CompileError (List UInt8) :=
  (encodeParts p).map fun (header, body) => header ++ body

def encodeNote (header body : List UInt8) : Log.Entry :=
  Compiler.debug ("header " ++ Decimal.text header.length ++ " bytes, body " ++
    Decimal.text body.length ++ " bytes")

/-- The labels of the header: the table, and those not yet placed with their offsets, in order of
declaration. -/
structure Header where
  labels : LabelTable
  pending : List (Nat × Label)

/-- Declares one label. A repeated declaration has to agree with the first. -/
def Header.declare (h : Header) (number offset : Nat) : Except Line.Flaw Header :=
  if number = LabelTable.entryNumber then .error .reservedNumber
  else
    match h.labels.byNumber? number with
    | some l =>
      match h.labels.get .offset l with
      | .ok old => if old = offset then .ok h else .error (.twoOffsets number)
      | .error _ => .error (.twoOffsets number)
    | none =>
      let labels := h.labels.slots ++ [⟨some number, some offset, none⟩]
      .ok ⟨⟨labels⟩, h.pending ++ [(offset, ⟨h.labels.size⟩)]⟩

/-- Reads the label lines; answers the lines behind them. -/
def readHeader (h : Header) : List Line.Frame → Except Line.DecodeError (Header × List Line.Frame)
  | [] => .ok (h, [])
  | f :: rest =>
    if Line.Head.label.bytes.isPrefixOf f.payload then
      match Line.decode f.number f.payload with
      | .error e => .error e
      | .ok (.label number offset) =>
        match h.declare number offset with
        | .error flaw => .error ⟨f.number, flaw⟩
        | .ok h => readHeader h rest
      | .ok _ => .error ⟨f.number, .headerInside⟩
    else .ok (h, f :: rest)

/-- The instruction of a body line. -/
def instruction (h : Header) (f : Line.Frame) : Except Line.DecodeError Instruction :=
  let target (n : Nat) : Except Line.DecodeError Label :=
    match h.labels.byNumber? n with
    | some l => .ok l
    | none => .error ⟨f.number, .undeclared n⟩
  match Line.decode f.number f.payload with
  | .error e => .error e
  | .ok (.jump n) => (target n).map .jump
  | .ok (.jumpIf cond n) => (target n).map (.jumpIf cond)
  | .ok (.op o) => .ok (.op o)
  | .ok _ => .error ⟨f.number, .headerInside⟩

/-- Reads the body lines, each behind the pending labels with its offset. Labels that are left point
to no line; the error names the least offset, and the last line read. -/
def readBody (h : Header) (start last : Nat) :
    List Line.Frame → Except Line.DecodeError (List Instruction)
  | [] =>
    match (h.pending.map (·.1)).min? with
    | some offset => .error ⟨last, .orphanOffset offset⟩
    | none => .ok []
  | f :: rest =>
    let here := h.pending.filter fun p => p.1 = f.start - start
    let h := { h with pending := h.pending.filter fun p => p.1 ≠ f.start - start }
    match instruction h f with
    | .error e => .error e
    | .ok i =>
      (readBody h start f.number rest).map fun code => here.map (.label ·.2) ++ i :: code

def decode (bytes : List UInt8) : Except Line.DecodeError Program :=
  match Line.frames bytes with
  | .error e => .error e
  | .ok [] => .error ⟨1, .emptyProgram⟩
  | .ok (f :: rest) =>
    match Line.decode f.number f.payload with
    | .error e => .error e
    | .ok (.title t) =>
      match readHeader ⟨.initial, []⟩ rest with
      | .error e => .error e
      | .ok (h, body) =>
        let start := match body with
          | b :: _ => b.start
          | [] => bytes.length
        (readBody h start f.number body).map fun code => ⟨t, code, h.labels⟩
    | .ok _ => .error ⟨1, .noTitle⟩

def decodeNote (p : Program) : Log.Entry :=
  ⟨.debug, .programFile, "decoded " ++ Decimal.text p.code.length ++ " instructions, " ++
    Decimal.text (p.labels.size - 1) ++ " labels"⟩

end Handheld.ProgramFile
