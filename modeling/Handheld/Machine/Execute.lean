import Handheld.Machine.LineInput

namespace Handheld.Machine.Act

def noFile : Int32 := -1

def badPosition : Int32 := -2

def status (code : Int32) : Act Unit := setSystem .rslt (.int code)

/-- Success, or the status of a movement or transfer that failed. -/
def statusIf (ok : Bool) : Act Unit := status (if ok then success else badPosition)

def textOf (r : Register) : Act Text := read fun m => m.registers.text r

def valueOf : Operand → Act Value
  | .register r => read fun m => m.registers.get r
  | .key k => pure (.ofKey k)
  | .value v => pure v

def nameOf : FileName → Act Text
  | .literal name => pure name
  | .register r => textOf r

def file? (name : Text) : Act (Option RecordFile) := read fun m => m.files.get? name

/-- The part of a slice that its register holds. -/
def available (s : Slice) : Act Text := do
  let t ← textOf s.reg
  return t.slice s.pos (min (t.length - s.pos) s.len)

def availableAll : List Slice → Act (List Text)
  | [] => pure []
  | s :: rest => do return (← available s) :: (← availableAll rest)

/-- The bytes of a slice, the text of its register padded with blanks up to the end of it. -/
def padded (s : Slice) : Act Text := do
  let t ← checked ((← textOf s.reg).forced (s.pos + s.len))
  return t.slice s.pos s.len

/-- Writes a piece over a text register. -/
def overwrite (dst : Register) (pos : Nat) (piece : Text) : Act Unit := do
  let t ← checked ((← textOf dst).overwrite pos piece)
  set dst (.text t)

/-- All pieces are read before the first is written; the text grows to the end of the last. -/
def stringConcat (dst : Register) (pos : Nat) (first : Slice) (second : Option Slice) : Act Unit := do
  let pieces ← availableAll (first :: second.toList)
  let t ← checked ((← textOf dst).grow (pos + Text.lengths pieces))
  let t ← checked (t.overwriteEach pos pieces)
  set dst (.text t)

/-- A text that is too long is cut on the right on either side. -/
def stringShift (reg : Register) (size : Nat) (align : Align) (fill : UInt8) : Act Unit := do
  let size ← checked (Text.checkSize size)
  let t ← textOf reg
  set reg (.text (match align with
    | .left => t.forceSize size fill
    | .right => t.forceSizeRight size fill))

def numberToString (dst src : Register) : Act Unit := do
  let t ← textOf src
  set dst (.text t)
  status (Int32.ofNat t.length)

/-- What ends a record on request: a carriage return and a line feed. -/
def recordEnd : Text := ⟨[0x0D, 0x0A]⟩

def recordWrite (name : FileName) (len : Nat) (src : Register) (replacing crlf : Bool) : Act Unit := do
  let name ← nameOf name
  let f ← read fun m => m.files.ensure name
  let place := if replacing then f.pointer else f.size
  let lineEnd : Text := if crlf then recordEnd else .empty
  let _ ← checked (Text.checkSize (place + len + lineEnd.length))
  let record := (← textOf src).forceSize len Text.fill ++ lineEnd
  putFile name (if replacing then f.write record else f.append record)

/-- Moves the pointer of a file; staying in place always succeeds. -/
def moved (f : RecordFile) (len : Nat) : FilePosition → Except Overflow (Bool × RecordFile)
  | .previous => .ok (f.previous len)
  | .next => f.next len
  | .top => .ok (f.top len)
  | .bottom => .ok (f.bottom len)
  | .current => .ok (true, f)

/-- Reads after the movement also if it failed; then the record is blank. -/
def recordRead (name : FileName) (len : Nat) (dst : Register) (pos : FilePosition) : Act Unit := do
  let name ← nameOf name
  match ← file? name with
  | none => status noFile
  | some f =>
    let (ok, f) ← checked (moved f len pos)
    putFile name f
    match ← checked (f.read len) with
    | none => status badPosition
    | some record =>
      set dst (.text record)
      statusIf ok

def recordCount (name : FileName) (len : Nat) (dst : Register) : Act Unit := do
  match ← file? (← nameOf name) with
  | none => status noFile
  | some f =>
    if len = 0 then status badPosition
    else
      set dst (.int (Int32.ofNat (f.count len)))
      status success

def fileDelete (name : FileName) : Act Unit := do
  let name ← nameOf name
  match ← file? name with
  | none => status noFile
  | some _ =>
    update fun m => { m with files := m.files.delete name }
    status success

def fileExists (name : FileName) : Act Unit := do
  status (if (← file? (← nameOf name)).isSome then success else noFile)

/-- Puts a field behind the key so far, its register cut or padded to the length of the field. -/
def joinField (key : Text) (s : Slice) : Act Text := do
  let field ← checked ((← textOf s.reg).forced s.len)
  checked (key.joined field)

/-- The searched key. -/
def searchKey (keys : List Slice) : Act Text := keys.foldlM joinField .empty

def masterSearch (name : FileName) (len : Nat) (keys : List Slice) (result : Register) :
    Act Unit := do
  let name ← nameOf name
  let key ← searchKey keys
  match ← file? name with
  | none =>
    reset result
    status noFile
  | some f =>
    match f.search len (keys.map fun s => ⟨s.pos, s.len⟩) key with
    | (some record, f) =>
      putFile name f
      set result (.text record)
      status success
    | (none, _) =>
      reset result
      status badPosition

/-- Stores the code of the next known key. -/
def noEchoInput (dst : Register) : Act Unit := do
  match ← knownKey true with
  | some k => set dst (.ofKey k)
  | none => pure ()

/-- Clears a region before something is shown in it. -/
def clearBefore (row col clear : Nat) : Act Unit :=
  if 0 < clear then draw (.clearRegion row col clear) else pure ()

def displayString (row col clear : Nat) (t : Text) : Act Unit := do
  clearBefore row col clear
  draw (.text row col t)

def displayRegister (row col clear : Nat) (s : Slice) : Act Unit := do
  clearBefore row col clear
  draw (.text row col (← padded s))

def upload (reply : LinkReply) (name : FileName) : Act Unit := do
  match ← file? (← nameOf name) with
  | none => status noFile
  | some _ =>
    notes (reply.log.map .link)
    statusIf !reply.transfer.stopped

def putFiles : List TransferFile → Act Unit
  | [] => pure ()
  | f :: rest => do
    putFile f.name (.ofText f.content)
    putFiles rest

/-- Received files replace those with their names, also when the transfer has been stopped. -/
def download (reply : LinkReply) : Act Unit := do
  notes (reply.log.map .link)
  putFiles reply.transfer.files
  statusIf !reply.transfer.stopped

/-- Runs an operation; `reply` is the answer of the link, should it ask for one. -/
def execute (reply : LinkReply) : Operation → Act Unit
  | .assign dst src => do set dst (← valueOf src)
  | .stringConcat dst pos first second => stringConcat dst pos first second
  | .extractCopy dst pos src => do overwrite dst pos (← padded src)
  | .stringShift reg size align fill => stringShift reg size align fill
  | .numberToString dst src => numberToString dst src
  | .variableInit reg => reset reg
  | .recordWrite file len src replacing crlf => recordWrite file len src replacing crlf
  | .recordRead file len dst pos => recordRead file len dst pos
  | .recordCount file len dst => recordCount file len dst
  | .fileDelete file => fileDelete file
  | .fileExists file => fileExists file
  | .masterSearch file len key key2 _ _ result => masterSearch file len (key :: key2.toList) result
  | .echoedInput row col dst columns noEcho full special cursor _ =>
    lineInput ⟨row, col, dst, columns, !noEcho, full, special, if noEcho then .none else cursor⟩
  | .barcodeInput row col dst columns special full flags =>
    lineInput ⟨row, col, dst, columns, true, full, special,
      if flags.underbarCursor then .underbar else .none⟩
  | .barcodeSetup _ => pure ()
  | .noEchoInput dst => noEchoInput dst
  | .displayString row col clear t => displayString row col clear t
  | .displayClear => draw .clearAll
  | .displayPartClear row col len _ => draw (.clearRegion row col len)
  | .displayRegister row col reg start len clear _ _ => displayRegister row col clear ⟨reg, start, len⟩
  | .upload file _ _ _ => upload reply file
  | .download _ _ _ => download reply
  | .wait ms => do let _ ← sleep ms.toNat

end Handheld.Machine.Act
