import Handheld.Instruction.Setting
import Handheld.Instruction.Operand
import Handheld.Instruction.Barcode
import Handheld.Label

namespace Handheld

/-- Everything an instruction can do apart from jumping. Positions, rows and columns count from
zero. -/
inductive Operation where
  | assign (dst : Register) (src : Operand)
  | stringConcat (dst : Register) (dstPos : Nat) (first : Slice) (second : Option Slice)
  | extractCopy (dst : Register) (dstPos : Nat) (src : Slice)
  | stringShift (reg : Register) (size : Nat) (align : Align) (fill : UInt8)
  | numberToString (dst src : Register)
  | variableInit (reg : Register)
  | recordWrite (file : FileName) (recordLen : Nat) (src : Register) (overwrite crlf : Bool)
  | recordRead (file : FileName) (recordLen : Nat) (dst : Register) (pos : FilePosition)
  | recordCount (file : FileName) (recordLen : Nat) (dst : Register)
  | fileDelete (file : FileName)
  | fileExists (file : FileName)
  | masterSearch (file : FileName) (recordLen : Nat) (key : Slice) (key2 : Option Slice)
      (method : UInt8) (pos : FilePosition) (result : Register)
  | echoedInput (row col : Nat) (dst : Register) (columns : Nat) (noEcho : Bool) (full : FullAction)
      (special : KeySet) (cursor : CursorShape) (minus : Bool)
  | barcodeInput (row col : Nat) (dst : Register) (columns : Nat) (special : KeySet)
      (full : FullAction) (flags : ScanFlags)
  | barcodeSetup (setup : BarcodeSetup)
  | noEchoInput (dst : Register)
  | displayString (row col clear : Nat) (text : Text)
  | displayClear
  | displayPartClear (row col len : Nat) (quarter : Bool)
  | displayRegister (row col : Nat) (reg : Register) (start len clear : Nat) (quarter reverse : Bool)
  | upload (file : FileName) (gaugeKind gaugeLine : UInt8) (stopKey : Option Key)
  | download (gaugeKind gaugeLine : UInt8) (stopKey : Option Key)
  | wait (ms : UInt32)
  deriving DecidableEq

namespace Operation

def name : Operation → String
  | assign .. => "assign"
  | stringConcat .. => "string_concat"
  | extractCopy .. => "extract_copy"
  | stringShift .. => "string_shift"
  | numberToString .. => "number_to_string"
  | variableInit .. => "variable_init"
  | recordWrite .. => "record_write"
  | recordRead .. => "record_read"
  | recordCount .. => "record_count"
  | fileDelete .. => "file_delete"
  | fileExists .. => "file_exists"
  | masterSearch .. => "master_search"
  | echoedInput .. => "echoed_input"
  | barcodeInput .. => "barcode_input"
  | barcodeSetup .. => "barcode_info"
  | noEchoInput .. => "no_echo_input"
  | displayString .. => "display_string"
  | displayClear => "display_clear"
  | displayPartClear .. => "display_part_clear"
  | displayRegister .. => "display_register"
  | upload .. => "comm_upload"
  | download .. => "comm_download"
  | wait .. => "wait"

/-- The register that the operation stores into, which must be a user register. -/
def written : Operation → Option Register
  | assign dst _ => some dst
  | stringConcat dst .. => some dst
  | extractCopy dst .. => some dst
  | stringShift reg .. => some reg
  | numberToString dst _ => some dst
  | variableInit reg => some reg
  | recordRead _ _ dst _ => some dst
  | recordCount _ _ dst => some dst
  | masterSearch _ _ _ _ _ _ result => some result
  | echoedInput _ _ dst .. => some dst
  | barcodeInput _ _ dst .. => some dst
  | noEchoInput dst => some dst
  | _ => none

/-- The keys that end an input besides Enter. -/
def specialKeys : Operation → Option KeySet
  | echoedInput _ _ _ _ _ _ special _ _ => some special
  | barcodeInput _ _ _ _ special _ _ => some special
  | _ => none

end Operation

inductive Instruction where
  | label (l : Label)
  | jump (target : Label)
  | jumpIf (cond : Condition) (target : Label)
  | op (op : Operation)
  deriving DecidableEq

namespace Instruction

def target? : Instruction → Option Label
  | jump t | jumpIf _ t => some t
  | _ => none

/-- A jump with another target; anything else as it is. -/
def retarget (i : Instruction) (t : Label) : Instruction :=
  match i with
  | jump _ => jump t
  | jumpIf c _ => jumpIf c t
  | i => i

def label? : Instruction → Option Label
  | label l => some l
  | _ => none

def isJump : Instruction → Bool
  | jump _ => true
  | _ => false

end Instruction
end Handheld
