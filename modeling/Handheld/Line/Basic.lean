import Handheld.Line.Head
import Handheld.Line.Field

namespace Handheld

/-- A line of a program file. Jumps go to label numbers here. -/
inductive Line where
  | title (t : Title)
  | label (number offset : Nat)
  | jump (number : Nat)
  | jumpIf (cond : Condition) (number : Nat)
  | op (op : Operation)
  deriving DecidableEq

namespace Line

/-- What follows the map of a symbology record. -/
def symbologyDetail : List UInt8 :=
  [0x30, 0x30, 0x30, 0x30, 0x36, 0x30, 0x32, 0x30, 0x34, 0x38, 0x30, 0x30, 0x33, 0x31, 0x32]

def zeros (n : Nat) : Field := .pad 0x30 n

def sliceFields (s : Slice) : List Field :=
  [.register (some s.reg), .position "position" s.pos 3, .int "size" s.len 3]

/-- The place of a slice that is absent in a concatenation. -/
def noSliceFields : List Field := [.register none, .int "position" 1 3, .int "size" 0 3]

def recordFields (file : FileName) (recordLen : Nat) : List Field :=
  [.fileName (some file), zeros 1, .int "record length" recordLen 3]

def placeFields (row col : Nat) : List Field := [.int "column" col 2, .int "row" row 2]

def transferFields (kind line : UInt8) (stop : Option Key) : List Field :=
  [.int "gauge kind" kind.toNat 1, .int "gauge line" line.toNat 1, .key stop]

def titleFields (t : Title) : List Field :=
  [.bytes "title" (t.title.forceSize Title.titleMax Text.fill).bytes, .pad Text.fill 1,
    .bytes "version" (t.version.forceSize Title.versionMax Text.fill).bytes,
    .int "start screen" t.startScreen.code 1, .int "font size" t.profile.fontSize 2, .flag t.click,
    .int "machine" t.profile.machine 4]

def setupFields : BarcodeSetup → List Field
  | .symbology map =>
    [.int "barcode info" 1 1, zeros 2, .int "symbology map" map.toNat 3,
      .bytes "detail" symbologyDetail]
  | .reader s =>
    .int "barcode info" 2 1 :: (s.digits.toList.map fun d => .int "digits" d.toNat 3) ++
      [zeros 1, .int "buzzer frequency" s.buzzerFrequency.toNat 4,
        .int "buzzer length" s.buzzerLength.toNat 4, zeros 2, .int "laser" s.laser.toNat 2, zeros 1,
        .int "verify" s.verify.toNat 1, .int "vibration" s.vibration.toNat 4]

def operationFields : Operation → List Field
  | .assign dst src => [.register (some dst), .operand src dst.kind]
  | .stringConcat dst dstPos first second =>
    sliceFields first ++
      (match second with
      | some s => sliceFields s
      | none => noSliceFields) ++
      [.register (some dst), .position "position" dstPos 3]
  | .extractCopy dst dstPos src =>
    sliceFields src ++ [.register (some dst), .position "position" dstPos 3]
  | .stringShift reg size align fill =>
    [.register (some reg), .int "size" size 3,
      .pad (match align with
        | .left => 0x4C
        | .right => 0x52) 1,
      .bytes "fill" [fill]]
  | .numberToString dst src => [.register (some dst), .register (some src)]
  | .variableInit reg => [.register (some reg)]
  | .recordWrite file recordLen src overwrite crlf =>
    recordFields file recordLen ++ [.flag crlf, .register (some src), .flag overwrite]
  | .recordRead file recordLen dst pos =>
    recordFields file recordLen ++ [.register (some dst), .filePosition pos]
  | .recordCount file recordLen dst => recordFields file recordLen ++ [.register (some dst)]
  | .fileDelete file => [.fileName (some file)]
  | .fileExists file => [.fileName (some file)]
  | .masterSearch file recordLen key key2 method pos result =>
    recordFields file recordLen ++ sliceFields key ++
      (match key2 with
      | some k => sliceFields k
      | none => [.pad Text.fill 11]) ++
      [.int "search method" method.toNat 1, .filePosition pos, .register (some result)]
  | .echoedInput row col dst columns noEcho full special cursor minus =>
    placeFields row col ++
      [.register (some dst), .int "columns" columns 3, .flag noEcho, .int "full action" full.code 1,
        .keys special, .int "cursor" cursor.code 1, .flag minus]
  | .barcodeInput row col dst columns special full flags =>
    placeFields row col ++
      [.int "register" dst.ordinal 2, .int "columns" columns 3, zeros 11, .flag flags.vibrate,
        .flag flags.continued, .flag flags.buzzerLed, .flag flags.keyInterrupt,
        .flag flags.ignoreTrigger, .keys special, .int "full action" full.code 1,
        .flag flags.underbarCursor]
  | .barcodeSetup setup => setupFields setup
  | .noEchoInput dst => [.register (some dst)]
  | .displayString row col clear text =>
    placeFields row col ++
      [zeros 2, .int "clear" clear 2, .int "text size" text.length 2, .bytes "text" text.bytes]
  | .displayClear => []
  | .displayPartClear row col len quarter =>
    placeFields row col ++ [.int "length" len 2, .flag quarter]
  | .displayRegister row col reg start len clear quarter reverse =>
    placeFields row col ++
      [.flag quarter, .flag reverse, zeros 2, .position "start" start 2, .int "length" len 2,
        .register (some reg), .int "clear" clear 2]
  | .upload file kind line stop => .fileName (some file) :: transferFields kind line stop
  | .download kind line stop => .fileName none :: transferFields kind line stop
  | .wait ms => [.int "wait" ms.toNat 4]

def head : Line → Head
  | title _ => .title
  | label _ _ => .label
  | jump _ => .jump
  | jumpIf _ _ => .jumpIf
  | op o => .ofOperation o

/-- The layout of a line behind its head. -/
def fields : Line → List Field
  | title t => titleFields t
  | label number offset => [.bytes "label" (Decimal.bytes number ++ 0x2C :: Decimal.bytes offset)]
  | jump number => [.int "label number" number 4]
  | jumpIf cond number =>
    [.int "label number" number 4, .comparison cond.comparison, .register (some cond.left),
      .operand cond.right cond.left.kind]
  | op o => operationFields o

def encode (l : Line) : Except EncodeError (List UInt8) :=
  match encodeFields l.fields with
  | .error e => .error e
  | .ok payload => frame l.head.bytes payload

end Line
end Handheld
