import Handheld.Line.Head

namespace Handheld.Trace

def bool (b : Bool) : String := if b then "true" else "false"

/-- Items between brackets. -/
def between (opening closing : String) (items : List String) : String :=
  opening ++ ", ".intercalate items ++ closing

def call (name : String) (args : List String) : String := name ++ between "(" ")" args

/-- A name with named fields. -/
def record (name : String) (fields : List (String × String)) : String :=
  name ++ between " \x7b " " \x7d" (fields.map fun f => f.1 ++ ": " ++ f.2)

def option {α : Type} (f : α → String) : Option α → String
  | none => "None"
  | some a => call "Some" [f a]

/-- From this power of ten on, a number is written with an exponent. -/
def exponentHigh : Int := 16

/-- Up to this power of ten, a number is written with an exponent. -/
def exponentLow : Int := -5

/-- A single number: the shortest digits, with a point or an exponent. -/
def single (x : Single) : String :=
  let sign := if x.negative then "-" else ""
  if x.isNaN then "NaN"
  else if !x.isFinite then sign ++ "inf"
  else if x.magnitude = 0 then sign ++ "0.0"
  else
    let s := Binary.shortest .single .up x.magnitude
    let ds := Decimal.bytes s.digits
    let e : Int := s.e + ds.length - 1
    if exponentLow < e ∧ e < exponentHigh then
      sign ++ Decimal.toText (Single.positional s ++ if 0 ≤ s.e then [0x2E, 0x30] else [])
    else
      let head := match ds with
        | d :: d' :: r => d :: 0x2E :: d' :: r
        | ds => ds
      sign ++ Decimal.toText head ++ "e" ++ Decimal.signedText e

def key : Key → String
  | .trigger => "Trigger"
  | .backspace => "Backspace"
  | .clear => "Clear"
  | .num d => "Num" ++ (Key.num d).name
  | .enter => "Enter"
  | .period => "Period"
  | k => k.name

def keys (s : KeySet) : String := between "\x7b" "\x7d" (s.keys.map key)

def comparison : Comparison → String
  | .eq => "Eq"
  | .ne => "Ne"
  | .gt => "Gt"
  | .le => "Le"
  | .lt => "Lt"
  | .ge => "Ge"

def position : FilePosition → String
  | .next => "Next"
  | .top => "Top"
  | .previous => "Prev"
  | .current => "Cur"
  | .bottom => "Bot"

def value : Value → String
  | .int n => call "Int" [Decimal.signedText n.toInt]
  | .float x => call "Float" [single x]
  | .text t => call "Text" [t.quoted]

def register (r : Register) : String := record "Register" [("reg", r.name)]

def operand : Operand → String
  | .register r => register r
  | .key k => record "Key" [("key", key k)]
  | .value v => call "Value" [value v]

def file : FileName → String
  | .register r => register r
  | .literal name => call "Name" [name.quoted]

def condition (c : Condition) : String :=
  record "Condition" [("left", c.left.name), ("comp", comparison c.comparison),
    ("right", operand c.right)]

def slice (s : Slice) : String :=
  record "Slice" [("reg", s.reg.name), ("pos", Decimal.text s.pos), ("len", Decimal.text s.len)]

def setup : BarcodeSetup → String
  | .symbology map => record "Symbology" [("map", Decimal.text map.toNat)]
  | .reader s =>
    call "Reader" [record "ReaderSettings" [
      ("digits", between "[" "]" (s.digits.toList.map fun d => Decimal.text d.toNat)),
      ("buzzer_freq", Decimal.text s.buzzerFrequency.toNat),
      ("buzzer_ms", Decimal.text s.buzzerLength.toNat), ("laser", Decimal.text s.laser.toNat),
      ("verify", Decimal.text s.verify.toNat), ("vibration", Decimal.text s.vibration.toNat)]]

def flags (f : ScanFlags) : String :=
  record "ScanFlags" [("vibrate", bool f.vibrate), ("continued", bool f.continued),
    ("buzzer_led", bool f.buzzerLed), ("key_interrupt", bool f.keyInterrupt),
    ("ignore_trigger", bool f.ignoreTrigger), ("underbar_cursor", bool f.underbarCursor)]

/-- The fields of an operation in order. -/
def fields : Operation → List (String × String)
  | .assign dst src => [("dst", dst.name), ("src", operand src)]
  | .stringConcat dst dstPos first second =>
    [("dst", dst.name), ("dst_pos", Decimal.text dstPos), ("first", slice first),
      ("second", option slice second)]
  | .extractCopy dst dstPos src =>
    [("dst", dst.name), ("dst_pos", Decimal.text dstPos), ("src", slice src)]
  | .stringShift reg size align fill =>
    [("reg", reg.name), ("size", Decimal.text size), ("align", align.label),
      ("fill", Decimal.text fill.toNat)]
  | .numberToString dst src => [("dst", dst.name), ("src", src.name)]
  | .variableInit reg => [("reg", reg.name)]
  | .recordWrite name len src overwrite crlf =>
    [("file", file name), ("record_len", Decimal.text len), ("src", src.name),
      ("overwrite", bool overwrite), ("crlf", bool crlf)]
  | .recordRead name len dst pos =>
    [("file", file name), ("record_len", Decimal.text len), ("dst", dst.name), ("pos", position pos)]
  | .recordCount name len dst =>
    [("file", file name), ("record_len", Decimal.text len), ("dst", dst.name)]
  | .fileDelete name => [("file", file name)]
  | .fileExists name => [("file", file name)]
  | .masterSearch name len k k2 method pos result =>
    [("file", file name), ("record_len", Decimal.text len), ("key", slice k),
      ("key2", option slice k2), ("method", Decimal.text method.toNat), ("pos", position pos),
      ("result", result.name)]
  | .echoedInput row col dst columns noEcho full special cursor minus =>
    [("row", Decimal.text row), ("col", Decimal.text col), ("dst", dst.name),
      ("columns", Decimal.text columns), ("no_echo", bool noEcho), ("full", full.label),
      ("special", keys special), ("cursor", cursor.label), ("minus", bool minus)]
  | .barcodeInput row col dst columns special full scan =>
    [("row", Decimal.text row), ("col", Decimal.text col), ("dst", dst.name),
      ("columns", Decimal.text columns), ("special", keys special), ("full", full.label),
      ("flags", flags scan)]
  | .noEchoInput dst => [("dst", dst.name)]
  | .displayString row col clear t =>
    [("row", Decimal.text row), ("col", Decimal.text col), ("clear", Decimal.text clear),
      ("text", t.quoted)]
  | .displayPartClear row col len quarter =>
    [("row", Decimal.text row), ("col", Decimal.text col), ("len", Decimal.text len),
      ("quarter", bool quarter)]
  | .displayRegister row col reg start len clear quarter reverse =>
    [("row", Decimal.text row), ("col", Decimal.text col), ("reg", reg.name),
      ("start", Decimal.text start), ("len", Decimal.text len), ("clear", Decimal.text clear),
      ("quarter", bool quarter), ("reverse", bool reverse)]
  | .upload name kind line stop =>
    [("file", file name), ("gauge_kind", Decimal.text kind.toNat),
      ("gauge_line", Decimal.text line.toNat), ("stop_key", option key stop)]
  | .download kind line stop =>
    [("gauge_kind", Decimal.text kind.toNat), ("gauge_line", Decimal.text line.toNat),
      ("stop_key", option key stop)]
  | .wait ms => [("ms", Decimal.text ms.toNat)]
  | .barcodeSetup _ | .displayClear => []

def operation (o : Operation) : String :=
  let name := (Line.Head.ofOperation o).name
  match o with
  | .barcodeSetup s => call name [setup s]
  | .displayClear => name
  | o => record name (fields o)

def label (l : Label) : String := call "LabelId" [Decimal.text l.id]

end Trace

/-- The spelling of an instruction in traces. -/
def Instruction.trace : Instruction → String
  | label l => Trace.call "Label" [Trace.label l]
  | jump t => Trace.call "Jump" [Trace.label t]
  | jumpIf c t => Trace.call "JumpIf" [Trace.condition c, Trace.label t]
  | op o => Trace.call "Op" [Trace.operation o]

end Handheld
