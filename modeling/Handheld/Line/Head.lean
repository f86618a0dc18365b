import Handheld.Instruction.Basic

namespace Handheld.Line

/-- What tells the kinds of lines apart. -/
inductive Head where
  | title
  | label
  | jump
  | jumpIf
  | assign
  | stringConcat
  | extractCopy
  | stringShift
  | numberToString
  | variableInit
  | recordWrite
  | recordRead
  | recordCount
  | fileDelete
  | fileExists
  | masterSearch
  | echoedInput
  | barcodeInput
  | barcodeSetup
  | noEchoInput
  | displayString
  | displayClear
  | displayPartClear
  | displayRegister
  | upload
  | download
  | wait
  deriving DecidableEq

namespace Head

def all : List Head :=
  [title, label, jump, jumpIf, assign, stringConcat, extractCopy, stringShift, numberToString,
    variableInit, recordWrite, recordRead, recordCount, fileDelete, fileExists, masterSearch,
    echoedInput, barcodeInput, barcodeSetup, noEchoInput, displayString, displayClear,
    displayPartClear, displayRegister, upload, download, wait]

/-- The bytes of the head: a letter with a blank in the header of the file, a letter with a number
in its body. -/
def bytes : Head → List UInt8
  | title => [0x41, 0x20]
  | label => [0x42, 0x20]
  | jump => [0x4A, 0x30, 0x31]
  | jumpIf => [0x4A, 0x30, 0x32]
  | assign => [0x45, 0x30, 0x31]
  | stringConcat => [0x45, 0x30, 0x32]
  | extractCopy => [0x45, 0x30, 0x33]
  | stringShift => [0x45, 0x30, 0x34]
  | numberToString => [0x45, 0x30, 0x36]
  | variableInit => [0x45, 0x30, 0x38]
  | recordWrite => [0x46, 0x30, 0x31]
  | recordRead => [0x46, 0x30, 0x32]
  | recordCount => [0x46, 0x30, 0x33]
  | fileDelete => [0x46, 0x30, 0x35]
  | fileExists => [0x46, 0x30, 0x37]
  | masterSearch => [0x46, 0x30, 0x38]
  | echoedInput => [0x49, 0x30, 0x31]
  | barcodeInput => [0x49, 0x30, 0x32]
  | barcodeSetup => [0x49, 0x30, 0x33]
  | noEchoInput => [0x49, 0x30, 0x35]
  | displayString => [0x44, 0x30, 0x31]
  | displayClear => [0x44, 0x30, 0x33]
  | displayPartClear => [0x44, 0x30, 0x34]
  | displayRegister => [0x44, 0x30, 0x35]
  | upload => [0x43, 0x30, 0x31]
  | download => [0x43, 0x30, 0x32]
  | wait => [0x48, 0x30, 0x34]

def ofOperation : Operation → Head
  | .assign .. => assign
  | .stringConcat .. => stringConcat
  | .extractCopy .. => extractCopy
  | .stringShift .. => stringShift
  | .numberToString .. => numberToString
  | .variableInit .. => variableInit
  | .recordWrite .. => recordWrite
  | .recordRead .. => recordRead
  | .recordCount .. => recordCount
  | .fileDelete .. => fileDelete
  | .fileExists .. => fileExists
  | .masterSearch .. => masterSearch
  | .echoedInput .. => echoedInput
  | .barcodeInput .. => barcodeInput
  | .barcodeSetup .. => barcodeSetup
  | .noEchoInput .. => noEchoInput
  | .displayString .. => displayString
  | .displayClear => displayClear
  | .displayPartClear .. => displayPartClear
  | .displayRegister .. => displayRegister
  | .upload .. => upload
  | .download .. => download
  | .wait .. => wait

/-- The head at the front of a payload, and the bytes behind it. -/
def split? (payload : List UInt8) : Option (Head × List UInt8) :=
  (all.find? fun h => h.bytes.isPrefixOf payload).map fun h => (h, payload.drop h.bytes.length)

/-- The name of the kind of line. -/
def name : Head → String
  | title => "Title"
  | label => "Label"
  | jump => "Jump"
  | jumpIf => "JumpIf"
  | assign => "Assign"
  | stringConcat => "StringConcat"
  | extractCopy => "ExtractCopy"
  | stringShift => "StringShift"
  | numberToString => "NumberToString"
  | variableInit => "VariableInit"
  | recordWrite => "RecordWrite"
  | recordRead => "RecordRead"
  | recordCount => "RecordCount"
  | fileDelete => "FileDelete"
  | fileExists => "FileExists"
  | masterSearch => "MasterSearch"
  | echoedInput => "EchoedInput"
  | barcodeInput => "BarcodeInput"
  | barcodeSetup => "BarcodeInfo"
  | noEchoInput => "NoEchoInput"
  | displayString => "DisplayString"
  | displayClear => "DisplayClear"
  | displayPartClear => "DisplayPartClear"
  | displayRegister => "DisplayRegister"
  | upload => "CommUpload"
  | download => "CommDownload"
  | wait => "Wait"

end Head
end Handheld.Line
