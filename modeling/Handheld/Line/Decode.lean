import Handheld.Line.Basic
import Handheld.Line.Frame
import Handheld.Unicode.Category

namespace Handheld.Line

open Read

/-- One of the values that a code stands for. -/
def coded {α : Type} (flaw : Nat → Flaw) (find : Nat → Option α) (width : Nat) : Read α := do
  let n ← int width
  ofOption (flaw n) (find n)

def readTitle : Read Title := do
  let title := (← text Title.titleMax).trim
  skip 1
  let version := (← text Title.versionMax).trim
  let startScreen ← coded .unknownStartScreen StartScreen.ofCode? 1
  let font ← int 2
  let click ← flag
  let machine ← int 4
  let profile ← ofOption (.unknownProfile machine font) (Profile.find? machine font)
  return ⟨title, version, startScreen, click, profile⟩

/-- A number, a comma and a number: decimal digits of any script up to the end, of which only the
ASCII ones have a value. -/
def readLabel : Read Line := do
  let raw : Text := ⟨← rest⟩
  let cs := raw.lossy.toList
  let number := cs.takeWhile Unicode.isDecimalDigit
  let tail := cs.dropWhile Unicode.isDecimalDigit
  match tail with
  | ',' :: offset =>
    if number.isEmpty || offset.isEmpty || !offset.all Unicode.isDecimalDigit then
      fail (.malformedLabel raw)
    else
      let n ← numeral number
      return .label n (← numeral offset)
  | _ => fail (.malformedLabel raw)
where
  numeral (cs : List Char) : Read Nat := fun bs =>
    match Decimal.read (Word.limit32 - 1) (cs.flatMap Utf8.encodeChar) with
    | .ok n => (.ok n, bs)
    | .error why => (.error (.badNumeral why), bs)

def readSlice : Read Slice := do
  let reg ← register
  let pos ← position 3
  return ⟨reg, pos, ← int 3⟩

/-- A slice, or its place without a register, whose other fields are not looked at. -/
def readOptSlice : Read (Option Slice) := do
  match ← optRegister with
  | some reg =>
    let pos ← position 3
    return some ⟨reg, pos, ← int 3⟩
  | none =>
    skip 6
    return none

def readRecord : Read (FileName × Nat) := do
  let file ← fileName
  skip 1
  return (file, ← int 3)

def readTransfer : Read (UInt8 × UInt8 × Option Key) := do
  let kind ← int 1
  let line ← int 1
  return (kind.toUInt8, line.toUInt8, ← key)

def readSetup : Read BarcodeSetup := do
  match ← int 1 with
  | 1 =>
    skip 2
    let map ← int 3
    skip symbologyDetail.length
    return .symbology map.toUInt16
  | 2 =>
    let a ← int 3
    let b ← int 3
    let c ← int 3
    let d ← int 3
    let e ← int 3
    skip 1
    let freq ← int 4
    let ms ← int 4
    skip 2
    let laser ← int 2
    skip 1
    let verify ← int 1
    let vibration ← int 4
    return .reader ⟨#v[a.toUInt16, b.toUInt16, c.toUInt16, d.toUInt16, e.toUInt16], freq.toUInt16,
      ms.toUInt16, laser.toUInt8, verify.toUInt8, vibration.toUInt16⟩
  | n => fail (.unknownBarcodeRecord n)

/-- The pooled text register of a number. -/
def textRegister? (n : Nat) : Option Register := (Register.pool .text).find? fun r => r.ordinal = n

/-- The fields behind a head. -/
def readFields : Head → Read Line
  | .title => return .title (← readTitle)
  | .label => readLabel
  | .jump => return .jump (← int 4)
  | .jumpIf => do
    let target ← int 4
    let comparison ← comparison
    let left ← register
    return .jumpIf ⟨left, comparison, ← operand left.kind⟩ target
  | .assign => do
    let dst ← register
    return .op (.assign dst (← operand dst.kind))
  | .stringConcat => do
    let first ← readSlice
    let second ← readOptSlice
    let dst ← register
    return .op (.stringConcat dst (← position 3) first second)
  | .extractCopy => do
    let src ← readSlice
    let dst ← register
    return .op (.extractCopy dst (← position 3) src)
  | .stringShift => do
    let reg ← register
    let size ← int 3
    let align := if (← take 1) = [0x4C] then Align.left else .right
    let fill ← take 1
    return .op (.stringShift reg size align (fill.headD Text.fill))
  | .numberToString => do
    let dst ← register
    return .op (.numberToString dst (← register))
  | .variableInit => return .op (.variableInit (← register))
  | .recordWrite => do
    let (file, recordLen) ← readRecord
    let crlf ← flag
    let src ← register
    return .op (.recordWrite file recordLen src (← flag) crlf)
  | .recordRead => do
    let (file, recordLen) ← readRecord
    let dst ← register
    return .op (.recordRead file recordLen dst (← filePosition))
  | .recordCount => do
    let (file, recordLen) ← readRecord
    return .op (.recordCount file recordLen (← register))
  | .fileDelete => return .op (.fileDelete (← fileName))
  | .fileExists => return .op (.fileExists (← fileName))
  | .masterSearch => do
    let (file, recordLen) ← readRecord
    let key ← readSlice
    let key2 ← readOptSlice
    let method ← int 1
    let pos ← filePosition
    return .op (.masterSearch file recordLen key key2 method.toUInt8 pos (← register))
  | .echoedInput => do
    let col ← int 2
    let row ← int 2
    let dst ← register
    let columns ← int 3
    let noEcho ← flag
    let full ← coded .unknownFullAction FullAction.ofCode? 1
    let special ← keys
    let cursor ← coded .unknownCursor CursorShape.ofCode? 1
    return .op (.echoedInput row col dst columns noEcho full special cursor (← flag))
  | .barcodeInput => do
    let col ← int 2
    let row ← int 2
    let dst ← coded .noTextRegister textRegister? 2
    let columns ← int 3
    skip 11
    let vibrate ← flag
    let continued ← flag
    let buzzerLed ← flag
    let keyInterrupt ← flag
    let ignoreTrigger ← flag
    let special ← keys
    let full ← coded .unknownFullAction FullAction.ofCode? 1
    let underbarCursor ← flag
    return .op (.barcodeInput row col dst columns special full
      ⟨vibrate, continued, buzzerLed, keyInterrupt, ignoreTrigger, underbarCursor⟩)
  | .barcodeSetup => return .op (.barcodeSetup (← readSetup))
  | .noEchoInput => return .op (.noEchoInput (← register))
  | .displayString => do
    let col ← int 2
    let row ← int 2
    skip 2
    let clear ← int 2
    let size ← int 2
    return .op (.displayString row col clear (← text size))
  | .displayClear => return .op .displayClear
  | .displayPartClear => do
    let col ← int 2
    let row ← int 2
    let len ← int 2
    return .op (.displayPartClear row col len (← flag))
  | .displayRegister => do
    let col ← int 2
    let row ← int 2
    let quarter ← flag
    let reverse ← flag
    skip 2
    let start ← position 2
    let len ← int 2
    let reg ← register
    return .op (.displayRegister row col reg start len (← int 2) quarter reverse)
  | .upload => do
    let file ← fileName
    let (kind, line, stop) ← readTransfer
    return .op (.upload file kind line stop)
  | .download => do
    skip fileNameWidth
    let (kind, line, stop) ← readTransfer
    return .op (.download kind line stop)
  | .wait => return .op (.wait (← int 4).toUInt32)

/-- The line of a payload; the fields have to end where the payload ends. -/
def decode (number : Nat) (payload : List UInt8) : Except DecodeError Line :=
  match Head.split? payload with
  | none => .error ⟨number, .unknownHead ⟨payload.take 3⟩⟩
  | some (head, bs) =>
    match (do let l ← readFields head; finish; return l : Read Line) bs with
    | (.ok l, _) => .ok l
    | (.error flaw, _) => .error ⟨number, flaw⟩

end Handheld.Line
