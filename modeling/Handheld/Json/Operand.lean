import Handheld.Json.Decode
import Handheld.Instruction.Basic

namespace Handheld

open Json

namespace Text

def toJson (t : Text) : Json := .ofString t.lossy

def ofJson? (j : Json) : Option Text := (text? j).map ofString

end Text

namespace Register

def toJson (r : Register) : Json := .ofString r.name

def ofJson? (j : Json) : Option Register := (text? j).bind ofName?

end Register

namespace Key

def toJson (k : Key) : Json := .ofString k.name

def ofJson? : Reader Key := choice? all name

end Key

namespace KeySet

def toJson (s : KeySet) : Json := .array (s.keys.map Key.toJson)

def ofJson? (j : Json) : Option KeySet := (list? Key.ofJson? j).map ofList

end KeySet

namespace Label

def toJson (l : Label) : Json := .ofNat l.id

def ofJson? (j : Json) : Option Label := (nat? Word.limit32 j).map mk

end Label

namespace Kind

def toJson (k : Kind) : Json := .ofString k.name

def ofJson? : Reader Kind := choice? all name

end Kind

namespace Comparison

def toJson (c : Comparison) : Json := .ofString c.symbol

def ofJson? : Reader Comparison := choice? all symbol

end Comparison

namespace FilePosition

def toJson (p : FilePosition) : Json := .ofString p.name

def ofJson? : Reader FilePosition := choice? all name

end FilePosition

namespace FullAction

def toJson (a : FullAction) : Json := .ofString a.name

def ofJson? : Reader FullAction := choice? all name

end FullAction

namespace StartScreen

def toJson (s : StartScreen) : Json := .ofString s.name

def ofJson? : Reader StartScreen := choice? all name

end StartScreen

namespace CursorShape

def toJson (c : CursorShape) : Json := .ofString c.name

def ofJson? : Reader CursorShape := choice? all name

end CursorShape

namespace Align

def toJson (a : Align) : Json := .ofString a.name

def ofJson? : Reader Align := choice? all name

end Align

namespace Profile

def toJson (p : Profile) : Json := .ofString p.name

def ofJson? : Reader Profile := choice? all name

end Profile

namespace Title

def toJson (t : Title) : Json :=
  .object [("title", t.title.toJson), ("version", t.version.toJson),
    ("start_screen", t.startScreen.toJson), ("click", .bool t.click), ("profile", t.profile.toJson)]

/-- Only the title itself has to be there. -/
def ofJson? (j : Json) : Option Title :=
  match record? ["title", "version", "start_screen", "click", "profile"] j with
  | some [title, version, startScreen, click, profile] => do
    some ⟨← required Text.ofJson? title, ← optional .empty Text.ofJson? version,
      ← optional .twoSeconds StartScreen.ofJson? startScreen, ← optional true bool? click,
      ← optional .small12 Profile.ofJson? profile⟩
  | _ => none

end Title

namespace Value

def toJson : Value → Json
  | int n => .ofInt n.toInt
  | float x => .ofSingle x
  | text t => t.toJson

def ofJson? : Reader Value
  | .num (some (.integer n)) =>
    if -0x80000000 ≤ n ∧ n < 0x80000000 then some (int (Int32.ofInt n)) else some (float (.ofInt n))
  | .num (some (.double d)) => some (float (.ofDouble d))
  | .num (some (.single x)) => some (float x)
  | .str (some s) => some (text (.ofString s))
  | _ => none

end Value

/-- An object that names a register. -/
def Register.ofReference? (j : Json) : Option Register :=
  match namedRecord? ["reg"] j with
  | some [reg] => required Register.ofJson? reg
  | _ => none

def Register.reference (r : Register) : Json := .object [("reg", r.toJson)]

namespace FileName

def toJson : FileName → Json
  | register r => r.reference
  | literal name => name.toJson

def ofJson? : Reader FileName := whole? fun j =>
  match Register.ofReference? j with
  | some r => some (register r)
  | none => (Text.ofJson? j).map literal

end FileName

namespace Operand

def toJson : Operand → Json
  | register r => r.reference
  | key k => .object [("key", k.toJson)]
  | value v => v.toJson

/-- An object that names a key. -/
def keyOfReference? (j : Json) : Option Key :=
  match namedRecord? ["key"] j with
  | some [k] => required Key.ofJson? k
  | _ => none

def ofJson? : Reader Operand := whole? fun j =>
  match Register.ofReference? j with
  | some r => some (register r)
  | none =>
    match keyOfReference? j with
    | some k => some (key k)
    | none => (Value.ofJson? j).map value

end Operand

namespace Condition

def toJson (c : Condition) : Json :=
  .object [("left", c.left.toJson), ("comp", c.comparison.toJson), ("right", c.right.toJson)]

/-- The comparison is equality unless given; as an array, all three have to be there. -/
def ofJson? (j : Json) : Option Condition :=
  match record? ["left", "comp", "right"] j with
  | some [left, comp, right] => do
    some ⟨← required Register.ofJson? left, ← optional .eq Comparison.ofJson? comp,
      ← required Operand.ofJson? right⟩
  | _ => none

end Condition

namespace Slice

def toJson (s : Slice) : Json :=
  .object [("reg", s.reg.toJson), ("pos", .ofNat s.pos), ("len", .ofNat s.len)]

/-- The position is zero unless given. -/
def ofJson? (j : Json) : Option Slice :=
  match record? ["reg", "pos", "len"] j with
  | some [reg, pos, len] => do
    some ⟨← required Register.ofJson? reg, ← optional 0 size? pos, ← required size? len⟩
  | _ => none

end Slice

def uint8? (j : Json) : Option UInt8 := (nat? 0x100 j).map Nat.toUInt8

def uint16? (j : Json) : Option UInt16 := (nat? 0x10000 j).map Nat.toUInt16

def uint32? (j : Json) : Option UInt32 := (nat? Word.limit32 j).map Nat.toUInt32

namespace ReaderSettings

def toJson (s : ReaderSettings) : Json :=
  .object [("digits", .array (s.digits.toList.map fun d => .ofNat d.toNat)),
    ("buzzer_freq", .ofNat s.buzzerFrequency.toNat), ("buzzer_ms", .ofNat s.buzzerLength.toNat),
    ("laser", .ofNat s.laser.toNat), ("verify", .ofNat s.verify.toNat),
    ("vibration", .ofNat s.vibration.toNat)]

def digits? (j : Json) : Option (Vector UInt16 5) :=
  match list? uint16? j with
  | some [a, b, c, d, e] => some #v[a, b, c, d, e]
  | _ => none

/-- Every setting has its standard value unless given. -/
def ofJson? (j : Json) : Option ReaderSettings :=
  match record? ["digits", "buzzer_freq", "buzzer_ms", "laser", "verify", "vibration"] j with
  | some [digits, freq, ms, laser, verify, vibration] => do
    some ⟨← optional standard.digits digits? digits, ← optional standard.buzzerFrequency uint16? freq,
      ← optional standard.buzzerLength uint16? ms, ← optional standard.laser uint8? laser,
      ← optional standard.verify uint8? verify, ← optional standard.vibration uint16? vibration⟩
  | _ => none

end ReaderSettings

namespace BarcodeSetup

def toJson : BarcodeSetup → Json
  | symbology map => .object [("symbology", .object [("map", .ofNat map.toNat)])]
  | reader settings => .object [("reader", settings.toJson)]

def ofJson? (j : Json) : Option BarcodeSetup :=
  match variant? j with
  | some ("symbology", some c) =>
    match record? ["map"] c with
    | some [map] => (optional standardMap uint16? map).map symbology
    | _ => none
  | some ("reader", some c) => (ReaderSettings.ofJson? c).map reader
  | _ => none

end BarcodeSetup

namespace ScanFlags

def toJson (f : ScanFlags) : Json :=
  .object [("vibrate", .bool f.vibrate), ("continued", .bool f.continued),
    ("buzzer_led", .bool f.buzzerLed), ("key_interrupt", .bool f.keyInterrupt),
    ("ignore_trigger", .bool f.ignoreTrigger), ("underbar_cursor", .bool f.underbarCursor)]

/-- Every flag has its standard value unless given. -/
def ofJson? (j : Json) : Option ScanFlags :=
  match record? ["vibrate", "continued", "buzzer_led", "key_interrupt", "ignore_trigger",
    "underbar_cursor"] j with
  | some [vibrate, continued, led, interrupt, trigger, cursor] => do
    some ⟨← optional standard.vibrate bool? vibrate, ← optional standard.continued bool? continued,
      ← optional standard.buzzerLed bool? led, ← optional standard.keyInterrupt bool? interrupt,
      ← optional standard.ignoreTrigger bool? trigger,
      ← optional standard.underbarCursor bool? cursor⟩
  | _ => none

end ScanFlags
end Handheld
