import Handheld.Instruction.Basic

namespace Handheld

def KeySet.display (s : KeySet) : String := " ".intercalate (s.keys.map Key.name)

namespace Operation

/-- A place on the screen. -/
def displayAt (row col : Nat) : String :=
  "(" ++ Decimal.text row ++ "," ++ Decimal.text col ++ ")"

def displayLen (n : Nat) : String := " len=" ++ Decimal.text n

def display : Operation → String
  | assign dst src => "assign " ++ dst.name ++ " <- " ++ src.display
  | stringConcat dst dstPos first second =>
    "concat " ++ dst.name ++ "@" ++ Decimal.text dstPos ++ " <- " ++ first.display ++
      (match second with
      | some s => " " ++ s.display
      | none => "")
  | extractCopy dst dstPos src =>
    "extract " ++ dst.name ++ "@" ++ Decimal.text dstPos ++ " <- " ++ src.display
  | stringShift reg size align fill =>
    "shift " ++ reg.name ++ " size=" ++ Decimal.text size ++ " " ++ align.label ++ " fill=" ++
      Quoted.char (Char.ofNat fill.toNat)
  | numberToString dst src => "numtostr " ++ dst.name ++ " <- " ++ src.name
  | variableInit reg => "init " ++ reg.name
  | recordWrite file recordLen src overwrite crlf =>
    "write " ++ file.display ++ displayLen recordLen ++ " <- " ++ src.name ++
      (if overwrite then " overwrite" else " append") ++ (if crlf then " crlf" else "")
  | recordRead file recordLen dst pos =>
    "read " ++ file.display ++ displayLen recordLen ++ " " ++ pos.name ++ " -> " ++ dst.name
  | recordCount file recordLen dst =>
    "count " ++ file.display ++ displayLen recordLen ++ " -> " ++ dst.name
  | fileDelete file => "delete " ++ file.display
  | fileExists file => "exists " ++ file.display
  | masterSearch file recordLen key key2 _ pos result =>
    "search " ++ file.display ++ displayLen recordLen ++ " key=" ++ key.display ++
      (match key2 with
      | some k => "," ++ k.display
      | none => "") ++ " " ++ pos.name ++ " -> " ++ result.name
  | echoedInput row col dst columns _ full special _ _ =>
    "input " ++ displayAt row col ++ " " ++ dst.name ++ " cols=" ++ Decimal.text columns ++
      " full=" ++ full.label ++ " keys=[" ++ special.display ++ "]"
  | barcodeInput row col dst columns special _ _ =>
    "barcode " ++ displayAt row col ++ " " ++ dst.name ++ " cols=" ++ Decimal.text columns ++
      " keys=[" ++ special.display ++ "]"
  | barcodeSetup setup => "barcode-info " ++ Decimal.text setup.number
  | noEchoInput dst => "key -> " ++ dst.name
  | displayString row col clear text =>
    "show " ++ displayAt row col ++ " clear=" ++ Decimal.text clear ++ " " ++ text.quoted
  | displayClear => "cls"
  | displayPartClear row col len _ => "clear " ++ displayAt row col ++ displayLen len
  | displayRegister row col reg start len clear _ _ =>
    "show " ++ displayAt row col ++ " clear=" ++ Decimal.text clear ++ " " ++
      (Slice.mk reg start len).display
  | upload file _ _ _ => "upload " ++ file.display
  | download .. => "download"
  | wait ms => "wait " ++ Decimal.text ms.toNat ++ "ms"

end Operation
end Handheld
