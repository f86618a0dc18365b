import Handheld.Json.Basic

namespace Handheld.Json

def hexDigit (n : Nat) : Char := "0123456789abcdef".toList.getD n '0'

def escapeChar (c : Char) : List Char :=
  if c = '"' ∨ c = '\\' then ['\\', c]
  else if c = '\x08' then ['\\', 'b']
  else if c = '\x0c' then ['\\', 'f']
  else if c = '\n' then ['\\', 'n']
  else if c = '\r' then ['\\', 'r']
  else if c = '\t' then ['\\', 't']
  else if c < ' ' then ['\\', 'u', '0', '0', hexDigit (c.toNat / 16), hexDigit (c.toNat % 16)]
  else [c]

def quote (s : String) : String :=
  String.ofList ('"' :: s.toList.flatMap escapeChar ++ ['"'])

/-- How a decimal is laid out: positional up to `whole` digits before the point and with up to
`zeros` zeros right after it, else with a signed exponent. -/
structure Layout where
  whole : Int
  zeros : Int

def Layout.single : Layout := ⟨13, 6⟩

def Layout.double : Layout := ⟨16, 5⟩

def spell (l : Layout) (s : Binary.Scientific) : List UInt8 :=
  let ds := Decimal.bytes s.digits
  let point : Int := ds.length + s.e
  if 0 ≤ s.e ∧ point ≤ l.whole then ds ++ List.replicate s.e.toNat 0x30 ++ [0x2E, 0x30]
  else if 0 < point ∧ point ≤ l.whole then Single.positional s
  else if -l.zeros < point ∧ point ≤ 0 then Single.positional s
  else
    let head := match ds with
      | d :: e :: r => d :: 0x2E :: e :: r
      | ds => ds
    let sign := if 0 < point then [0x2B] else []
    head ++ 0x65 :: sign ++ Decimal.signedBytes (point - 1)

/-- A finite number by its sign and magnitude. -/
def spellFinite (f : Binary.Format) (l : Layout) (negative : Bool) (magnitude : Nat) : String :=
  let sign := if negative then "-" else ""
  let ds := if magnitude = 0 then [0x30, 0x2E, 0x30] else spell l (Binary.shortest f .toEven magnitude)
  sign ++ Decimal.toText ds

def Number.text : Number → String
  | integer n => Decimal.signedText n
  | double d =>
    spellFinite .double .double (0x8000000000000000 ≤ d.bits) (d.bits.toNat % 0x8000000000000000)
  | single x => spellFinite .single .single x.negative x.magnitude

def numText : Option Number → String
  | some n => n.text
  | none => "null"

def strText (s : Option String) : String := quote (s.getD "")

mutual

def compact : Json → String
  | null => "null"
  | bool b => if b then "true" else "false"
  | num n => numText n
  | str s => strText s
  | arr items => "[" ++ ",".intercalate (compactItems items) ++ "]"
  | obj fields => "\x7b" ++ ",".intercalate (compactFields fields) ++ "\x7d"

def compactItems : List Json → List String
  | [] => []
  | j :: r => j.compact :: compactItems r

def compactFields : List (Option String × Json) → List String
  | [] => []
  | (k, j) :: r => (strText k ++ ":" ++ j.compact) :: compactFields r

end

/-- The items of a container, one a line, between its brackets. -/
def block (indent : Nat) (opening closing : String) (items : List String) : String :=
  if items.isEmpty then opening ++ closing
  else
    let pad (n : Nat) := String.ofList ('\n' :: List.replicate (2 * n) ' ')
    opening ++ ",".intercalate (items.map (pad (indent + 1) ++ ·)) ++ pad indent ++ closing

mutual

def prettyAt (indent : Nat) : Json → String
  | null => "null"
  | bool b => if b then "true" else "false"
  | num n => numText n
  | str s => strText s
  | arr items => block indent "[" "]" (prettyItems (indent + 1) items)
  | obj fields => block indent "\x7b" "\x7d" (prettyFields (indent + 1) fields)

def prettyItems (indent : Nat) : List Json → List String
  | [] => []
  | j :: r => prettyAt indent j :: prettyItems indent r

def prettyFields (indent : Nat) : List (Option String × Json) → List String
  | [] => []
  | (k, j) :: r => (strText k ++ ": " ++ prettyAt indent j) :: prettyFields indent r

end

def pretty (j : Json) : String := prettyAt 0 j

end Handheld.Json
