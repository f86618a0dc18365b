import Handheld.Text.Basic
import Handheld.Unicode.Printable
import Handheld.Unicode.Combining

namespace Handheld.Quoted

def hexDigits (n : Nat) : List Char := Nat.toDigits 16 n

/-- The spelling of one character inside quotes of the given kind. -/
def encodeChar (quote c : Char) : List Char :=
  if c = '\x00' then ['\\', '0']
  else if c = '\t' then ['\\', 't']
  else if c = '\r' then ['\\', 'r']
  else if c = '\n' then ['\\', 'n']
  else if c = '\\' ∨ c = quote then ['\\', c]
  else if ' ' ≤ c ∧ c ≤ '~' then [c]
  else if Unicode.isCombining c || Unicode.isFiller c || !Unicode.isPrintable c then
    ['\\', 'u', '\x7b'] ++ hexDigits c.toNat ++ ['\x7d']
  else [c]

def string (s : String) : String :=
  String.ofList ('"' :: s.toList.flatMap (encodeChar '"') ++ ['"'])

def char (c : Char) : String :=
  String.ofList ('\'' :: encodeChar '\'' c ++ ['\''])

end Handheld.Quoted

namespace Handheld.Text

/-- The text between double quotes, broken spots replaced. -/
def quoted (t : Text) : String := Quoted.string t.lossy

end Handheld.Text
