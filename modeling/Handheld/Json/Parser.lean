import Handheld.Json.Numeral

namespace Handheld.Json.Parser

def isBlank (c : Char) : Bool := c = ' ' || c = '\n' || c = '\t' || c = '\r'

def skip (cs : List Char) : List Char := cs.dropWhile isBlank

def digit? (c : Char) : Option Nat :=
  if '0' ≤ c ∧ c ≤ '9' then some (c.toNat - 0x30) else none

def hexDigit? (c : Char) : Option Nat :=
  if '0' ≤ c ∧ c ≤ '9' then some (c.toNat - 0x30)
  else if 'a' ≤ c ∧ c ≤ 'f' then some (c.toNat - 0x57)
  else if 'A' ≤ c ∧ c ≤ 'F' then some (c.toNat - 0x37)
  else none

def hex4? (a b c d : Char) : Option Nat :=
  match hexDigit? a, hexDigit? b, hexDigit? c, hexDigit? d with
  | some a, some b, some c, some d => some (((a * 16 + b) * 16 + c) * 16 + d)
  | _, _, _, _ => none

/-- The character of a one-letter escape. -/
def escape? (c : Char) : Option Char :=
  if c = '"' ∨ c = '\\' ∨ c = '/' then some c
  else if c = 'b' then some '\x08'
  else if c = 'f' then some '\x0c'
  else if c = 'n' then some '\n'
  else if c = 'r' then some '\r'
  else if c = 't' then some '\t'
  else none

/-- A string read so far: its characters in reverse, `none` once a surrogate stood alone, and a
leading surrogate that waits for its partner. -/
structure Partial where
  chars : Option (List Char)
  leading : Option Nat

namespace Partial

def push (p : Partial) (c : Char) : Partial :=
  match p.leading with
  | some _ => ⟨none, none⟩
  | none => ⟨p.chars.map (c :: ·), none⟩

/-- Adds the code unit of a four-digit escape. -/
def pushUnit (p : Partial) (u : Nat) : Partial :=
  if 0xD800 ≤ u ∧ u ≤ 0xDBFF then
    match p.leading with
    | some _ => ⟨none, none⟩
    | none => ⟨p.chars, some u⟩
  else if 0xDC00 ≤ u ∧ u ≤ 0xDFFF then
    match p.leading with
    | some h => ⟨p.chars.map (Char.ofNat (0x10000 + (h - 0xD800) * 0x400 + (u - 0xDC00)) :: ·), none⟩
    | none => ⟨none, none⟩
  else p.push (Char.ofNat u)

def text (p : Partial) : Option String :=
  match p.leading with
  | some _ => none
  | none => p.chars.map fun cs => String.ofList cs.reverse

end Partial

/-- The rest of a string up to its closing quote. -/
def stringBody (p : Partial) : List Char → Option (Option String × List Char)
  | [] => none
  | '"' :: r => some (p.text, r)
  | '\\' :: 'u' :: a :: b :: c :: d :: r =>
    match hex4? a b c d with
    | none => none
    | some u => stringBody (p.pushUnit u) r
  | '\\' :: c :: r =>
    match escape? c with
    | none => none
    | some c => stringBody (p.push c) r
  | c :: r => if c < ' ' ∨ c = '\\' then none else stringBody (p.push c) r

def takeDigits : List Char → List Nat × List Char
  | [] => ([], [])
  | c :: r =>
    match digit? c with
    | some d => let (ds, rest) := takeDigits r; (d :: ds, rest)
    | none => ([], c :: r)

/-- At least one digit. -/
def digits? (cs : List Char) : Option (List Nat × List Char) :=
  match takeDigits cs with
  | ([], _) => none
  | r => some r

/-- No digit follows a leading zero. -/
def whole? (cs : List Char) : Option (List Nat × List Char) :=
  match digits? cs with
  | some (0 :: _ :: _, _) => none
  | r => r

def places? : List Char → Option (Option (List Nat) × List Char)
  | '.' :: r => (digits? r).map fun (ds, r) => (some ds, r)
  | r => some (none, r)

def power? (cs : List Char) : Option (Option (Bool × List Nat) × List Char) :=
  match cs with
  | [] => some (none, [])
  | c :: r =>
    if c = 'e' ∨ c = 'E' then
      let (negative, r) := match r with
        | '-' :: s => (true, s)
        | '+' :: s => (false, s)
        | s => (false, s)
      (digits? r).map fun (ds, r) => (some (negative, ds), r)
    else some (none, cs)

def number? (cs : List Char) : Option (Json × List Char) :=
  let (negative, r) := match cs with
    | '-' :: s => (true, s)
    | s => (false, s)
  match whole? r with
  | none => none
  | some (whole, r) =>
    match places? r with
    | none => none
    | some (places, r) =>
      match power? r with
      | none => none
      | some (power, r) => some (.num (Numeral.mk negative whole places power).number?, r)

mutual

/-- One value. The first argument bounds the recursion, the second the nesting. -/
def value : Nat → Nat → List Char → Option (Json × List Char)
  | 0, _, _ => none
  | fuel + 1, depth, cs =>
    match skip cs with
    | 'n' :: 'u' :: 'l' :: 'l' :: r => some (.null, r)
    | 't' :: 'r' :: 'u' :: 'e' :: r => some (.bool true, r)
    | 'f' :: 'a' :: 'l' :: 's' :: 'e' :: r => some (.bool false, r)
    | '"' :: r => (stringBody ⟨some [], none⟩ r).map fun (s, r) => (.str s, r)
    | '[' :: r =>
      match depth, skip r with
      | 0, _ => none
      | _ + 1, ']' :: r => some (.arr [], r)
      | depth + 1, r => (items fuel depth r).map fun (js, r) => (.arr js, r)
    | '\x7b' :: r =>
      match depth, skip r with
      | 0, _ => none
      | _ + 1, '\x7d' :: r => some (.obj [], r)
      | depth + 1, r => (fields fuel depth r).map fun (fs, r) => (.obj fs, r)
    | r => number? r

/-- The items of an array, up to its end. -/
def items : Nat → Nat → List Char → Option (List Json × List Char)
  | 0, _, _ => none
  | fuel + 1, depth, cs =>
    match value fuel depth cs with
    | none => none
    | some (j, r) =>
      match skip r with
      | ',' :: r => (items fuel depth r).map fun (js, r) => (j :: js, r)
      | ']' :: r => some ([j], r)
      | _ => none

/-- The fields of an object, up to its end. -/
def fields : Nat → Nat → List Char → Option (List (Option String × Json) × List Char)
  | 0, _, _ => none
  | fuel + 1, depth, cs =>
    match skip cs with
    | '"' :: r =>
      match stringBody ⟨some [], none⟩ r with
      | none => none
      | some (k, r) =>
        match skip r with
        | ':' :: r =>
          match value fuel depth r with
          | none => none
          | some (j, r) =>
            match skip r with
            | ',' :: r => (fields fuel depth r).map fun (fs, r) => ((k, j) :: fs, r)
            | '\x7d' :: r => some ([(k, j)], r)
            | _ => none
        | _ => none
    | _ => none

end

/-- The deepest nesting of containers. -/
def maxDepth : Nat := 127

end Handheld.Json.Parser

namespace Handheld.Json

/-- The value of a whole text. -/
def parse? (s : String) : Option Json :=
  let cs := s.toList
  match Parser.value (2 * cs.length + 2) Parser.maxDepth cs with
  | some (j, r) => if (Parser.skip r).isEmpty then some j else none
  | none => none

end Handheld.Json
