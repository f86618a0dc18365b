import Handheld.Binary.Single

namespace Handheld

/-- The number of a numeral: an integer of up to 64 bits, or a double. Single-precision numbers
are written as such. -/
inductive Json.Number where
  | integer (n : Int)
  | double (d : Double)
  | single (x : Single)
  deriving DecidableEq

/-- A numeral beyond the doubles has no number, and a string with an unpaired surrogate no text;
both are tolerated where nothing reads them. Fields keep their order and may repeat. -/
inductive Json where
  | null
  | bool (b : Bool)
  | num (n : Option Json.Number)
  | str (s : Option String)
  | arr (items : List Json)
  | obj (fields : List (Option String × Json))

namespace Json

instance : Inhabited Json := ⟨null⟩

def ofNat (n : Nat) : Json := num (some (.integer n))

def ofInt (n : Int) : Json := num (some (.integer n))

def ofString (s : String) : Json := str (some s)

/-- Infinities and what is not a number have no numeral. -/
def ofSingle (x : Single) : Json := if x.isFinite then num (some (.single x)) else null

def object (fields : List (String × Json)) : Json := obj (fields.map fun f => (some f.1, f.2))

def array (items : List Json) : Json := arr items

def ofOption {α : Type} (f : α → Json) : Option α → Json
  | none => null
  | some a => f a

mutual

/-- Every numeral has a number and every string a text. -/
def settled : Json → Bool
  | num n => n.isSome
  | str s => s.isSome
  | arr items => settledItems items
  | obj fields => settledFields fields
  | _ => true

def settledItems : List Json → Bool
  | [] => true
  | j :: r => j.settled && settledItems r

def settledFields : List (Option String × Json) → Bool
  | [] => true
  | (k, j) :: r => k.isSome && j.settled && settledFields r

end

mutual

/-- How deep arrays and objects are nested. -/
def depth : Json → Nat
  | arr items => depthItems items + 1
  | obj fields => depthFields fields + 1
  | _ => 0

def depthItems : List Json → Nat
  | [] => 0
  | j :: r => max j.depth (depthItems r)

def depthFields : List (Option String × Json) → Nat
  | [] => 0
  | (_, j) :: r => max j.depth (depthFields r)

end

end Json
end Handheld
