import Handheld.Register

namespace Handheld

inductive Key where
  | trigger
  | q1
  | q2
  | backspace
  | clear
  | num (d : Fin 10)
  | enter
  | period
  | function (n : Fin 8)
  deriving DecidableEq

namespace Key

/-- The keys in their order. -/
def all : List Key :=
  [trigger, q1, q2, backspace, clear] ++ (List.finRange 10).map num ++ [enter, period] ++
    (List.finRange 8).map function

/-- The place of a key in `all`. -/
def rank : Key → Nat
  | trigger => 0
  | q1 => 1
  | q2 => 2
  | backspace => 3
  | clear => 4
  | num d => 5 + d
  | enter => 15
  | period => 16
  | function n => 17 + n

/-- The raw code a press sends. -/
def code : Key → Nat
  | trigger => 225
  | q1 => 226
  | q2 => 227
  | backspace => 8
  | clear => 24
  | num d => 48 + d
  | enter => 13
  | period => 46
  | function n => 241 + n

def code32 (k : Key) : Int32 := Int32.ofNat k.code

def ofCode? (code : Nat) : Option Key := all.find? fun k => k.code = code

def ofCode32? (code : Int32) : Option Key := all.find? fun k => k.code32 = code

def digit? (n : Nat) : Option Key := if h : n < 10 then some (num ⟨n, h⟩) else none

/-- Whether the key types a visible character. -/
def hasGlyph : Key → Bool
  | num _ | period => true
  | _ => false

/-- The keytop. -/
def name : Key → String
  | trigger => "TRIGGER"
  | q1 => "Q1"
  | q2 => "Q2"
  | backspace => "BS"
  | clear => "CLR"
  | num d => (["0", "1", "2", "3", "4", "5", "6", "7", "8", "9"].getD d "")
  | enter => "ENT"
  | period => "PERIOD"
  | function n => "F" ++ ["1", "2", "3", "4", "5", "6", "7", "8"].getD n ""

def ofName? (s : String) : Option Key := all.find? fun k => k.name = s

theorem mem_all (k : Key) : k ∈ all := by
  cases k <;> simp [all]

end Key

/-- A set of keys as its ascending list, so that equal sets are equal values. -/
@[ext] structure KeySet where
  keys : List Key
  ascending : keys.Pairwise (fun a b => a.rank < b.rank)
  deriving DecidableEq

namespace KeySet

theorem all_ascending : Key.all.Pairwise (fun a b => a.rank < b.rank) := by decide

/-- The set of the members of a list. -/
def ofList (ks : List Key) : KeySet :=
  ⟨Key.all.filter (ks.contains ·), all_ascending.filter _⟩

def empty : KeySet := ⟨[], .nil⟩

def contains (s : KeySet) (k : Key) : Bool := s.keys.contains k

def size (s : KeySet) : Nat := s.keys.length

/-- The most special keys an input instruction can carry. -/
def special : Nat := 10

end KeySet
end Handheld
