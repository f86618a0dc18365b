import Handheld.Decimal

namespace Handheld

/-- A label by its place in the table. The device counts labels and their numbers in 32 bits; fewer
than `2 ^ 32` labels are assumed throughout. -/
@[ext] structure Label where
  id : Nat
  deriving DecidableEq

/-- The entry point of the program; jumping to it returns control to the caller. -/
def Label.entry : Label := ⟨0⟩

def Label.display (l : Label) : String :=
  if l = .entry then "label <entry>" else "label #" ++ Decimal.text l.id

namespace Label

/-- What is recorded about a label: its number in the program file, its offset in the file's body,
and its index in the instruction list. -/
inductive Attribute where
  | number
  | offset
  | index
  deriving DecidableEq

def Attribute.name : Attribute → String
  | number => "number"
  | offset => "offset"
  | index => "index"

end Label
end Handheld
