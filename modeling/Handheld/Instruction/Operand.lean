import Handheld.Value
import Handheld.Comparison
import Handheld.Text.Quoted

namespace Handheld

/-- A file named literally, or by the contents of a register. -/
inductive FileName where
  | register (reg : Register)
  | literal (name : Text)
  deriving DecidableEq

def FileName.display : FileName → String
  | register r => "[" ++ r.name ++ "]"
  | literal name => name.lossy

/-- The right-hand side of a comparison or an assignment. -/
inductive Operand where
  | register (reg : Register)
  | key (key : Key)
  | value (v : Value)
  deriving DecidableEq

namespace Operand

def register? : Operand → Option Register
  | register r => some r
  | _ => none

/-- Literals converted to a kind; a register stays as it is. -/
def normalize (o : Operand) (k : Kind) : Operand :=
  match o with
  | register r => register r
  | key c => value ((Value.ofKey c).coerce k)
  | value v => value (v.coerce k)

def display : Operand → String
  | register r => r.name
  | key k => "key " ++ k.name
  | value (.text t) => t.quoted
  | value v => v.display

end Operand

/-- A comparison of a register with an operand. -/
@[ext] structure Condition where
  left : Register
  comparison : Comparison
  right : Operand
  deriving DecidableEq

namespace Condition

/-- With the literal converted to the kind of the register. -/
def normalize (c : Condition) : Condition := { c with right := c.right.normalize c.left.kind }

def negate (c : Condition) : Condition := { c with comparison := c.comparison.opposite }

def display (c : Condition) : String :=
  c.left.name ++ " " ++ c.comparison.symbol ++ " " ++ c.right.display

end Condition

/-- `len` bytes of a register from `pos` on. In a search the position is the place of the key inside
each record instead. -/
@[ext] structure Slice where
  reg : Register
  pos : Nat
  len : Nat
  deriving DecidableEq

def Slice.display (s : Slice) : String :=
  s.reg.name ++ "[" ++ Decimal.text s.pos ++ "+" ++ Decimal.text s.len ++ "]"

end Handheld
