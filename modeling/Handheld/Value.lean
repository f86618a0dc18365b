import Handheld.Binary.Single
import Handheld.Key

namespace Handheld

/-- What a register holds. -/
inductive Value where
  | int (n : Int32)
  | float (x : Single)
  | text (t : Text)
  deriving DecidableEq

namespace Value

def kind : Value → Kind
  | int _ => .int
  | float _ => .float
  | text _ => .text

def zero : Kind → Value
  | .text => text .empty
  | .int => int 0
  | .float => float .zero

def ofKey (k : Key) : Value := int k.code32

/-- A number in decimal, a text as itself. -/
def toText : Value → Text
  | int n => ⟨Decimal.signedBytes n.toInt⟩
  | float x => ⟨x.bytes⟩
  | text t => t

def display (v : Value) : String := v.toText.lossy

/-- Text reads as an integer without the blanks around it, and as zero where it spells none. -/
def toInt : Value → Int32
  | int n => n
  | float x => x.toInt32
  | text t => (Decimal.readInt32? t.trim.bytes).getD 0

/-- Text reads as a number without the blanks around it, and as zero where it spells none. -/
def toFloat : Value → Single
  | int n => .ofInt n.toInt
  | float x => x
  | text t => (Single.read? t.trim.bytes).getD .zero

def coerce (v : Value) : Kind → Value
  | .text => text v.toText
  | .int => int v.toInt
  | .float => float v.toFloat

@[simp] theorem kind_coerce (v : Value) (k : Kind) : (v.coerce k).kind = k := by
  cases k <;> rfl

theorem coerce_self {v : Value} {k : Kind} (h : v.kind = k) : v.coerce k = v := by
  subst h; cases v <;> rfl

/-- The second value is first converted to the kind of the first. -/
def order (a b : Value) : Ordering :=
  match a with
  | int n => compare n.toInt b.toInt.toInt
  | float x => x.order b.toFloat
  | text t => t.order b.toText

end Value
end Handheld
