import Handheld.Text.Utf8
import Handheld.Word

namespace Handheld

/-- A sequence of one-byte cells. Positions and lengths count bytes. -/
@[ext] structure Text where
  bytes : List UInt8
  deriving DecidableEq

namespace Text

/-- The padding byte, a blank. -/
def fill : UInt8 := 0x20

/-- No byte string reaches this many bytes. -/
def sizeLimit : Nat := 0x8000000000000000

def empty : Text := ⟨[]⟩

instance : Inhabited Text := ⟨empty⟩

def ofString (s : String) : Text := ⟨Utf8.encode s⟩

def filled (n : Nat) (byte : UInt8) : Text := ⟨List.replicate n byte⟩

def spaces (n : Nat) : Text := filled n fill

def length (t : Text) : Nat := t.bytes.length

def isEmpty (t : Text) : Bool := t.bytes.isEmpty

/-- The bytes from `start` on, at most `len` of them; what lies past the end is not there. -/
def slice (t : Text) (start len : Nat) : Text := ⟨(t.bytes.drop start).take len⟩

/-- Exactly `size` bytes: cut on the right, or padded on the right. -/
def forceSize (t : Text) (size : Nat) (byte : UInt8) : Text :=
  ⟨t.bytes.take size ++ List.replicate (size - t.length) byte⟩

/-- Exactly `size` bytes: cut on the right, or padded on the left. -/
def forceSizeRight (t : Text) (size : Nat) (byte : UInt8) : Text :=
  ⟨List.replicate (size - t.length) byte ++ t.bytes.take size⟩

def append (t other : Text) : Text := ⟨t.bytes ++ other.bytes⟩

instance : Append Text := ⟨append⟩

/-- Writes `other` over the bytes from `pos` on; blanks fill a gap before `pos`. -/
def replace (t : Text) (pos : Nat) (other : Text) : Text :=
  ⟨(t.forceSize (max t.length pos) fill).bytes.take pos ++ other.bytes ++
    t.bytes.drop (pos + other.length)⟩

/-- Without the blanks at both ends. -/
def trim (t : Text) : Text :=
  ⟨((t.bytes.dropWhile (· == fill)).reverse.dropWhile (· == fill)).reverse⟩

def removeLast (t : Text) : Text := ⟨t.bytes.dropLast⟩

/-- Bytes compare as unsigned numbers, and a proper beginning comes first. -/
def order (a b : Text) : Ordering := compareLex a.bytes b.bytes
where
  compareLex : List UInt8 → List UInt8 → Ordering
    | [], [] => .eq
    | [], _ :: _ => .lt
    | _ :: _, [] => .gt
    | a :: r, b :: s => if a < b then .lt else if b < a then .gt else compareLex r s

/-- The size of a text that can exist. -/
def checkSize (n : Nat) : Except Overflow Nat :=
  if n < sizeLimit then .ok n else .error .overflow

theorem checkSize_eq_ok_iff {n m : Nat} : checkSize n = .ok m ↔ n < sizeLimit ∧ m = n := by
  unfold checkSize
  split
  · simp_all [eq_comm]
  · simp only [reduceCtorEq, false_iff]; omega

/-- Exactly `size` bytes, cut or padded with blanks, where a text of this size can exist. -/
def forced (t : Text) (size : Nat) : Except Overflow Text :=
  (checkSize size).map fun n => t.forceSize n fill

/-- The texts one behind the other, where both together can exist. -/
def joined (t other : Text) : Except Overflow Text :=
  (checkSize (t.length + other.length)).map fun _ => t ++ other

/-- Grown with blanks to `size` bytes; a text that is that long stays. -/
def grow (t : Text) (size : Nat) : Except Overflow Text := do
  let size ← Word.check size
  if t.length < size then t.forced size else .ok t

/-- Writes `other` over the bytes from `pos` on, and grows first if it runs past the end. -/
def overwrite (t : Text) (pos : Nat) (other : Text) : Except Overflow Text :=
  (t.grow (pos + other.length)).map fun grown => grown.replace pos other

/-- How long the pieces are together. -/
def lengths : List Text → Nat
  | [] => 0
  | piece :: rest => piece.length + lengths rest

/-- Writes the pieces one behind the other. -/
def overwriteEach (t : Text) (pos : Nat) : List Text → Except Overflow Text
  | [] => .ok t
  | piece :: rest => do (← t.overwrite pos piece).overwriteEach (pos + piece.length) rest

def lossy (t : Text) : String := Utf8.lossy t.bytes

@[simp] theorem length_forceSize (t : Text) (n : Nat) (b : UInt8) :
    (t.forceSize n b).length = n := by
  simp only [length, forceSize, List.length_append, List.length_take, List.length_replicate]
  omega

@[simp] theorem length_forceSizeRight (t : Text) (n : Nat) (b : UInt8) :
    (t.forceSizeRight n b).length = n := by
  simp only [length, forceSizeRight, List.length_append, List.length_take, List.length_replicate]
  omega

@[simp] theorem length_replace (t : Text) (pos : Nat) (other : Text) :
    (t.replace pos other).length = max t.length (pos + other.length) := by
  have h := length_forceSize t (max t.length pos) fill
  simp only [length, replace, List.length_append, List.length_take, List.length_drop] at h ⊢
  omega

end Text
end Handheld
