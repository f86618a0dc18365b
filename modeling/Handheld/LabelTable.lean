import Handheld.Fault

namespace Handheld

/-- The attributes of one label. -/
@[ext] structure LabelTable.Slot where
  number : Option Nat
  offset : Option Nat
  index : Option Nat
  deriving DecidableEq

namespace LabelTable.Slot

def blank : Slot := ⟨none, none, none⟩

def get (s : Slot) : Label.Attribute → Option Nat
  | .number => s.number
  | .offset => s.offset
  | .index => s.index

def set (s : Slot) (a : Label.Attribute) (n : Nat) : Slot :=
  match a with
  | .number => { s with number := some n }
  | .offset => { s with offset := some n }
  | .index => { s with index := some n }

theorem get_set (s : Slot) (a b : Label.Attribute) (n : Nat) :
    (s.set a n).get b = if a = b then some n else s.get b := by
  cases a <;> cases b <;> rfl

end LabelTable.Slot

/-- The slots of all labels created so far, fewer than `2 ^ 32`. Every attribute of a label is written
once; a second write is refused unless it repeats the value. -/
@[ext] structure LabelTable where
  slots : List LabelTable.Slot
  deriving DecidableEq

namespace LabelTable

/-- The number that the program file reserves for the entry point. -/
def entryNumber : Nat := 1

/-- Only the entry point, which is resolved from the start. -/
def initial : LabelTable := ⟨[⟨some entryNumber, some 0, some 0⟩]⟩

def size (t : LabelTable) : Nat := t.slots.length

def create (t : LabelTable) : Label × LabelTable := (⟨t.size⟩, ⟨t.slots ++ [.blank]⟩)

def slot? (t : LabelTable) (l : Label) : Option Slot := t.slots[l.id]?

def get (t : LabelTable) (a : Label.Attribute) (l : Label) : Except Fault Nat :=
  match t.slot? l with
  | none => .error (.unknownLabel l)
  | some s =>
    match s.get a with
    | none => .error (.unresolvedLabel l a)
    | some n => .ok n

/-- Writes an attribute for the first time, or confirms it. -/
def set (t : LabelTable) (a : Label.Attribute) (l : Label) (n : Nat) : Except Fault LabelTable :=
  match t.slot? l with
  | none => .error (.unknownLabel l)
  | some s =>
    match s.get a with
    | none => .ok ⟨t.slots.set l.id (s.set a n)⟩
    | some old => if old = n then .ok t else .error (.labelReassigned l a old n)

/-- The first label with the given number. -/
def byNumber? (t : LabelTable) (n : Nat) : Option Label :=
  (t.slots.findIdx? fun s => s.number = some n).map Label.mk

end LabelTable
end Handheld
