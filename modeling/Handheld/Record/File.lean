import Handheld.Text.Basic

namespace Handheld

/-- A record file. Records have no stored length: every operation takes the length of its caller, so two
readers may disagree about where records start. -/
@[ext] structure RecordFile where
  content : Text
  pointer : Nat
  /-- Set by a movement that found no record, cleared by every other write or movement. -/
  eof : Bool
  deriving DecidableEq

namespace RecordFile

/-- A file that nothing has been written to. -/
def fresh : RecordFile := ⟨.empty, 0, true⟩

/-- A file with the given content, its pointer at the top. -/
def ofText (t : Text) : RecordFile := ⟨t, 0, false⟩

def size (f : RecordFile) : Nat := f.content.length

/-- Writes over the bytes from the pointer on; the file grows where they end. -/
def write (f : RecordFile) (data : Text) : RecordFile :=
  { f with content := f.content.replace f.pointer data, eof := false }

/-- Writes behind the last byte and leaves the pointer on what was written. -/
def append (f : RecordFile) (data : Text) : RecordFile := { f with pointer := f.size }.write data

/-- The record at the pointer, if the file holds it whole; blanks once a movement has failed. -/
def read (f : RecordFile) (len : Nat) : Except Overflow (Option Text) :=
  if f.eof then (Text.checkSize len).map fun n => some (.spaces n)
  else if f.pointer + len ≤ f.size then .ok (some (f.content.slice f.pointer len))
  else .ok none

/-- Moves the pointer, or marks that there is no record to move to. -/
def seek (f : RecordFile) : Option Nat → Bool × RecordFile
  | some p => (true, { f with pointer := p, eof := false })
  | none => (false, { f with eof := true })

def previous (f : RecordFile) (len : Nat) : Bool × RecordFile :=
  f.seek (if len ≤ f.pointer then some (f.pointer - len) else none)

/-- Moves only to a whole record. -/
def next (f : RecordFile) (len : Nat) : Except Overflow (Bool × RecordFile) :=
  (Word.check (f.pointer + len)).map fun p => f.seek (if p + len ≤ f.size then some p else none)

def top (f : RecordFile) (len : Nat) : Bool × RecordFile :=
  f.seek (if len ≤ f.size then some 0 else none)

def bottom (f : RecordFile) (len : Nat) : Bool × RecordFile :=
  f.seek (if len ≤ f.size then some (f.size - len) else none)

/-- Moves to the record with the given number, from zero. -/
def position (f : RecordFile) (len index : Nat) : Except Overflow (Bool × RecordFile) :=
  if len * index < Word.limit then
    (Word.check (len * index + len)).map fun last =>
      f.seek (if last ≤ f.size then some (len * index) else none)
  else .ok (f.seek none)

/-- How many whole records there are. -/
def count (f : RecordFile) (len : Nat) : Nat := if len = 0 then 0 else f.size / len

def record (f : RecordFile) (len index : Nat) : Text := f.content.slice (index * len) len

/-- A field of a record. -/
@[ext] structure KeyField where
  offset : Nat
  len : Nat
  deriving DecidableEq

/-- The fields of a record, joined. -/
def joined (record : Text) (fields : List KeyField) : Text :=
  fields.foldl (fun key f => key ++ record.slice f.offset f.len) .empty

/-- Halves the range of records from `low` up to `high` until the middle one has the key. -/
def searchRange (f : RecordFile) (len : Nat) (fields : List KeyField) (key : Text) (low high : Nat) :
    Option Nat :=
  if _ : low < high then
    let mid := low + (high - low) / 2
    match (joined (f.record len mid) fields).order key with
    | .lt => searchRange f len fields key (mid + 1) high
    | .gt => searchRange f len fields key low mid
    | .eq => some mid
  else none
termination_by high - low

/-- Binary search among the whole records by their joined fields. A hit moves the pointer. -/
def search (f : RecordFile) (len : Nat) (fields : List KeyField) (key : Text) :
    Option Text × RecordFile :=
  match searchRange f len fields key 0 (f.count len) with
  | some i => (some (f.record len i), { f with pointer := i * len, eof := false })
  | none => (none, f)

@[simp] theorem size_ofText (t : Text) : (ofText t).size = t.length := rfl

@[simp] theorem size_write (f : RecordFile) (data : Text) :
    (f.write data).size = max f.size (f.pointer + data.length) := by
  simp [write, size]

@[simp] theorem pointer_write (f : RecordFile) (data : Text) : (f.write data).pointer = f.pointer :=
  rfl

@[simp] theorem pointer_append (f : RecordFile) (data : Text) : (f.append data).pointer = f.size :=
  rfl

@[simp] theorem size_append (f : RecordFile) (data : Text) :
    (f.append data).size = f.size + data.length := by
  rw [append, size_write, show ({ f with pointer := f.size } : RecordFile).size = f.size from rfl]
  exact Nat.max_eq_right (Nat.le_add_right _ _)

end RecordFile
end Handheld
