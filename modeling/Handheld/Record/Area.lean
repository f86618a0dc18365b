import Handheld.Record.File

namespace Handheld

/-- The record files by name, kept in the order of the names. -/
structure FileArea where
  entries : List (Text × RecordFile)
  deriving DecidableEq

namespace FileArea

def empty : FileArea := ⟨[]⟩

def get? (a : FileArea) (name : Text) : Option RecordFile :=
  (a.entries.find? fun e => e.1 = name).map (·.2)

/-- Puts a file in the place of the one with its name, or before the first greater name. -/
def insertEntry (name : Text) (f : RecordFile) : List (Text × RecordFile) → List (Text × RecordFile)
  | [] => [(name, f)]
  | e :: rest =>
    if e.1 = name then (name, f) :: rest
    else if name.order e.1 = .lt then (name, f) :: e :: rest
    else e :: insertEntry name f rest

def put (a : FileArea) (name : Text) (f : RecordFile) : FileArea := ⟨insertEntry name f a.entries⟩

/-- The file with the name, a fresh one if there is none. -/
def ensure (a : FileArea) (name : Text) : RecordFile := (a.get? name).getD .fresh

def delete (a : FileArea) (name : Text) : FileArea := ⟨a.entries.filter fun e => e.1 ≠ name⟩

def names (a : FileArea) : List Text := a.entries.map (·.1)

theorem find?_insertEntry (name other : Text) (f : RecordFile) (es : List (Text × RecordFile)) :
    (insertEntry name f es).find? (fun e => e.1 = other) =
      if name = other then some (name, f) else es.find? fun e => e.1 = other := by
  induction es with
  | nil => simp [insertEntry, List.find?_cons]; split <;> simp_all
  | cons e rest ih =>
    simp only [insertEntry]
    by_cases he : e.1 = name
    · rw [if_pos he]
      by_cases h : name = other
      · simp [h]
      · simp [h, show e.1 ≠ other from he ▸ h]
    · rw [if_neg he]
      split
      · by_cases h : name = other <;> simp [List.find?_cons, h]
      · rw [List.find?_cons, ih, List.find?_cons]
        by_cases h : name = other
        · simp [h, show e.1 ≠ other from h ▸ he]
        · simp [h]

theorem get?_put (a : FileArea) (name other : Text) (f : RecordFile) :
    (a.put name f).get? other = if name = other then some f else a.get? other := by
  simp only [get?, put, find?_insertEntry]
  split <;> rfl

theorem get?_delete (a : FileArea) (name other : Text) :
    (a.delete name).get? other = if name = other then none else a.get? other := by
  simp only [get?, delete, List.find?_filter]
  by_cases h : name = other
  · subst h
    simp
  · rw [if_neg h]
    congr 2
    funext e
    by_cases he : e.1 = other
    · simp [he, Ne.symm h]
    · simp [he]

end FileArea
end Handheld
