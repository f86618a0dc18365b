import Handheld.Proofs.Json.Rendering
import Handheld.Proofs.Line.Bounds
import Handheld.Proofs.Line.Fields

namespace Handheld

/-- The text is that of a string. -/
def Text.IsUtf8 (t : Text) : Prop := ∃ s, t = .ofString s

namespace Value

def texts : Value → List Text
  | text t => [t]
  | _ => []

def floats : Value → List Single
  | float x => [x]
  | _ => []

end Value

def FileName.texts : FileName → List Text
  | literal name => [name]
  | register _ => []

namespace Operand

def texts : Operand → List Text
  | value v => v.texts
  | _ => []

def floats : Operand → List Single
  | value v => v.floats
  | _ => []

end Operand

namespace Json.Rendering

variable {f : Json → Json} (hf : Rendering f)
include hf

section Choices

theorem reads_register (r : Register) : Register.ofJson? (f r.toJson) = some r := by
  have hall : ∀ r ∈ Register.all, Register.ofName? r.name = some r := by decide +kernel
  rw [Register.ofJson?, Register.toJson, hf.text?_ofString]
  exact hall r r.mem_all

theorem reads_key (k : Key) : Key.ofJson? (f k.toJson) = some k := by
  have hall : ∀ k ∈ Key.all, (Key.all.find? fun a => a.name = k.name) = some k := by decide
  exact hf.choice?_ofString (hall k k.mem_all)

theorem reads_comparison (c : Comparison) : Comparison.ofJson? (f c.toJson) = some c :=
  hf.choice?_ofString (by cases c <;> rfl)

theorem reads_filePosition (p : FilePosition) : FilePosition.ofJson? (f p.toJson) = some p :=
  hf.choice?_ofString (by cases p <;> rfl)

theorem reads_fullAction (a : FullAction) : FullAction.ofJson? (f a.toJson) = some a :=
  hf.choice?_ofString (by cases a <;> rfl)

theorem reads_cursorShape (c : CursorShape) : CursorShape.ofJson? (f c.toJson) = some c :=
  hf.choice?_ofString (by cases c <;> rfl)

theorem reads_align (a : Align) : Align.ofJson? (f a.toJson) = some a :=
  hf.choice?_ofString (by cases a <;> rfl)

theorem reads_keySet (s : KeySet) : KeySet.ofJson? (f s.toJson) = some s := by
  rw [KeySet.ofJson?, KeySet.toJson, hf.list?_array fun k _ => hf.reads_key k, Option.map_some,
    Line.ofList_keys]

end Choices

section Numbers

theorem reads_size {n : Nat} (h : n < Word.limit) : size? (f (.ofNat n)) = some n := hf.nat?_ofNat h

theorem reads_uint8 (n : UInt8) : uint8? (f (.ofNat n.toNat)) = some n := by
  rw [uint8?, hf.nat?_ofNat n.toNat_lt]
  exact congrArg some (UInt8.ofNat_toNat)

theorem reads_uint16 (n : UInt16) : uint16? (f (.ofNat n.toNat)) = some n := by
  rw [uint16?, hf.nat?_ofNat n.toNat_lt]
  exact congrArg some (UInt16.ofNat_toNat)

theorem reads_uint32 (n : UInt32) : uint32? (f (.ofNat n.toNat)) = some n := by
  have hlimit : n.toNat < Word.limit32 := n.toNat_lt
  rw [uint32?, hf.nat?_ofNat hlimit]
  exact congrArg some (UInt32.ofNat_toNat)

theorem reads_label {l : Label} (h : l.id < Word.limit32) : Label.ofJson? (f l.toJson) = some l := by
  rw [Label.ofJson?, Label.toJson, hf.nat?_ofNat h]
  rfl

end Numbers

section Untagged

theorem reads_text {t : Text} (h : t.IsUtf8) : Text.ofJson? (f t.toJson) = some t := by
  obtain ⟨s, rfl⟩ := h
  have hlossy : (Text.ofString s).lossy = s := Utf8.lossy_encode s
  rw [Text.ofJson?, Text.toJson, hlossy, hf.text?_ofString]
  rfl

omit hf in
/-- What is no object names nothing. -/
theorem namedRecord?_scalar {names : List String} {j : Json} (h : ∀ fields, j ≠ .obj fields) :
    namedRecord? names j = none := namedRecord?.eq_2 names j h

theorem reads_reference (r : Register) : Register.ofReference? (f r.reference) = some r := by
  rw [Register.ofReference?, Register.reference, hf.namedRecord?_one]
  exact hf.reads_register r

theorem reads_keyReference (k : Key) :
    Operand.keyOfReference? (f (.object [("key", k.toJson)])) = some k := by
  rw [Operand.keyOfReference?, hf.namedRecord?_one]
  exact hf.reads_key k

/-- An object that names a key names no register. -/
theorem reference_of_key (k : Key) :
    Register.ofReference? (f (.object [("key", k.toJson)])) = none := by
  rw [Register.ofReference?, hf.namedRecord?_other (by decide)]
  rfl

theorem settled_named (name s : String) : (f (.object [(name, .ofString s)])).settled :=
  hf.settled_object fun _ hp => List.mem_singleton.mp hp ▸ hf.settled_ofString s

/-- A value is a number or a string. -/
theorem value_scalar {v : Value} (hx : ∀ x ∈ v.floats, x.isFinite) :
    (∃ n, f v.toJson = .num (some n)) ∨ ∃ s, f v.toJson = .str (some s) := by
  cases v with
  | int n => exact .inl ⟨_, hf.integer _⟩
  | float x =>
    have hfinite : x.isFinite := hx x List.mem_cons_self
    obtain ⟨n, hn, -⟩ := hf.single x hfinite
    rw [Value.toJson, ofSingle, if_pos hfinite]
    exact .inl ⟨n, hn⟩
  | text t => exact .inr ⟨_, hf.ofString _⟩

theorem reads_value {v : Value} (ht : ∀ t ∈ v.texts, t.IsUtf8) (hx : ∀ x ∈ v.floats, x.isFinite) :
    Value.ofJson? (f v.toJson) = some v := by
  cases v with
  | int n =>
    have hrange : -0x80000000 ≤ n.toInt ∧ n.toInt < 0x80000000 := ⟨n.le_toInt, n.toInt_lt⟩
    rw [Value.toJson, ofInt, hf.integer, Value.ofJson?, if_pos hrange, Int32.ofInt_toInt]
  | float x =>
    have hfinite : x.isFinite := hx x List.mem_cons_self
    obtain ⟨n, hn, hread⟩ := hf.single x hfinite
    rw [Value.toJson, ofSingle, if_pos hfinite, hn, hread]
  | text t =>
    obtain ⟨s, rfl⟩ := ht t List.mem_cons_self
    have hlossy : (Text.ofString s).lossy = s := Utf8.lossy_encode s
    rw [Value.toJson, Text.toJson, hlossy, hf.ofString]
    rfl

/-- A literal name is read as text, not as a register. -/
theorem reads_fileName {name : FileName} (ht : ∀ t ∈ name.texts, t.IsUtf8) :
    FileName.ofJson? (f name.toJson) = some name := by
  rw [FileName.ofJson?, whole?]
  cases name with
  | register r =>
    have hsettled : (f r.reference).settled := hf.settled_named "reg" r.name
    rw [FileName.toJson, if_pos hsettled, hf.reads_reference]
  | literal t =>
    have hnone : Register.ofReference? (f t.toJson) = none := by
      rw [Register.ofReference?, namedRecord?_scalar]
      rw [Text.toJson, hf.ofString]
      nofun
    have hsettled : (f t.toJson).settled := hf.settled_ofString t.lossy
    rw [FileName.toJson, if_pos hsettled, hnone]
    simp only [hf.reads_text (ht t List.mem_cons_self), Option.map_some]

/-- Registers, keys, numbers and texts are told apart. -/
theorem reads_operand {o : Operand} (ht : ∀ t ∈ o.texts, t.IsUtf8) (hx : ∀ x ∈ o.floats, x.isFinite) :
    Operand.ofJson? (f o.toJson) = some o := by
  rw [Operand.ofJson?, whole?]
  cases o with
  | register r =>
    have hsettled : (f r.reference).settled := hf.settled_named "reg" r.name
    rw [Operand.toJson, if_pos hsettled, hf.reads_reference]
  | key k =>
    have hsettled : (f (.object [("key", k.toJson)])).settled := hf.settled_named "key" k.name
    rw [Operand.toJson, if_pos hsettled, hf.reference_of_key, hf.reads_keyReference]
  | value v =>
    have hread := hf.reads_value ht hx
    have hscalar : ∀ fields, f v.toJson ≠ .obj fields := by
      rcases hf.value_scalar hx with ⟨n, hn⟩ | ⟨s, hs⟩ <;> simp_all
    have hsettled : (f v.toJson).settled := by
      rcases hf.value_scalar hx with ⟨n, hn⟩ | ⟨s, hs⟩ <;> simp_all [settled]
    rw [Operand.toJson, if_pos hsettled]
    simp [Register.ofReference?, Operand.keyOfReference?, namedRecord?_scalar hscalar, hread]

end Untagged

section Records

theorem reads_condition {c : Condition} (ht : ∀ t ∈ c.right.texts, t.IsUtf8)
    (hx : ∀ x ∈ c.right.floats, x.isFinite) : Condition.ofJson? (f c.toJson) = some c := by
  simp [Condition.toJson, Condition.ofJson?, hf.record?_object,
    hf.reads_register, hf.reads_comparison, hf.reads_operand ht hx]

theorem reads_slice {s : Slice} (h : ∀ n ∈ s.numbers, n < Word.limit) :
    Slice.ofJson? (f s.toJson) = some s := by
  have hpos : s.pos < Word.limit := h _ (by simp [Slice.numbers])
  have hlen : s.len < Word.limit := h _ (by simp [Slice.numbers])
  simp [Slice.toJson, Slice.ofJson?, hf.record?_object, hf.reads_register,
    hf.reads_size hpos, hf.reads_size hlen]

/-- A slice that is absent stays absent. -/
theorem reads_optSlice {o : Option Slice} (h : ∀ n ∈ o.toList.flatMap Slice.numbers, n < Word.limit) :
    option? Slice.ofJson? (f (.ofOption Slice.toJson o)) = some o := by
  refine hf.option?_ofOption (fun s hs => hf.reads_slice fun n hn => h n ?_) fun s _ => ?_
  · rw [Option.mem_def.mp hs]
    simpa using hn
  · rw [Slice.toJson, hf.object]
    nofun

/-- Also the absence of a key that stops a transfer is written and read. -/
theorem reads_optKey (o : Option Key) :
    option? Key.ofJson? (f (.ofOption Key.toJson o)) = some o := by
  refine hf.option?_ofOption (fun k _ => hf.reads_key k) fun k _ => ?_
  rw [Key.toJson, hf.ofString]
  nofun

theorem reads_scanFlags (flags : ScanFlags) : ScanFlags.ofJson? (f flags.toJson) = some flags := by
  simp [ScanFlags.toJson, ScanFlags.ofJson?, hf.record?_object, hf.bool?_bool]

theorem reads_digits (digits : Vector UInt16 5) :
    ReaderSettings.digits? (f (.array (digits.toList.map fun d => .ofNat d.toNat))) = some digits := by
  obtain ⟨⟨ds⟩, hds⟩ := digits
  match ds, hds with
  | [a, b, c, d, e], _ =>
    rw [ReaderSettings.digits?, hf.list?_array fun d _ => hf.reads_uint16 d]
    rfl

theorem reads_readerSettings (s : ReaderSettings) :
    ReaderSettings.ofJson? (f s.toJson) = some s := by
  simp [ReaderSettings.toJson, ReaderSettings.ofJson?, hf.record?_object, hf.reads_digits,
    hf.reads_uint16, hf.reads_uint8]

theorem reads_barcodeSetup (s : BarcodeSetup) : BarcodeSetup.ofJson? (f s.toJson) = some s := by
  cases s with
  | symbology map =>
    simp [BarcodeSetup.toJson, BarcodeSetup.ofJson?, hf.variant?_object, hf.record?_object,
      hf.reads_uint16]
  | reader settings =>
    simp [BarcodeSetup.toJson, BarcodeSetup.ofJson?, hf.variant?_object, hf.reads_readerSettings]

end Records

end Json.Rendering
end Handheld
