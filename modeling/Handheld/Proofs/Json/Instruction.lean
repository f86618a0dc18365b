import Handheld.Json.Instruction
import Handheld.Proofs.Json.Operand
import Mathlib.Data.Set.Function

namespace Handheld

namespace Operation

def texts : Operation → List Text
  | assign _ src => src.texts
  | recordWrite file .. | recordRead file .. | recordCount file .. | fileDelete file | fileExists file
  | masterSearch file .. | upload file .. => file.texts
  | displayString _ _ _ text => [text]
  | _ => []

def floats : Operation → List Single
  | assign _ src => src.floats
  | _ => []

end Operation

namespace Instruction

def texts : Instruction → List Text
  | jumpIf c _ => c.right.texts
  | op o => o.texts
  | label _ | jump _ => []

def floats : Instruction → List Single
  | jumpIf c _ => c.right.floats
  | op o => o.floats
  | label _ | jump _ => []

/-- The positions, lengths, rows and columns. -/
def numbers : Instruction → List Nat
  | op o => o.numbers
  | label _ | jump _ | jumpIf _ _ => []

def labels : Instruction → List Label
  | label l | jump l | jumpIf _ l => [l]
  | op _ => []

/-- The texts are those of strings, the numbers of single precision are finite, and the other numbers
fit their words. -/
structure Plain (i : Instruction) : Prop where
  texts : ∀ t ∈ i.texts, t.IsUtf8
  floats : ∀ x ∈ i.floats, x.isFinite
  numbers : ∀ n ∈ i.numbers, n < Word.limit
  labels : ∀ l ∈ i.labels, l.id < Word.limit32

end Instruction

namespace Json.Rendering

variable {f : Json → Json} (hf : Rendering f)
include hf

section Operations

variable {o : Operation}

/-- No field is read as another, and none is replaced by what stands for an absent one. -/
theorem reads_fields (ht : ∀ t ∈ o.texts, t.IsUtf8) (hx : ∀ x ∈ o.floats, x.isFinite)
    (hn : ∀ n ∈ o.numbers, n < Word.limit) {fields : Json} (h : o.fieldsJson = some fields) :
    Operation.ofFields? o.name (f fields) = some o := by
  cases o
  case displayClear => cases h
  all_goals
    obtain rfl := Option.some.inj h
    dsimp only [Operation.name, Operation.ofFields?]
  case assign dst src =>
    simp [hf.record?_object, hf.reads_register, hf.reads_operand ht hx]
  case stringConcat dst dstPos first second =>
    obtain ⟨hpos, hslices⟩ := List.forall_mem_cons.mp hn
    obtain ⟨hfirst, hsecond⟩ := List.forall_mem_append.mp hslices
    simp [hf.record?_object, hf.reads_register, hf.reads_size hpos, hf.reads_slice hfirst,
      hf.reads_optSlice hsecond]
  case extractCopy dst dstPos src =>
    obtain ⟨hpos, hsrc⟩ := List.forall_mem_cons.mp hn
    simp [hf.record?_object, hf.reads_register, hf.reads_size hpos, hf.reads_slice hsrc]
  case stringShift reg size align fill =>
    have hsize : size < Word.limit := hn _ List.mem_cons_self
    simp [hf.record?_object, hf.reads_register, hf.reads_size hsize, hf.reads_align, hf.reads_uint8]
  case numberToString dst src =>
    simp [hf.record?_object, hf.reads_register]
  case variableInit reg =>
    simp [hf.record?_object, hf.reads_register]
  case recordWrite file recordLen src overwrite crlf =>
    have hlen : recordLen < Word.limit := hn _ List.mem_cons_self
    simp [hf.record?_object, hf.reads_register, hf.reads_fileName ht, hf.reads_size hlen,
      hf.bool?_bool]
  case recordRead file recordLen dst pos =>
    have hlen : recordLen < Word.limit := hn _ List.mem_cons_self
    simp [hf.record?_object, hf.reads_register, hf.reads_fileName ht, hf.reads_size hlen,
      hf.reads_filePosition]
  case recordCount file recordLen dst =>
    have hlen : recordLen < Word.limit := hn _ List.mem_cons_self
    simp [hf.record?_object, hf.reads_register, hf.reads_fileName ht, hf.reads_size hlen]
  case fileDelete file =>
    simp [hf.record?_object, hf.reads_fileName ht]
  case fileExists file =>
    simp [hf.record?_object, hf.reads_fileName ht]
  case masterSearch file recordLen key key2 method pos result =>
    obtain ⟨hlen, hslices⟩ := List.forall_mem_cons.mp hn
    obtain ⟨hkey, hkey2⟩ := List.forall_mem_append.mp hslices
    simp [hf.record?_object, hf.reads_register, hf.reads_fileName ht, hf.reads_size hlen,
      hf.reads_slice hkey, hf.reads_optSlice hkey2, hf.reads_uint8, hf.reads_filePosition]
  case echoedInput row col dst columns noEcho full special cursor minus =>
    obtain ⟨hrow, hcol, hcolumns⟩ : row < Word.limit ∧ col < Word.limit ∧ columns < Word.limit := by
      simpa [Operation.numbers] using hn
    simp [hf.record?_object, hf.reads_register, hf.reads_size hrow, hf.reads_size hcol,
      hf.reads_size hcolumns, hf.bool?_bool, hf.reads_fullAction, hf.reads_keySet,
      hf.reads_cursorShape]
  case barcodeInput row col dst columns special full flags =>
    obtain ⟨hrow, hcol, hcolumns⟩ : row < Word.limit ∧ col < Word.limit ∧ columns < Word.limit := by
      simpa [Operation.numbers] using hn
    simp [hf.record?_object, hf.reads_register, hf.reads_size hrow, hf.reads_size hcol,
      hf.reads_size hcolumns, hf.reads_keySet, hf.reads_fullAction, hf.reads_scanFlags]
  case barcodeSetup setup =>
    simp [hf.reads_barcodeSetup]
  case noEchoInput dst =>
    simp [hf.record?_object, hf.reads_register]
  case displayString row col clear text =>
    obtain ⟨hrow, hcol, hclear, -⟩ : row < Word.limit ∧ col < Word.limit ∧ clear < Word.limit ∧
        text.length < Word.limit := by
      simpa [Operation.numbers] using hn
    have htext : text.IsUtf8 := List.forall_mem_singleton.mp ht
    simp [hf.record?_object, hf.reads_size hrow, hf.reads_size hcol, hf.reads_size hclear,
      hf.reads_text htext]
  case displayPartClear row col len quarter =>
    obtain ⟨hrow, hcol, hlen⟩ : row < Word.limit ∧ col < Word.limit ∧ len < Word.limit := by
      simpa [Operation.numbers] using hn
    simp [hf.record?_object, hf.reads_size hrow, hf.reads_size hcol, hf.reads_size hlen,
      hf.bool?_bool]
  case displayRegister row col reg start len clear quarter reverse =>
    obtain ⟨hrow, hcol, hstart, hlen, hclear⟩ : row < Word.limit ∧ col < Word.limit ∧
        start < Word.limit ∧ len < Word.limit ∧ clear < Word.limit := by
      simpa [Operation.numbers] using hn
    simp [hf.record?_object, hf.reads_register, hf.reads_size hrow, hf.reads_size hcol,
      hf.reads_size hstart, hf.reads_size hlen, hf.reads_size hclear, hf.bool?_bool]
  case upload file gaugeKind gaugeLine stopKey =>
    simp [hf.record?_object, hf.reads_fileName ht, hf.reads_uint8, hf.reads_optKey]
  case download gaugeKind gaugeLine stopKey =>
    simp [hf.record?_object, hf.reads_uint8, hf.reads_optKey]
  case wait ms =>
    simp [hf.record?_object, hf.reads_uint32]

omit hf in
/-- Only one operation is written without fields. -/
theorem fieldsJson_cases (o : Operation) :
    o = .displayClear ∨ ∃ fields, o.fieldsJson = some fields ∧ o.name ≠ Operation.displayClear.name := by
  cases o
  case displayClear => exact .inl rfl
  all_goals exact .inr ⟨_, rfl, by simp [Operation.name]⟩

theorem reads_operation (ht : ∀ t ∈ o.texts, t.IsUtf8) (hx : ∀ x ∈ o.floats, x.isFinite)
    (hn : ∀ n ∈ o.numbers, n < Word.limit) : Operation.ofJson? (f o.toJson) = some o := by
  rcases fieldsJson_cases o with rfl | ⟨fields, hfields, hname⟩
  · show Operation.ofJson? (f (.ofString "display_clear")) = _
    rw [hf.ofString]
    rfl
  · rw [Operation.toJson, hfields, Operation.ofJson?]
    simp only [hf.variant?_object, if_neg hname, Option.bind_some]
    exact hf.reads_fields ht hx hn hfields

end Operations

theorem reads_instruction {i : Instruction} (h : i.Plain) :
    Instruction.ofJson? (f i.toJson) = some i := by
  cases i with
  | label l =>
    have hread := hf.reads_label (h.labels l List.mem_cons_self)
    simp [Instruction.toJson, Instruction.ofJson?, hf.variant?_object, hread]
  | jump l =>
    have hread := hf.reads_label (h.labels l List.mem_cons_self)
    simp [Instruction.toJson, Instruction.ofJson?, hf.variant?_object, hread]
  | jumpIf c l =>
    have hcond := hf.reads_condition h.texts h.floats
    have hread := hf.reads_label (h.labels l List.mem_cons_self)
    simp [Instruction.toJson, Instruction.ofJson?, hf.variant?_object, array, hf.arr, hcond, hread]
  | op o =>
    have hread := hf.reads_operation h.texts h.floats h.numbers
    simp [Instruction.toJson, Instruction.ofJson?, hf.variant?_object, hread]

end Json.Rendering

namespace Instruction

/-- An instruction is read from its JSON form, whether that keeps its numbers of single precision or
holds doubles for them. -/
theorem ofJson?_toJson {i : Instruction} (h : i.Plain) :
    ofJson? i.toJson = some i ∧ ofJson? i.toJson.widen = some i :=
  ⟨Json.Rendering.same.reads_instruction h, Json.Rendering.widened.reads_instruction h⟩

/-- A fraction that no double spells shortly, and a file with the name of a register, whose upload no
key stops. -/
theorem ofJson?_toJson_uploadUnlessTenth :
    let test := jumpIf ⟨.flt 0, .lt, .value (.float ⟨0xBDCCCCCD⟩)⟩ ⟨7⟩
    let upload := op (.upload (.literal (.ofString "DAT1")) 0 1 none)
    (ofJson? test.toJson = some test ∧ ofJson? test.toJson.widen = some test) ∧
      ofJson? upload.toJson = some upload := by
  intro test upload
  have htest : test.Plain :=
    ⟨nofun, List.forall_mem_singleton.mpr (by decide), nofun, List.forall_mem_singleton.mpr (by decide)⟩
  have hupload : upload.Plain :=
    ⟨List.forall_mem_singleton.mpr ⟨"DAT1", rfl⟩, nofun, nofun, nofun⟩
  exact ⟨ofJson?_toJson htest, (ofJson?_toJson hupload).1⟩

/-- Different instructions have different forms. -/
theorem toJson_injOn : Set.InjOn toJson {i | i.Plain} := by
  intro i hi j hj heq
  have hread := Json.Rendering.same.reads_instruction hi
  rw [heq, Json.Rendering.same.reads_instruction hj] at hread
  exact (Option.some.inj hread).symm

end Instruction
end Handheld
