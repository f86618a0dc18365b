import Handheld.Proofs.Compiler.Emitted
import Handheld.Proofs.Line.RoundTrip
import Handheld.Proofs.ProgramFile.Encoded

namespace Handheld

namespace Instruction

/-- The right-hand side of a comparison or an assignment. -/
def operand? : Instruction → Option Operand
  | .jumpIf cond _ => some cond.right
  | .op (.assign _ src) => some src
  | _ => none

/-- The file that the instruction names. -/
def file? : Instruction → Option FileName
  | .op o => o.file?
  | _ => none

end Instruction

/-- A program that loses nothing in a file: its title and version have no blanks at their ends, its
files have plain names or are named by pooled text registers, and no literal is a fraction. -/
structure Program.Plain (p : Program) : Prop where
  title : p.title.title.trim = p.title.title
  version : p.title.version.trim = p.title.version
  files : ∀ i ∈ p.code, ∀ f ∈ i.file?, f.Plain
  literals : ∀ i ∈ p.code, ∀ o ∈ i.operand?, o.Exact

instance : DecidablePred Program.Plain := fun p =>
  decidable_of_iff
    (p.title.title.trim = p.title.title ∧ p.title.version.trim = p.title.version ∧
      (∀ i ∈ p.code, ∀ f ∈ i.file?, f.Plain) ∧ ∀ i ∈ p.code, ∀ o ∈ i.operand?, o.Exact)
    ⟨fun ⟨ht, hv, hf, hl⟩ => ⟨ht, hv, hf, hl⟩, fun h => ⟨h.title, h.version, h.files, h.literals⟩⟩

namespace Compiler

variable {s : Source} {optimize : Bool} {p : Program}

/-- Titles that are too long are refused. -/
theorem compile_title_fits (h : (compile s optimize).1 = .ok p) :
    p.title.title.length ≤ Title.titleMax ∧ p.title.version.length ≤ Title.versionMax := by
  obtain ⟨c, t, he, -, rfl⟩ := compile_ok h
  unfold expand at he
  cases hcheck : checkTitle s.title with
  | error e => rw [hcheck] at he; cases he
  | ok _ =>
    unfold checkTitle at hcheck
    split at hcheck
    · cases hcheck
    · next htitle =>
      split at hcheck
      · cases hcheck
      · next hversion => exact ⟨Nat.le_of_not_lt htitle, Nat.le_of_not_lt hversion⟩

end Compiler

namespace Program.Plain

variable {p : Program}

theorem legible_title (h : p.Plain) (htitle : p.title.title.length ≤ Title.titleMax)
    (hversion : p.title.version.length ≤ Title.versionMax) : p.title.Legible :=
  ⟨⟨htitle, h.title⟩, hversion, h.version⟩

theorem legible_operand (h : p.Plain) {i : Instruction} (hi : i ∈ p.code) {o : Operand} {k : Kind}
    (ho : i.operand? = some o) (hk : o.Converted k) : o.Legible k :=
  ⟨hk, h.literals i hi o ho⟩

/-- The line of an instruction with converted literals. -/
theorem legible_line (h : p.Plain) {t : LabelTable} {i : Instruction} (hi : i ∈ p.code)
    (hc : i.Converted) {l : Line} (hl : t.line? i = some l) : l.Legible := by
  rcases LabelTable.line?_eq_some hl with ⟨o, rfl, rfl⟩ | ⟨u, n, rfl, -, rfl⟩ |
    ⟨cond, u, n, rfl, -, rfl⟩
  · refine ⟨h.files (.op o) hi, fun dst src ho => ?_, fun r hr => ?_⟩
    · subst ho
      exact h.legible_operand hi rfl hc
    · cases o with
      | barcodeInput row col dst columns special full flags =>
        obtain rfl : dst = r := Option.some.inj hr
        exact hc
      | _ => cases hr
  · trivial
  · exact h.legible_operand hi rfl hc

end Program.Plain
end Handheld
