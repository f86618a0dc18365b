import Handheld.Proofs.Construct.Emitted

namespace Handheld

namespace Operand

/-- The literal has the kind already. -/
def Converted (o : Operand) (k : Kind) : Prop := o.normalize k = o

theorem converted_normalize (o : Operand) (k : Kind) : (o.normalize k).Converted k := by
  cases o with
  | register r => rfl
  | key c => exact congrArg Operand.value (Value.coerce_self (Value.kind_coerce _ k))
  | value v => exact congrArg Operand.value (Value.coerce_self (Value.kind_coerce v k))

end Operand

/-- Literals have the kind of their registers, and barcodes go to the text pool. -/
def Instruction.Converted : Instruction → Prop
  | .jumpIf cond _ => cond.right.Converted cond.left.kind
  | .op (.assign dst src) => src.Converted dst.kind
  | .op (.barcodeInput _ _ dst ..) => ∃ i, dst = .dat i
  | _ => True

namespace Build

theorem converted_check {o o' : Operation} (h : check o = .ok o') :
    (Instruction.op o').Converted := by
  obtain ⟨rfl, -⟩ := check_ok h
  cases o with
  | assign dst src => exact src.converted_normalize dst.kind
  | barcodeInput row col dst columns special full flags =>
    unfold check at h
    simp only at h
    split at h
    · cases h
    · split at h
      · cases h
      · split at h
        · next hdat =>
          simp only [Bool.and_eq_true, decide_eq_true_eq] at hdat
          exact Register.eq_dat hdat.1 hdat.2
        · cases h
  | _ => trivial

end Build

/-- What constructs emit is converted, as menus read their keys into integer registers. -/
theorem Emitted.converted {ops : List Operation} {temps : List Register}
    (hkind : ∀ r ∈ temps, r.kind = .int) {i : Instruction} (h : Emitted ops temps i) : i.Converted := by
  cases h with
  | test cond t => exact cond.right.converted_normalize cond.left.kind
  | testNot cond t => exact cond.right.converted_normalize cond.left.kind
  | operation ho hcheck => exact Build.converted_check hcheck
  | line row l => cases l <;> trivial
  | digit hr n t =>
    show Operand.normalize (.value (.int n)) (Register.kind _) = _
    rw [hkind _ hr]
    rfl
  | _ => trivial

end Handheld
