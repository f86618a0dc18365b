import Handheld.Proofs.Program.Link
import Mathlib.Data.List.Nodup
import Mathlib.Data.Set.Function

namespace Handheld

/-- The instruction with its labels renamed. -/
def Instruction.rename (f : Label → Label) : Instruction → Instruction
  | .label l => .label (f l)
  | .jump t => .jump (f t)
  | .jumpIf c t => .jumpIf c (f t)
  | .op o => .op o

namespace Instruction

variable {f : Label → Label}

theorem label?_rename (i : Instruction) : (i.rename f).label? = i.label?.map f := by
  cases i <;> rfl

theorem target?_rename (i : Instruction) : (i.rename f).target? = i.target?.map f := by
  cases i <;> rfl

end Instruction

theorem placedLabels_rename (f : Label → Label) (code : List Instruction) :
    placedLabels (code.map (.rename f)) = (placedLabels code).map f := by
  rw [placedLabels, placedLabels, List.filterMap_map, List.map_filterMap]
  exact congrArg (List.filterMap · code) (funext Instruction.label?_rename)

namespace Program

variable {f : Label → Label} {p q : Program}

/-- `q` is `p` with its labels renamed by `f`, which tells the entry and the placed labels apart. -/
structure Renames (f : Label → Label) (p q : Program) : Prop where
  title : q.title = p.title
  code : q.code = p.code.map (.rename f)
  entry : f .entry = .entry
  injective : Set.InjOn f {l | l = .entry ∨ l ∈ placedLabels p.code}

theorem Renames.eq_entry (h : Renames f p q) {l : Label}
    (hl : l = .entry ∨ l ∈ placedLabels p.code) : f l = .entry ↔ l = .entry := by
  constructor
  · intro he
    exact h.injective hl (.inl rfl) (he.trans h.entry.symm)
  · rintro rfl
    exact h.entry

theorem Renames.closed (h : Renames f p q) (hc : Closed p.code) : Closed q.code := by
  have hlabels : placedLabels q.code = (placedLabels p.code).map f := by
    rw [h.code, placedLabels_rename]
  refine ⟨?_, fun he => ?_, fun i hi t ht => ?_⟩
  · rw [hlabels]
    exact List.Nodup.map_on (fun l hl l' hl' => h.injective (.inr hl) (.inr hl')) hc.once
  · rw [hlabels] at he
    obtain ⟨l, hl, he⟩ := List.mem_map.mp he
    exact hc.outside ((h.eq_entry (.inr hl)).mp he ▸ hl)
  · rw [h.code] at hi
    obtain ⟨j, hj, rfl⟩ := List.mem_map.mp hi
    rw [Instruction.target?_rename] at ht
    obtain ⟨u, hu, rfl⟩ := Option.map_eq_some_iff.mp ht
    rcases hc.placed j hj u hu with rfl | hu
    · exact .inl h.entry
    · exact .inr (hlabels ▸ List.mem_map_of_mem hu)

/-- Two programs with indexed labels that do the same in the same places: their jumps lead to the
same place, and the same ones return. -/
structure Mirrors (f : Label → Label) (p q : Program) : Prop where
  title : q.title = p.title
  code : q.code = p.code.map (.rename f)
  index : ∀ i ∈ p.code, ∀ t, i.target? = some t → q.labels.get .index (f t) = p.labels.get .index t
  entry : ∀ i ∈ p.code, ∀ t, i.target? = some t → (f t = .entry ↔ t = .entry)

/-- Renamed programs link to programs that do the same in the same places. -/
theorem Renames.link (h : Renames f p q) (hc : Closed p.code) (hp : p.labels.Fits p.code)
    (hq : q.labels.Fits q.code) : ∃ p' q', link p = .ok p' ∧ link q = .ok q' ∧
      p'.title = p.title ∧ p'.code = p.code ∧ Mirrors f p' q' := by
  obtain ⟨t, hlink, -, hentry, hplaced⟩ := link_closed hc hp
  obtain ⟨t', hlink', -, hentry', hplaced'⟩ := link_closed (h.closed hc) hq
  refine ⟨_, _, hlink, hlink', rfl, rfl, h.title, h.code, fun i hi l hl => ?_, fun i hi l hl => ?_⟩
  · show t'.get .index (f l) = t.get .index l
    rcases hc.placed i hi l hl with rfl | hmem
    · rw [h.entry, hentry, hentry']
    · obtain ⟨before, rest, hcode⟩ := List.append_of_mem (mem_placedLabels.mp hmem)
      have hcode' : q.code = before.map (.rename f) ++ .label (f l) :: rest.map (.rename f) := by
        rw [h.code, hcode, List.map_append, List.map_cons]
        rfl
      rw [hplaced before l rest hcode, hplaced' _ _ _ hcode', List.length_map]
  · exact h.eq_entry (hc.placed i hi l hl)

end Program
end Handheld
