import Handheld.ProgramFile
import Handheld.Proofs.Line.Bounds
import Handheld.Proofs.Program.Link
import Mathlib.Data.List.Nodup
import Mathlib.Data.List.Perm.Subperm

namespace Handheld

namespace ProgramFile

open Line

/-- The slot of a label that has been declared with a number and an offset. -/
def declaredSlot (d : Nat × Nat) : LabelTable.Slot := ⟨some d.1, some d.2, none⟩

/-- The header behind the declarations of the numbers with their offsets, no number repeated. -/
structure Header.Declared (h : Header) (ds : List (Nat × Nat)) : Prop where
  slots : h.labels.slots = LabelTable.initial.slots ++ ds.map declaredSlot
  pending : h.pending = (ds.zipIdx 1).map fun d => (d.1.2, ⟨d.2⟩)
  distinct : (LabelTable.entryNumber :: ds.map (·.1)).Nodup
  fits : ∀ d ∈ ds, d.1 < Word.limit32

variable {h h' : Header} {ds : List (Nat × Nat)}

theorem declared_initial : Header.Declared ⟨.initial, []⟩ [] :=
  ⟨rfl, rfl, List.nodup_singleton _, by simp⟩

/-- No slot has a number that is not found. -/
theorem byNumber?_eq_none {t : LabelTable} {n : Nat} (hn : t.byNumber? n = none) :
    ∀ s ∈ t.slots, s.number ≠ some n := by
  simpa [LabelTable.byNumber?, List.findIdx?_eq_none_iff] using hn

/-- A label that is found by its number has a slot. -/
theorem slot?_of_byNumber? {t : LabelTable} {n : Nat} {l : Label} (hl : t.byNumber? n = some l) :
    ∃ s, t.slot? l = some s ∧ s.number = some n := by
  obtain ⟨i, hi, rfl⟩ := Option.map_eq_some_iff.mp hl
  obtain ⟨hlt, hs, -⟩ := List.findIdx?_eq_some_iff_getElem.mp hi
  exact ⟨t.slots[i], List.getElem?_eq_getElem hlt, by simpa using hs⟩

/-- Another label with a number of its own. -/
theorem Header.Declared.append {number : Nat} (hd : h.Declared ds) (hn : number < Word.limit32)
    (hfresh : number ∉ LabelTable.entryNumber :: ds.map (·.1)) (offset : Nat) :
    Header.Declared
      ⟨⟨h.labels.slots ++ [⟨some number, some offset, none⟩]⟩,
        h.pending ++ [(offset, ⟨h.labels.size⟩)]⟩ (ds ++ [(number, offset)]) := by
  have hsize : h.labels.size = ds.length + 1 := by
    simp [LabelTable.size, hd.slots, LabelTable.initial]
  refine ⟨?_, ?_, ?_, ?_⟩
  · simp [hd.slots, declaredSlot]
  · simp [hd.pending, hsize, List.zipIdx_append, Nat.add_comm]
  · rw [List.map_append, ← List.cons_append]
    exact List.Nodup.append hd.distinct (List.nodup_singleton _) (by simpa using hfresh)
  · intro d hmem
    rcases List.mem_append.mp hmem with hmem | hmem
    · exact hd.fits d hmem
    · exact List.mem_singleton.mp hmem ▸ hn

theorem Header.Declared.declare {number offset : Nat} (hd : h.Declared ds)
    (hn : number < Word.limit32) (he : h.declare number offset = .ok h') :
    ∃ ds', h'.Declared ds' := by
  unfold Header.declare at he
  split at he
  · cases he
  · next hentry =>
    split at he
    · split at he
      · split at he
        · cases he
          exact ⟨ds, hd⟩
        · cases he
      · cases he
    · next hnone =>
      cases he
      have hnew : number ∉ ds.map (·.1) := by
        intro hmem
        obtain ⟨d, hds, rfl⟩ := List.mem_map.mp hmem
        have hslot : declaredSlot d ∈ h.labels.slots := by
          rw [hd.slots]
          exact List.mem_append_right _ (List.mem_map_of_mem hds)
        exact byNumber?_eq_none hnone _ hslot rfl
      have hfresh : number ∉ LabelTable.entryNumber :: ds.map (·.1) :=
        fun hmem => (List.mem_cons.mp hmem).elim hentry hnew
      exact ⟨ds ++ [(number, offset)], hd.append hn hfresh offset⟩

theorem declare_flaw {number offset : Nat} {flaw : Flaw}
    (he : h.declare number offset = .error flaw) : flaw ≠ .overflow := by
  unfold Header.declare at he
  split at he
  · cases he; simp
  · split at he
    · split at he
      · split at he
        · cases he
        · cases he; simp
      · cases he; simp
    · cases he

/-- A line that declares a label. -/
def IsDeclaration (f : Frame) : Prop := Head.label.bytes.isPrefixOf f.payload

theorem readHeader_ok {fs body : List Frame} (hd : h.Declared ds)
    (hr : readHeader h fs = .ok (h', body)) :
    ∃ ds' header, h'.Declared ds' ∧ fs = header ++ body ∧ (∀ f ∈ header, IsDeclaration f) ∧
      ∀ f ∈ body.head?, ¬ IsDeclaration f := by
  induction fs generalizing h ds with
  | nil =>
    cases hr
    exact ⟨ds, [], hd, rfl, by simp, by simp⟩
  | cons f rest ih =>
    rw [readHeader] at hr
    split at hr
    · next hlabel =>
      have hline := decode_yields f.number f.payload
      cases hdec : Line.decode f.number f.payload with
      | error e => simp [hdec] at hr
      | ok l =>
        cases l with
        | label number offset =>
          rw [hdec] at hline
          simp only [hdec] at hr
          cases hde : h.declare number offset with
          | error flaw => simp [hde] at hr
          | ok h₁ =>
            simp only [hde] at hr
            obtain ⟨ds₁, hd₁⟩ := hd.declare hline.1 hde
            obtain ⟨ds', header, hd', hfs, hheader, hbody⟩ := ih hd₁ hr
            refine ⟨ds', f :: header, hd', by rw [hfs]; rfl, ?_, hbody⟩
            exact List.forall_mem_cons.mpr ⟨hlabel, hheader⟩
        | _ => simp [hdec] at hr
    · next hlabel =>
      cases hr
      exact ⟨ds, [], hd, rfl, by simp, by simpa [IsDeclaration] using hlabel⟩

theorem readHeader_flaw {fs : List Frame} {e : DecodeError} (hr : readHeader h fs = .error e) :
    e.flaw ≠ .overflow := by
  induction fs generalizing h with
  | nil => cases hr
  | cons f rest ih =>
    rw [readHeader] at hr
    split at hr
    · have hline := decode_yields f.number f.payload
      cases hdec : Line.decode f.number f.payload with
      | error e' =>
        rw [hdec] at hline
        simp only [hdec, Except.error.injEq] at hr
        exact hr ▸ hline.2
      | ok l =>
        cases l with
        | label number offset =>
          simp only [hdec] at hr
          cases hde : h.declare number offset with
          | error flaw =>
            simp only [hde, Except.error.injEq] at hr
            exact hr ▸ declare_flaw hde
          | ok h₁ =>
            simp only [hde] at hr
            exact ih hr
        | _ => simp only [hdec, Except.error.injEq] at hr; exact hr ▸ by simp
    · cases hr

/-- The labels of the table: the entry, and one for each declaration. -/
theorem Header.Declared.slot?_eq (hd : h.Declared ds) (l : Label) :
    h.labels.slot? l =
      if l = .entry then some ⟨some LabelTable.entryNumber, some 0, some 0⟩
      else ds[l.id - 1]?.map declaredSlot := by
  rw [LabelTable.slot?, hd.slots]
  obtain ⟨i⟩ := l
  cases i with
  | zero => rfl
  | succ i => simp [LabelTable.initial, Label.entry]

theorem Header.Declared.size (hd : h.Declared ds) : h.labels.size = ds.length + 1 := by
  simp [LabelTable.size, hd.slots, LabelTable.initial]

/-- A label waits for its place with the offset that it has been declared with. -/
theorem Header.Declared.mem_pending (hd : h.Declared ds) (k : Nat) (l : Label) :
    (k, l) ∈ h.pending ↔ l ≠ .entry ∧ h.labels.get .offset l = .ok k := by
  obtain ⟨i⟩ := l
  rw [hd.pending, LabelTable.get, hd.slot?_eq]
  cases i with
  | zero => simp [Label.entry, List.mem_zipIdx_iff_le_and_getElem?_sub]
  | succ i =>
    cases hi : ds[i]? with
    | none => simp [Label.entry, List.mem_zipIdx_iff_le_and_getElem?_sub, hi]
    | some d =>
      simp [Label.entry, List.mem_zipIdx_iff_le_and_getElem?_sub, hi, declaredSlot,
        LabelTable.Slot.get, eq_comm]

theorem Header.Declared.pending_nodup (hd : h.Declared ds) : (h.pending.map (·.2)).Nodup := by
  have hlabels : h.pending.map (·.2) = (List.range' 1 ds.length).map Label.mk := by
    rw [hd.pending, List.map_map, ← List.zipIdx_map_snd 1 ds, List.map_map]
    rfl
  have hrange : (List.range' 1 ds.length).Nodup := List.nodup_range'
  rw [hlabels]
  exact hrange.map fun _ _ h => congrArg Label.id h

theorem id_pos {l : Label} (he : l ≠ .entry) : 0 < l.id :=
  Nat.pos_of_ne_zero fun h => he (Label.ext h)

/-- The offset that a label other than the entry has been declared with. -/
theorem Header.Declared.exists_offset (hd : h.Declared ds) {l : Label} (he : l ≠ .entry)
    (hl : l.id < h.labels.size) : ∃ k, (k, l) ∈ h.pending := by
  have hlt : l.id - 1 < ds.length := by
    have := id_pos he
    rw [hd.size] at hl
    omega
  refine ⟨ds[l.id - 1].2, (hd.mem_pending _ l).mpr ⟨he, ?_⟩⟩
  rw [LabelTable.get, hd.slot?_eq, if_neg he, List.getElem?_eq_getElem hlt]
  rfl

theorem Header.Declared.id_lt (hd : h.Declared ds) {k : Nat} {l : Label} (hl : (k, l) ∈ h.pending) :
    l.id < h.labels.size := by
  obtain ⟨he, hget⟩ := (hd.mem_pending k l).mp hl
  rw [LabelTable.get] at hget
  cases hs : h.labels.slot? l with
  | none => simp [hs] at hget
  | some s => exact (List.getElem?_eq_some_iff.mp hs).1

/-- A label has a number or an offset exactly if it is the entry or has been declared. -/
theorem Header.Declared.get_number (hd : h.Declared ds) {l : Label} (he : l ≠ .entry) (n : Nat) :
    h.labels.get .number l = .ok n ↔ ∃ d, ds[l.id - 1]? = some d ∧ d.1 = n := by
  rw [LabelTable.get, hd.slot?_eq, if_neg he]
  cases ds[l.id - 1]? with
  | none => simp
  | some d => simp [declaredSlot, LabelTable.Slot.get]

/-- Labels have distinct numbers of 32 bits, the entry among them. -/
theorem Header.Declared.sized (hd : h.Declared ds) : h.labels.size ≤ Word.limit32 := by
  have hsub : LabelTable.entryNumber :: ds.map (·.1) ⊆ List.range Word.limit32 := by
    refine List.cons_subset.mpr ⟨List.mem_range.mpr (by decide), fun n hn => ?_⟩
    obtain ⟨d, hmem, rfl⟩ := List.mem_map.mp hn
    exact List.mem_range.mpr (hd.fits d hmem)
  have hlen := (List.Nodup.subperm hd.distinct hsub).length_le
  simpa [hd.size] using hlen

theorem Header.Declared.get_entry (hd : h.Declared ds) (n : Nat) :
    h.labels.get .number .entry = .ok n ↔ n = LabelTable.entryNumber := by
  rw [LabelTable.get, hd.slot?_eq, if_pos rfl]
  simp [LabelTable.Slot.get, eq_comm]

theorem Header.Declared.numbered (hd : h.Declared ds) {l : Label} (he : l ≠ .entry)
    (hl : l.id < h.labels.size) :
    ∃ n, h.labels.get .number l = .ok n ∧ n ≠ LabelTable.entryNumber := by
  have hlt : l.id - 1 < ds.length := by
    have := id_pos he
    rw [hd.size] at hl
    omega
  refine ⟨ds[l.id - 1].1, (hd.get_number he _).mpr ⟨_, List.getElem?_eq_getElem hlt, rfl⟩, ?_⟩
  intro heq
  have hmem : ds[l.id - 1].1 ∈ ds.map (·.1) := List.mem_map_of_mem (List.getElem_mem hlt)
  exact (List.nodup_cons.mp hd.distinct).1 (heq ▸ hmem)

theorem Header.Declared.get_distinct (hd : h.Declared ds) {l l' : Label} {n : Nat}
    (hl : h.labels.get .number l = .ok n) (hl' : h.labels.get .number l' = .ok n) : l = l' := by
  have hds := (List.nodup_cons.mp hd.distinct)
  -- a number that is declared is not that of the entry
  have other {m : Label} (he : m ≠ .entry) (hm : h.labels.get .number m = .ok n) :
      n ≠ LabelTable.entryNumber := by
    obtain ⟨d, hd', rfl⟩ := (hd.get_number he n).mp hm
    exact fun heq => hds.1 (heq ▸ List.mem_map_of_mem (List.mem_of_getElem? hd'))
  by_cases he : l = .entry
  · subst he
    have hn := (hd.get_entry n).mp hl
    by_contra hne
    exact other (Ne.symm hne) hl' hn
  · by_cases he' : l' = .entry
    · subst he'
      exact absurd ((hd.get_entry n).mp hl') (other he hl)
    · obtain ⟨d, hi, hn⟩ := (hd.get_number he n).mp hl
      obtain ⟨d', hj, hn'⟩ := (hd.get_number he' n).mp hl'
      have hsame : (ds.map (·.1))[l.id - 1]? = (ds.map (·.1))[l'.id - 1]? := by
        simp [hi, hj, hn, hn']
      have hlt : l.id - 1 < (ds.map (·.1)).length := by
        simpa using (List.getElem?_eq_some_iff.mp hi).1
      have hid := (List.getElem?_inj hlt hds.2).mp hsame
      have := id_pos he
      have := id_pos he'
      exact Label.ext (by omega)

/-- The labels of a header have a slot without an index, the entry its own. -/
theorem Header.Declared.fits_code (hd : h.Declared ds) {code : List Instruction}
    (hplaced : ∀ l ∈ placedLabels code, ∃ k, (k, l) ∈ h.pending) : h.labels.Fits code := by
  refine ⟨?_, fun l hl => ?_⟩
  · rw [LabelTable.get, hd.slot?_eq, if_pos rfl]
    rfl
  · obtain ⟨k, hk⟩ := hplaced l hl
    have he := ((hd.mem_pending k l).mp hk).1
    have hlt := hd.id_lt hk
    have hpos := id_pos he
    rw [hd.size] at hlt
    refine ⟨declaredSlot ds[l.id - 1], ?_, rfl⟩
    rw [hd.slot?_eq, if_neg he, List.getElem?_eq_getElem (by omega)]
    rfl

end ProgramFile

end Handheld
