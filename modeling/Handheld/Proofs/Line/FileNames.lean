import Handheld.Proofs.Line.Fields

namespace Handheld

namespace Text

theorem length_trim_le (t : Text) : t.trim.length ≤ t.length := by
  have hfront := (List.dropWhile_sublist (· == fill) (l := t.bytes)).length_le
  have hback := (List.dropWhile_sublist (· == fill)
    (l := (t.bytes.dropWhile (· == fill)).reverse)).length_le
  rw [List.length_reverse] at hback
  rw [length, trim, List.length_reverse]
  exact Nat.le_trans hback hfront

end Text

namespace FileName

/-- A name that the field of a file name holds as it is: at most twelve bytes, without blanks at its
ends, and not spelled like a register that it could be mistaken for. -/
structure PlainName (name : Text) : Prop where
  fits : name.length ≤ Line.fileNameWidth
  trimmed : name.trim = name
  apart : ∀ i, name.lossy ≠ (Register.dat i).name

instance : DecidablePred PlainName := fun name =>
  decidable_of_iff
    (name.length ≤ Line.fileNameWidth ∧ name.trim = name ∧ ∀ i, name.lossy ≠ (Register.dat i).name)
    ⟨fun ⟨hf, ht, ha⟩ => ⟨hf, ht, ha⟩, fun h => ⟨h.fits, h.trimmed, h.apart⟩⟩

/-- A plain name, or a pooled text register. -/
def Plain : FileName → Prop
  | .literal name => PlainName name
  | .register r => ∃ i, r = .dat i

instance : DecidablePred Plain
  | .literal name => inferInstanceAs (Decidable (PlainName name))
  | .register r => inferInstanceAs (Decidable (∃ i, r = .dat i))

/-- A name with a line end among the bytes that the field has room for. -/
def Broken : FileName → Prop
  | .literal name => ∃ b ∈ name.bytes.take Line.fileNameWidth, b = 0x0D ∨ b = 0x0A
  | .register _ => False

/-- The text that stands for a file in a line. -/
def spelling : FileName → Text
  | .literal name => name
  | .register r => .ofString r.name

/-- The bytes of the field. -/
def inField (file : FileName) : Text := file.spelling.forceSize Line.fileNameWidth Text.fill

/-- The file that the bytes of a field stand for. -/
def ofField (raw : Text) : FileName :=
  match Register.ofName? raw.trim.lossy with
  | some r => if r.isPooled && r.kind = .text then .register r else .literal raw.trim
  | none => .literal raw.trim

/-- Of the registers that a name can spell, those of the text pool alone are meant. -/
theorem ofField_known {raw : Text} {r : Register} (h : Register.ofName? raw.trim.lossy = some r) :
    ofField raw = if ∃ i, r = .dat i then .register r else .literal raw.trim := by
  have hdat : (r.isPooled && r.kind = .text) = true ↔ ∃ i, r = .dat i := by
    rw [Bool.and_eq_true, decide_eq_true_eq]
    constructor
    · rintro ⟨hpooled, hkind⟩
      exact Register.eq_dat hpooled hkind
    · rintro ⟨i, rfl⟩
      exact ⟨rfl, rfl⟩
  rw [ofField, h]
  exact if_congr hdat rfl rfl

theorem ofField_dat {raw : Text} {i : Fin 10} (h : raw.trim.lossy = (Register.dat i).name) :
    ofField raw = .register (.dat i) := by
  have hdat : ∀ i, Register.ofName? (Register.dat i).name = some (.dat i) := by decide +kernel
  rw [ofField_known (h ▸ hdat i), if_pos ⟨i, rfl⟩]

theorem ofField_literal {raw : Text} (h : ∀ i, raw.trim.lossy ≠ (Register.dat i).name) :
    ofField raw = .literal raw.trim := by
  cases hr : Register.ofName? raw.trim.lossy with
  | none => rw [ofField, hr]
  | some r =>
    have hname : r.name = raw.trim.lossy := by simpa using List.find?_some hr
    have hother : ¬ ∃ i, r = .dat i := by
      rintro ⟨i, rfl⟩
      exact h i hname.symm
    rw [ofField_known hr, if_neg hother]

/-- A field holds a name exactly if the name is what is left of it without blanks, and no register. -/
theorem ofField_eq_literal {raw name : Text} :
    ofField raw = .literal name ↔ raw.trim = name ∧ ∀ i, name.lossy ≠ (Register.dat i).name := by
  constructor
  · intro h
    have hapart : ∀ i, raw.trim.lossy ≠ (Register.dat i).name := by
      intro i hi
      rw [ofField_dat hi] at h
      cases h
    rw [ofField_literal hapart] at h
    obtain rfl := literal.inj h
    exact ⟨rfl, hapart⟩
  · rintro ⟨rfl, hapart⟩
    exact ofField_literal hapart

/-- Its field holds a file name exactly if that is a plain one. -/
theorem ofField_inField (file : FileName) : ofField file.inField = file ↔ file.Plain := by
  cases file with
  | register r =>
    have hnamed := Line.register_named r
    have htrim : (inField (.register r)).trim = (Text.ofString r.name).trim :=
      Text.trim_forceSize (Nat.le_trans hnamed.fits (by decide))
    rw [ofField_known (htrim ▸ hnamed.known)]
    split
    · next hdat => exact iff_of_true rfl hdat
    · next hother => exact iff_of_false (by simp) hother
  | literal name =>
    rw [ofField_eq_literal]
    constructor
    · rintro ⟨hname, hapart⟩
      have hfits : name.length ≤ Line.fileNameWidth := by
        rw [← hname, ← Text.length_forceSize name Line.fileNameWidth Text.fill]
        exact Text.length_trim_le _
      have htrimmed : name.trim = name := by rwa [inField, spelling, Text.trim_forceSize hfits] at hname
      exact ⟨hfits, htrimmed, hapart⟩
    · intro h
      have hplain : PlainName name := h
      refine ⟨?_, hplain.apart⟩
      rw [inField, spelling, Text.trim_forceSize hplain.fits, hplain.trimmed]

end FileName

namespace Line

open Read

variable {file : FileName}

theorem length_inField (file : FileName) : file.inField.length = fileNameWidth :=
  Text.length_forceSize _ _ _

theorem fileName_append {raw : Text} (hraw : raw.length = fileNameWidth) (behind : List UInt8) :
    fileName (raw.bytes ++ behind) = (.ok (FileName.ofField raw), behind) := by
  rewrite [fileName, run_bind, text_append hraw]
  dsimp only
  rw [FileName.ofField]
  cases Register.ofName? raw.trim.lossy with
  | none => rfl
  | some r =>
    dsimp only
    split <;> rfl

/-- Only blanks are put behind a name, so that the line ends are those of the name. -/
theorem mem_inField {name : Text} {b : UInt8} (hb : b ≠ Text.fill) :
    b ∈ (FileName.literal name).inField.bytes ↔ b ∈ name.bytes.take fileNameWidth := by
  have hblank : b ∉ List.replicate (fileNameWidth - name.length) Text.fill := fun h =>
    hb (List.eq_of_mem_replicate h)
  exact List.mem_append.trans (or_iff_left hblank)

theorem encode_fileName_broken (h : file.Broken) :
    (Field.fileName (some file)).encode = .error (.lineBreak "file name") := by
  cases file with
  | register r => cases h
  | literal name =>
    obtain ⟨b, hmem, hb⟩ := h
    have hb' : b ≠ Text.fill := by
      rintro rfl
      exact absurd hb (by decide)
    have hbreak : ((FileName.literal name).inField.bytes.any fun b => b = 0x0D || b = 0x0A) = true :=
      List.any_eq_true.mpr ⟨b, (mem_inField hb').mpr hmem, by simpa using hb⟩
    exact if_pos hbreak

theorem encode_fileName (h : ¬ file.Broken) :
    (Field.fileName (some file)).encode = .ok file.inField.bytes := by
  cases file with
  | register r => rfl
  | literal name =>
    refine if_neg fun hbreak => h ?_
    obtain ⟨b, hmem, hb⟩ := List.any_eq_true.mp hbreak
    have hb' : b = 0x0D ∨ b = 0x0A := by simpa using hb
    refine ⟨b, (mem_inField ?_).mp hmem, hb'⟩
    rintro rfl
    exact absurd hb' (by decide)

/-- A file name is refused exactly for a line end. Any other one fills the twelve bytes of its field, and
a file name is read from them, which is the same one for plain names and the registers of the text pool
alone. -/
theorem fileName_read_back (file : FileName) :
    (file.Broken ∧ (Field.fileName (some file)).encode = .error (.lineBreak "file name")) ∨
      (¬ file.Broken ∧ ∃ bs read, (Field.fileName (some file)).encode = .ok bs ∧
        bs.length = fileNameWidth ∧ (∀ behind, fileName (bs ++ behind) = (.ok read, behind)) ∧
        (read = file ↔ file.Plain)) := by
  by_cases hbroken : file.Broken
  · exact .inl ⟨hbroken, encode_fileName_broken hbroken⟩
  · exact .inr ⟨hbroken, file.inField.bytes, .ofField file.inField, encode_fileName hbroken,
      length_inField file, fileName_append (length_inField file), file.ofField_inField⟩

/-- A name that is spelled like a register is written, and it is the register that is read. -/
theorem not_every_fileName_reads_back :
    ¬ ∀ file bs, (Field.fileName (some file)).encode = .ok bs → fileName bs = (.ok file, []) := by
  intro hall
  have hwritten := hall (.literal (.ofString "DAT3")) _ rfl
  have hread := fileName_append (length_inField (.literal (.ofString "DAT3"))) []
  rw [List.append_nil] at hread
  have hsame := Except.ok.inj (congrArg Prod.fst (hwritten.symm.trans hread))
  have hplain := (FileName.ofField_inField _).mp hsame.symm
  exact absurd hplain (by decide +kernel)

-- A name too long, a blank in front, and a register that the field cannot name.
example :
    let back (file : FileName) := FileName.ofField file.inField
    back (.literal (.ofString "CUSTOMER_MASTER")) = .literal (.ofString "CUSTOMER_MAS") ∧
      back (.literal (.ofString " LOG")) = .literal (.ofString "LOG") ∧
      back (.register (.int 0)) = .literal (.ofString "INT1") := by
  decide +kernel

theorem reads_fileName (h : file.Plain) : Reads fileName [.fileName (some file)] file := by
  refine .of_encode fun bs behind hb => ?_
  by_cases hbroken : file.Broken
  · rw [encode_fileName_broken hbroken] at hb
    cases hb
  · obtain rfl := Except.ok.inj ((encode_fileName hbroken).symm.trans hb)
    rw [fileName_append (length_inField file), file.ofField_inField.mpr h]

theorem reads_noFileName : Reads (skip fileNameWidth) [.fileName none] () := by
  refine .of_encode fun bs behind hb => ?_
  obtain rfl : blanks fileNameWidth = bs := Except.ok.inj hb
  rw [skip, run_bind, take_append (length_blanks _)]
  rfl

end Line
end Handheld
