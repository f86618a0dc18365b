import Handheld.Machine.Execute
import Handheld.Proofs.Text.Splice

namespace Handheld

namespace RecordFile

/-- The file of the records, its pointer on the one with the number. -/
def atRecord (records : List Text) (len i : Nat) : RecordFile := ⟨.join records, i * len, false⟩

/-- The file after a movement that found no record. -/
def stuck (f : RecordFile) : RecordFile := { f with eof := true }

theorem content_append (f : RecordFile) (data : Text) : (f.append data).content = f.content ++ data :=
  f.content.replace_length data

theorem seek_ite (f : RecordFile) (p : Nat) (c : Prop) [Decidable c] :
    f.seek (if c then some p else none) =
      if c then (true, { f with pointer := p, eof := false }) else (false, f.stuck) := by
  split <;> rfl

theorem previous_atRecord (records : List Text) (len i : Nat) :
    (atRecord records len (i + 1)).previous len = (true, atRecord records len i) := by
  have hplace : (i + 1) * len = i * len + len := Nat.succ_mul i len
  have hle : len ≤ (atRecord records len (i + 1)).pointer := by
    show len ≤ (i + 1) * len
    omega
  have hback : (atRecord records len (i + 1)).pointer - len = i * len := by
    show (i + 1) * len - len = i * len
    omega
  rw [previous, seek_ite, if_pos hle, hback]
  rfl

/-- Movements one after the other: what is read behind each of them and whether it succeeded, and the
file that is left. -/
inductive Passes (len : Nat) :
    RecordFile → List FilePosition → List (Text × Bool) → RecordFile → Prop where
  | nil (f : RecordFile) : Passes len f [] [] f
  | cons {f g last : RecordFile} {pos : FilePosition} {rest : List FilePosition} {ok : Bool}
      {record : Text} {shown : List (Text × Bool)}
      (hmoved : Machine.Act.moved f len pos = .ok (ok, g)) (hread : g.read len = .ok (some record))
      (hrest : Passes len g rest shown last) :
      Passes len f (pos :: rest) ((record, ok) :: shown) last

/-- Records of one length, none of them empty, that a file can hold together. -/
structure Uniform (records : List Text) (len : Nat) : Prop where
  pos : 0 < len
  length : ∀ r ∈ records, r.length = len
  size : records.length * len < Text.sizeLimit

namespace Uniform

variable {records : List Text} {len i : Nat} (h : Uniform records len)

include h

theorem length_join : (Text.join records).length = records.length * len :=
  Text.length_join h.length

/-- The records up to some number end in the file. -/
theorem le_length (hi : i ≤ records.length) : i * len ≤ (Text.join records).length := by
  rw [h.length_join]
  exact Nat.mul_le_mul_right len hi

theorem count_eq {f : RecordFile} (hf : f.content = .join records) : f.count len = records.length := by
  have hsize : f.size = records.length * len := by rw [RecordFile.size, hf, h.length_join]
  rw [count, if_neg (Nat.ne_of_gt h.pos), hsize, Nat.mul_div_cancel _ h.pos]

theorem read_atRecord (hi : i < records.length) :
    (atRecord records len i).read len = .ok (some records[i]) := by
  have hfits : i * len + len ≤ (Text.join records).length := by
    rw [← Nat.succ_mul]
    exact h.le_length hi
  show (if i * len + len ≤ (Text.join records).length then _ else _) = _
  rw [if_pos hfits]
  exact congrArg (fun t => Except.ok (some t)) (Text.slice_join h.length hi)

/-- A record is not longer than the file that holds it. -/
theorem len_lt (hi : i < records.length) : len < Text.sizeLimit := by
  have hle := h.le_length (show 1 ≤ records.length by omega)
  have hsize := h.size
  rw [h.length_join] at hle
  omega

theorem read_stuck (hi : i < records.length) (f : RecordFile) :
    f.stuck.read len = .ok (some (.spaces len)) := by
  have hcheck : Text.checkSize len = .ok len := Text.checkSize_eq_ok_iff.mpr ⟨h.len_lt hi, rfl⟩
  show (Text.checkSize len).map _ = _
  rw [hcheck]
  rfl

theorem next_atRecord (hi : i < records.length) :
    (atRecord records len i).next len = .ok
      (if i + 1 < records.length then (true, atRecord records len (i + 1))
      else (false, (atRecord records len i).stuck)) := by
  have hend : i * len + len ≤ records.length * len := by
    rw [← Nat.succ_mul, ← h.length_join]
    exact h.le_length hi
  have hcheck : Word.check (i * len + len) = .ok (i * len + len) := by
    have hsize := h.size
    change _ < 0x8000000000000000 at hsize
    refine Word.check_eq_ok_iff.mpr ⟨?_, rfl⟩
    show _ < 0x10000000000000000
    omega
  have hsize : (atRecord records len i).size = records.length * len := h.length_join
  have hplace : i * len + len = (i + 1) * len := (Nat.succ_mul i len).symm
  show (Word.check (i * len + len)).map _ = _
  rw [hcheck, hsize]
  by_cases hlast : i + 1 < records.length
  · have hfits : i * len + len + len ≤ records.length * len := by
      rw [hplace, ← Nat.succ_mul, ← h.length_join]
      exact h.le_length hlast
    simp only [Except.map]
    rw [seek_ite, if_pos hfits, if_pos hlast, hplace]
    rfl
  · have hover : ¬ i * len + len + len ≤ records.length * len := by
      have heq : records.length = i + 1 := by omega
      have hpos := h.pos
      rw [heq, Nat.succ_mul]
      omega
    simp only [Except.map]
    rw [seek_ite, if_neg hover, if_neg hlast]

theorem previous_first :
    (atRecord records len 0).previous len = (false, (atRecord records len 0).stuck) := by
  have hpos := h.pos
  have hnone : ¬ len ≤ (atRecord records len 0).pointer := by
    show ¬ len ≤ 0 * len
    omega
  rw [previous, seek_ite, if_neg hnone]

theorem top_eq {f : RecordFile} (hf : f.content = .join records) (hn : 0 < records.length) :
    f.top len = (true, atRecord records len 0) := by
  have hle : len ≤ f.size := by
    rw [RecordFile.size, hf]
    simpa using h.le_length hn
  rw [top, seek_ite, if_pos hle, atRecord, hf, Nat.zero_mul]

theorem bottom_eq {f : RecordFile} (hf : f.content = .join records) (hn : 0 < records.length) :
    f.bottom len = (true, atRecord records len (records.length - 1)) := by
  have hsize : f.size = records.length * len := by rw [RecordFile.size, hf, h.length_join]
  have hle : len ≤ f.size := by
    rw [RecordFile.size, hf]
    simpa using h.le_length hn
  have hlast : records.length * len - len = (records.length - 1) * len := by
    rw [Nat.sub_mul, Nat.one_mul]
  rw [bottom, seek_ite, if_pos hle, atRecord, hf, hsize, hlast]

/-- From a record on, every step forward shows the next one, until there is none. -/
theorem passes_next {k : Nat} (hk : i + k + 1 = records.length) :
    Passes len (atRecord records len i) (List.replicate (k + 1) .next)
      ((records.drop (i + 1)).map (·, true) ++ [(.spaces len, false)])
      (atRecord records len (records.length - 1)).stuck := by
  have hi : i < records.length := by omega
  have hmoved : Machine.Act.moved (atRecord records len i) len .next = _ := h.next_atRecord hi
  induction k generalizing i with
  | zero =>
    have hnone : records.drop (i + 1) = [] := List.drop_of_length_le (by omega)
    have hlast : records.length - 1 = i := by omega
    rw [if_neg (by omega)] at hmoved
    rw [hnone, hlast]
    exact .cons hmoved (h.read_stuck hi _) (.nil _)
  | succ k ih =>
    have hnext : i + 1 < records.length := by omega
    rw [if_pos hnext] at hmoved
    rw [List.drop_eq_getElem_cons hnext]
    exact .cons hmoved (h.read_atRecord hnext)
      (ih (by omega) hnext (h.next_atRecord hnext))

/-- From a record on, every step back shows the one before, until there is none. -/
theorem passes_previous (hi : i < records.length) :
    Passes len (atRecord records len i) (List.replicate (i + 1) .previous)
      ((records.take i).reverse.map (·, true) ++ [(.spaces len, false)])
      (atRecord records len 0).stuck := by
  induction i with
  | zero =>
    have hmoved : Machine.Act.moved (atRecord records len 0) len .previous = .ok _ :=
      congrArg Except.ok h.previous_first
    exact .cons hmoved (h.read_stuck hi _) (.nil _)
  | succ i ih =>
    have hbefore : i < records.length := by omega
    have hmoved : Machine.Act.moved (atRecord records len (i + 1)) len .previous = .ok _ :=
      congrArg Except.ok (previous_atRecord records len i)
    have htake : (records.take (i + 1)).reverse = records[i] :: (records.take i).reverse := by
      rw [List.take_succ_eq_append_getElem hbefore, List.reverse_append]
      rfl
    rw [htake]
    exact .cons hmoved (h.read_atRecord hbefore) (ih hbefore)

/-- All records in order, from wherever the pointer stands. -/
theorem passes_forward {f : RecordFile} (hf : f.content = .join records) (hn : 0 < records.length) :
    Passes len f (.top :: List.replicate records.length .next)
      (records.map (·, true) ++ [(.spaces len, false)])
      (atRecord records len (records.length - 1)).stuck := by
  obtain ⟨k, hk⟩ : ∃ k, records.length = k + 1 := ⟨_, (Nat.sub_add_cancel hn).symm⟩
  have hall : records = records[0] :: records.drop 1 := by
    simpa using List.drop_eq_getElem_cons hn
  have hrest := h.passes_next (show 0 + k + 1 = records.length by omega)
  rw [← hk] at hrest
  have hshown : records.map (·, true) = (records[0], true) :: (records.drop 1).map (·, true) :=
    congrArg (List.map (·, true)) hall
  rw [hshown]
  exact .cons (congrArg Except.ok (h.top_eq hf hn)) (h.read_atRecord hn) hrest

/-- All records in reverse, from wherever the pointer stands. -/
theorem passes_backward {f : RecordFile} (hf : f.content = .join records) (hn : 0 < records.length) :
    Passes len f (.bottom :: List.replicate records.length .previous)
      (records.reverse.map (·, true) ++ [(.spaces len, false)]) (atRecord records len 0).stuck := by
  have hlast : records.length - 1 < records.length := by omega
  have hrest := h.passes_previous hlast
  have hall : records.reverse =
      records[records.length - 1] :: (records.take (records.length - 1)).reverse := by
    have htake := List.take_succ_eq_append_getElem hlast
    rw [Nat.sub_add_cancel hn, List.take_length] at htake
    exact (congrArg List.reverse htake).trans List.reverse_append
  rw [Nat.sub_add_cancel hn] at hrest
  rw [hall]
  exact .cons (congrArg Except.ok (h.bottom_eq hf hn)) (h.read_atRecord hlast) hrest

end Uniform
end RecordFile
end Handheld
