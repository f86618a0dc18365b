import Handheld.Text.Basic

namespace Handheld.Text

variable {t other old new mid a b piece : Text} {pos i n len : Nat} {byte : UInt8}

section Joined

theorem append_empty (t : Text) : t ++ empty = t := Text.ext (List.append_nil t.bytes)

/-- The texts one after the other. -/
def join (ts : List Text) : Text := ⟨ts.flatMap Text.bytes⟩

theorem length_join {ts : List Text} {len : Nat} (h : ∀ t ∈ ts, t.length = len) :
    (join ts).length = ts.length * len := by
  induction ts with
  | nil => simp [join, length]
  | cons t rest ih =>
    obtain ⟨ht, hrest⟩ := List.forall_mem_cons.mp h
    have hlen := ih hrest
    simp only [join, length, List.flatMap_cons, List.length_append, List.length_cons] at ht hlen ⊢
    rw [ht, hlen, Nat.succ_mul, Nat.add_comm]

/-- A part of the joined texts that lies where one of them was put is that one. -/
theorem slice_join {ts : List Text} {len i : Nat} (h : ∀ t ∈ ts, t.length = len) (hi : i < ts.length) :
    (join ts).slice (i * len) len = ts[i] := by
  induction ts generalizing i with
  | nil => cases hi
  | cons t rest ih =>
    obtain ⟨ht, hrest⟩ := List.forall_mem_cons.mp h
    change t.bytes.length = len at ht
    cases i with
    | zero =>
      have htake : (t.bytes ++ rest.flatMap Text.bytes).take len = t.bytes :=
        ht ▸ List.take_left
      simp [slice, join, htake]
    | succ i =>
      have hshift : (i + 1) * len = t.bytes.length + i * len := by
        rw [ht, Nat.succ_mul, Nat.add_comm]
      have hdrop : (t.bytes ++ rest.flatMap Text.bytes).drop ((i + 1) * len) =
          (rest.flatMap Text.bytes).drop (i * len) := by
        rw [hshift, List.drop_append]
        simp
      simpa [slice, join, hdrop] using ih hrest (Nat.lt_of_succ_lt_succ hi)

theorem append_join (content t : Text) (rest : List Text) :
    content ++ t ++ join rest = content ++ join (t :: rest) := by
  refine Text.ext ?_
  show content.bytes ++ t.bytes ++ _ = content.bytes ++ (t :: rest).flatMap Text.bytes
  rw [List.flatMap_cons, List.append_assoc]
  rfl

/-- Writing where a text ends puts the written text behind it. -/
theorem replace_length (t other : Text) : t.replace t.length other = t ++ other := by
  have hend : t.bytes.drop (t.length + other.length) = [] :=
    List.drop_of_length_le (Nat.le_add_right _ _)
  have hstart : (t.forceSize (max t.length t.length) fill).bytes.take t.length = t.bytes := by
    simp [forceSize, length]
  rw [replace, hend, hstart, List.append_nil]
  rfl

end Joined

section Bytes

theorem some_getD_of_lt (h : i < t.length) (byte : UInt8) :
    some ((t.bytes[i]?).getD byte) = t.bytes[i]? := by
  obtain ⟨b, hb⟩ : ∃ b, t.bytes[i]? = some b := ⟨_, List.getElem?_eq_getElem h⟩
  rw [hb, Option.getD_some]

theorem some_getD_of_le (h : t.length ≤ i) (byte : UInt8) :
    some ((t.bytes[i]?).getD byte) = some byte := by
  rw [List.getElem?_eq_none h, Option.getD_none]

theorem getElem?_slice (t : Text) (start len i : Nat) :
    (t.slice start len).bytes[i]? = if i < len then t.bytes[start + i]? else none := by
  rw [slice, List.getElem?_take, List.getElem?_drop]

theorem getElem?_forceSize (t : Text) (n : Nat) (byte : UInt8) (i : Nat) :
    (t.forceSize n byte).bytes[i]? = if i < n then some ((t.bytes[i]?).getD byte) else none := by
  have htake : (t.bytes.take n).length = min n t.length := List.length_take
  have hlength : t.length = t.bytes.length := rfl
  rw [forceSize]
  by_cases hin : i < n
  · rw [if_pos hin]
    by_cases hheld : i < t.length
    · rw [List.getElem?_append_left (by omega), List.getElem?_take_of_lt hin, some_getD_of_lt hheld]
    · rw [List.getElem?_append_right (by omega), List.getElem?_replicate, if_pos (by omega),
        some_getD_of_le (Nat.le_of_not_lt hheld)]
  · rw [if_neg hin, List.getElem?_eq_none]
    rw [List.length_append, List.length_replicate]
    omega

/-- A part that reaches past the end is the part up to the end. -/
theorem slice_min (t : Text) (start len : Nat) :
    t.slice start (min (t.length - start) len) = t.slice start len := by
  refine Text.ext ?_
  rw [slice, slice, Nat.min_comm, ← List.take_take]
  refine congrArg (List.take len) (List.take_of_length_le ?_)
  rw [List.length_drop]
  exact Nat.le_refl _

/-- Cutting a part out of a padded text pads the part. -/
theorem slice_forceSize (t : Text) (start len : Nat) (byte : UInt8) :
    (t.forceSize (start + len) byte).slice start len = (t.slice start len).forceSize len byte := by
  refine Text.ext (List.ext_getElem? fun i => ?_)
  rw [getElem?_slice, getElem?_forceSize, getElem?_forceSize, getElem?_slice]
  by_cases hin : i < len
  · rw [if_pos hin, if_pos hin, if_pos hin, if_pos (by omega)]
  · rw [if_neg hin, if_neg hin]

theorem getElem?_replace (t : Text) (pos : Nat) (other : Text) (i : Nat) :
    (t.replace pos other).bytes[i]? =
      if i < pos then some ((t.bytes[i]?).getD fill)
      else if i < pos + other.length then other.bytes[i - pos]?
      else t.bytes[i]? := by
  have hgrown := length_forceSize t (max t.length pos) fill
  have hstart : ((t.forceSize (max t.length pos) fill).bytes.take pos).length = pos :=
    List.length_take_of_le (by rw [length] at hgrown; omega)
  have hother : other.length = other.bytes.length := rfl
  rw [replace, List.append_assoc]
  by_cases hbefore : i < pos
  · rw [if_pos hbefore, List.getElem?_append_left (by omega), List.getElem?_take_of_lt hbefore,
      getElem?_forceSize, if_pos (by omega)]
  · rw [if_neg hbefore, List.getElem?_append_right (by omega), hstart]
    by_cases hin : i < pos + other.length
    · rw [if_pos hin, List.getElem?_append_left (by omega)]
    · rw [if_neg hin, List.getElem?_append_right (by omega), List.getElem?_drop]
      congr 1
      omega

/-- Bytes that replace others within a text. -/
theorem getElem?_replace_within (h : pos + other.length ≤ t.length) (i : Nat) :
    (t.replace pos other).bytes[i]? =
      if pos ≤ i ∧ i < pos + other.length then other.bytes[i - pos]? else t.bytes[i]? := by
  rw [getElem?_replace]
  by_cases hbefore : i < pos
  · rw [if_pos hbefore, if_neg (by omega), some_getD_of_lt (by omega)]
  · rw [if_neg hbefore]
    by_cases hin : i < pos + other.length
    · rw [if_pos hin, if_pos ⟨by omega, hin⟩]
    · rw [if_neg hin, if_neg fun hboth => hin hboth.2]

end Bytes

section Splice

/-- A text in which a piece has been written over an old one: nothing is cut off, the piece stands at its
place, the other bytes are the old ones, and what was no part of the old text is blank. -/
structure Spliced (old : Text) (pos : Nat) (piece new : Text) : Prop where
  length : new.length = max old.length (pos + piece.length)
  written : ∀ i < piece.length, new.bytes[pos + i]? = piece.bytes[i]?
  kept : ∀ i < old.length, i < pos ∨ pos + piece.length ≤ i → new.bytes[i]? = old.bytes[i]?
  blank : ∀ i < new.length, old.length ≤ i → i < pos ∨ pos + piece.length ≤ i → new.bytes[i]? = some fill

theorem spliced_replace (old : Text) (pos : Nat) (piece : Text) :
    Spliced old pos piece (old.replace pos piece) := by
  refine ⟨length_replace old pos piece, fun i hi => ?_, fun i hi hout => ?_, fun i hi hnew hout => ?_⟩
  · rw [getElem?_replace, if_neg (by omega), if_pos (by omega), Nat.add_sub_cancel_left]
  · rw [getElem?_replace]
    by_cases hbefore : i < pos
    · rw [if_pos hbefore, some_getD_of_lt hi]
    · rw [if_neg hbefore, if_neg (by omega)]
  · rw [length_replace] at hi
    rw [getElem?_replace, if_pos (by omega), some_getD_of_le hnew]

/-- There is one such text. -/
theorem Spliced.unique (ha : Spliced old pos piece a) (hb : Spliced old pos piece b) : a = b := by
  have hlength : a.length = b.length := ha.length.trans hb.length.symm
  refine Text.ext (List.ext_getElem? fun i => ?_)
  by_cases hend : a.length ≤ i
  · rw [List.getElem?_eq_none hend, List.getElem?_eq_none (Nat.le_trans (Nat.le_of_eq hlength.symm) hend)]
  have hi : i < a.length := Nat.lt_of_not_le hend
  by_cases hin : pos ≤ i ∧ i < pos + piece.length
  · obtain ⟨k, rfl⟩ := Nat.exists_eq_add_of_le hin.1
    have hk : k < piece.length := by omega
    rw [ha.written k hk, hb.written k hk]
  · have hout : i < pos ∨ pos + piece.length ≤ i := by omega
    by_cases hold : i < old.length
    · rw [ha.kept i hold hout, hb.kept i hold hout]
    · have hnew : old.length ≤ i := Nat.le_of_not_lt hold
      rw [ha.blank i hi hnew hout, hb.blank i (hlength ▸ hi) hnew hout]

/-- A second piece behind the first. -/
theorem Spliced.behind (ha : Spliced old pos a mid) (hb : Spliced mid (pos + a.length) b new) :
    Spliced old pos (a ++ b) new := by
  have hmid := ha.length
  have hnew := hb.length
  have happend : (a ++ b).length = a.length + b.length := List.length_append
  refine ⟨by omega, fun i hi => ?_, fun i hi hout => ?_, fun i hi hblank hout => ?_⟩
  · show new.bytes[pos + i]? = (a.bytes ++ b.bytes)[i]?
    by_cases hfirst : i < a.length
    · rw [hb.kept (pos + i) (by omega) (by omega), ha.written i hfirst, List.getElem?_append_left hfirst]
    · have hsecond := hb.written (i - a.length) (by omega)
      rw [show pos + a.length + (i - a.length) = pos + i by omega] at hsecond
      rw [hsecond, List.getElem?_append_right (Nat.le_of_not_lt hfirst)]
      rfl
  · rw [hb.kept i (by omega) (by omega), ha.kept i hi (by omega)]
  · by_cases hin : i < mid.length
    · rw [hb.kept i hin (by omega), ha.blank i hin hblank (by omega)]
    · exact hb.blank i hi (Nat.le_of_not_lt hin) (by omega)

/-- The text grown with blanks to a length that it has not reached. -/
def grown (t : Text) (n : Nat) : Text := if t.length < n then t.forceSize n fill else t

theorem length_grown (t : Text) (n : Nat) : (t.grown n).length = max t.length n := by
  unfold grown
  split
  · rw [length_forceSize]
    omega
  · omega

theorem getElem?_grown (hi : i < (t.grown n).length) :
    (t.grown n).bytes[i]? = some ((t.bytes[i]?).getD fill) := by
  rw [length_grown] at hi
  unfold grown
  split
  · rw [getElem?_forceSize, if_pos (by omega)]
  · exact (some_getD_of_lt (by omega) fill).symm

/-- Growing beforehand, no further than the piece reaches, makes no difference. -/
theorem Spliced.of_grown (h : Spliced (old.grown n) pos piece new) (hn : n ≤ pos + piece.length) :
    Spliced old pos piece new := by
  have hgrown := length_grown old n
  have hnew := h.length
  refine ⟨by omega, h.written, fun i hi hout => ?_, fun i hi hblank hout => ?_⟩
  · rw [h.kept i (by omega) hout, getElem?_grown (by omega), some_getD_of_lt hi]
  · by_cases hin : i < (old.grown n).length
    · rw [h.kept i hin hout, getElem?_grown hin, some_getD_of_le hblank]
    · exact h.blank i hi (Nat.le_of_not_lt hin) hout

theorem replace_grown (h : n ≤ pos + piece.length) :
    (old.grown n).replace pos piece = old.replace pos piece := by
  have hgrown := (spliced_replace (old.grown n) pos piece).of_grown h
  exact hgrown.unique (spliced_replace old pos piece)

end Splice

section Checked

theorem forced_eq (h : n < sizeLimit) : t.forced n = .ok (t.forceSize n fill) := by
  rw [forced, checkSize_eq_ok_iff.mpr ⟨h, rfl⟩]
  rfl

theorem forced_overflow (h : sizeLimit ≤ n) : t.forced n = .error .overflow := by
  rw [forced, checkSize, if_neg (Nat.not_lt.mpr h)]
  rfl

theorem joined_eq (h : t.length + other.length < sizeLimit) : t.joined other = .ok (t ++ other) := by
  rw [joined, checkSize_eq_ok_iff.mpr ⟨h, rfl⟩]
  rfl

theorem joined_overflow (h : sizeLimit ≤ t.length + other.length) :
    t.joined other = .error .overflow := by
  rw [joined, checkSize, if_neg (Nat.not_lt.mpr h)]
  rfl

theorem grow_eq (h : n < sizeLimit) : t.grow n = .ok (t.grown n) := by
  have hword : Word.check n = .ok n := Word.check_eq_ok_iff.mpr ⟨Nat.lt_trans h (by decide), rfl⟩
  show (Word.check n).bind _ = _
  rw [hword, grown]
  show (if t.length < n then t.forced n else .ok t) = _
  split
  · exact forced_eq h
  · rfl

/-- No text can grow to a size that none has. -/
theorem grow_overflow (ht : t.length < sizeLimit) (h : sizeLimit ≤ n) : t.grow n = .error .overflow := by
  show (Word.check n).bind _ = _
  unfold Word.check
  split
  · show (if t.length < n then t.forced n else .ok t) = _
    rw [if_pos (Nat.lt_of_lt_of_le ht h), forced_overflow h]
  · rfl

theorem overwrite_eq (h : pos + piece.length < sizeLimit) :
    t.overwrite pos piece = .ok (t.replace pos piece) := by
  rw [overwrite, grow_eq h]
  show Except.ok ((t.grown (pos + piece.length)).replace pos piece) = _
  rw [replace_grown (Nat.le_refl _)]

theorem length_join_cons (piece : Text) (rest : List Text) :
    (join (piece :: rest)).length = piece.length + (join rest).length := by
  simp [join, length]

theorem lengths_eq (pieces : List Text) : lengths pieces = (join pieces).length := by
  induction pieces with
  | nil => rfl
  | cons piece rest ih => rw [lengths, ih, length_join_cons]

/-- The pieces end where all of them joined do. -/
theorem grow_pieces (t : Text) {pieces : List Text} (h : pos + (join pieces).length < sizeLimit) :
    t.grow (pos + lengths pieces) = .ok (t.grown (pos + (join pieces).length)) := by
  rw [lengths_eq]
  exact grow_eq h

/-- By induction on the pieces: each is written behind the one before it. -/
theorem overwriteEach_splices (hpos : pos ≤ t.length) (pieces : List Text)
    (h : pos + (join pieces).length < sizeLimit) :
    ∃ new, t.overwriteEach pos pieces = .ok new ∧ Spliced t pos (join pieces) new := by
  induction pieces generalizing t pos with
  | nil =>
    refine ⟨t, rfl, ?_, nofun, fun _ _ _ => rfl, fun i hi hout _ => ?_⟩
    · show t.length = max t.length (pos + 0)
      omega
    · exact absurd hi (Nat.not_lt.mpr hout)
  | cons piece rest ih =>
    rw [length_join_cons] at h
    have hreached : pos + piece.length ≤ (t.replace pos piece).length := by
      rw [length_replace]
      exact Nat.le_max_right _ _
    obtain ⟨new, hrest, hspliced⟩ := ih hreached (by omega)
    refine ⟨new, ?_, (spliced_replace t pos piece).behind hspliced⟩
    show (t.overwrite pos piece).bind (·.overwriteEach (pos + piece.length) rest) = .ok new
    rw [overwrite_eq (by omega)]
    exact hrest

/-- Growing to the end of the last piece and writing one piece behind the other is writing all of them
joined. -/
theorem overwriteEach_grown (t : Text) (pos : Nat) (pieces : List Text)
    (h : pos + (join pieces).length < sizeLimit) :
    (t.grown (pos + (join pieces).length)).overwriteEach pos pieces =
      .ok (t.replace pos (join pieces)) := by
  have hreached : pos ≤ (t.grown (pos + (join pieces).length)).length := by
    rw [length_grown]
    omega
  obtain ⟨new, hwritten, hspliced⟩ := overwriteEach_splices hreached pieces h
  have hgrown := hspliced.of_grown (Nat.le_refl _)
  rw [hwritten, hgrown.unique (spliced_replace t pos (join pieces))]

end Checked

end Handheld.Text
