import Handheld.Text.Basic
import Handheld.Unicode.Category
import Mathlib.Algebra.GroupWithZero.Nat

namespace Handheld.Utf8

variable {bs : List UInt8}

section Ascii

/-- The characters with the codes of the bytes. -/
def characters (bs : List UInt8) : List Char := bs.map fun b => Char.ofNat b.toNat

theorem lead?_ascii {b : UInt8} (h : b < 0x80) : lead? b = some ⟨0, 0, 0⟩ := by
  rw [lead?, if_pos h]

theorem units_ascii (h : ∀ b ∈ bs, b < 0x80) : units bs = (characters bs).map some := by
  induction bs with
  | nil => simp [units, characters]
  | cons b rest ih =>
    have hlead := lead?_ascii (h b List.mem_cons_self)
    have hrest := ih fun b' hb' => h b' (List.mem_cons_of_mem b hb')
    rw [units.eq_def]
    simp only [hlead, hrest]
    rfl

theorem lossy_ascii (h : ∀ b ∈ bs, b < 0x80) : lossy bs = String.ofList (characters bs) := by
  rw [lossy, units_ascii h, List.map_map]
  congr 1
  exact List.map_id _

theorem mapM_id_some (cs : List Char) : (cs.map some).mapM id = some cs := by
  induction cs with
  | nil => rfl
  | cons c rest ih => simp [List.mapM_cons, ih]

theorem decode?_ascii (h : ∀ b ∈ bs, b < 0x80) :
    decode? bs = some (String.ofList (characters bs)) := by
  rw [decode?, units_ascii h, mapM_id_some]
  rfl

theorem encodeChar_ascii {b : UInt8} (h : b < 0x80) : encodeChar (Char.ofNat b.toNat) = [b] := by
  have hb : b.toNat < 0x80 := h
  have hv : (Char.ofNat b.toNat).toNat = b.toNat := by
    rw [Char.ofNat, dif_pos (Or.inl (by omega))]
    rfl
  simp [encodeChar, hv, hb]

theorem encode_characters (h : ∀ b ∈ bs, b < 0x80) : (characters bs).flatMap encodeChar = bs := by
  induction bs with
  | nil => rfl
  | cons b rest ih =>
    have hrest := ih fun b' hb' => h b' (List.mem_cons_of_mem b hb')
    rw [characters, List.map_cons, List.flatMap_cons, encodeChar_ascii (h b List.mem_cons_self)]
    exact congrArg (b :: ·) hrest

end Ascii

section Size

/-- How many bytes a unit takes when it is written; a broken spot is not written. -/
def unitSize : Option Char → Nat
  | some c => (encodeChar c).length
  | none => 0

theorem toNat_ofNat_le (n : Nat) : (Char.ofNat n).toNat ≤ n := by
  by_cases h : n.isValidChar
  · rw [Char.ofNat, dif_pos h]
    exact Nat.le_of_eq rfl
  · rw [Char.ofNat, dif_neg h]
    exact Nat.zero_le n

theorem length_encodeChar_le_four (c : Char) : (encodeChar c).length ≤ 4 := by
  simp only [encodeChar]
  repeat' split
  all_goals simp

theorem length_encodeChar_le_three {c : Char} (h : c.toNat < 0x10000) :
    (encodeChar c).length ≤ 3 := by
  simp only [encodeChar, h, if_true]
  repeat' split
  all_goals simp

theorem length_encodeChar_le_two {c : Char} (h : c.toNat < 0x800) :
    (encodeChar c).length ≤ 2 := by
  simp only [encodeChar, h, if_true]
  repeat' split
  all_goals simp

theorem length_encodeChar_ascii {c : Char} (h : c.toNat < 0x80) : (encodeChar c).length = 1 := by
  simp [encodeChar, h]

theorem unitSize_char2 (a b : UInt8) : unitSize (some (char2 a b)) ≤ 2 := by
  refine length_encodeChar_le_two (Nat.lt_of_le_of_lt (toNat_ofNat_le _) ?_)
  simp only [tailBits]
  omega

theorem unitSize_char3 (a b c : UInt8) : unitSize (some (char3 a b c)) ≤ 3 := by
  refine length_encodeChar_le_three (Nat.lt_of_le_of_lt (toNat_ofNat_le _) ?_)
  simp only [tailBits]
  omega

theorem unitSize_ascii {a : UInt8} (h : a < 0x80) : unitSize (some (Char.ofNat a.toNat)) = 1 :=
  length_encodeChar_ascii (Nat.lt_of_le_of_lt (toNat_ofNat_le _) h)

/-- A byte that announces none to follow is ASCII. -/
theorem ascii_of_lead? {a : UInt8} {low high : UInt8} (h : lead? a = some ⟨0, low, high⟩) :
    a < 0x80 := by
  by_cases ha : a < 0x80
  · exact ha
  · rw [lead?, if_neg ha] at h
    repeat' split at h
    all_goals cases h

/-- A unit takes no more bytes than it was read from. -/
theorem sum_unitSize_le (bs : List UInt8) : ((units bs).map unitSize).sum ≤ bs.length := by
  fun_induction units bs with
  | case1 => simp
  | case3 a r low high h ih =>
    have ha := unitSize_ascii (ascii_of_lead? h)
    simp only [List.map_cons, List.sum_cons, List.length_cons]
    omega
  | case6 a low high b r _ _ ih =>
    have hc := unitSize_char2 a b
    simp only [List.map_cons, List.sum_cons, List.length_cons]
    omega
  | case9 a low high b _ c r _ _ _ ih =>
    have hc := unitSize_char3 a b c
    simp only [List.map_cons, List.sum_cons, List.length_cons]
    omega
  | case12 a n low high _ b _ _ c _ _ d r _ ih =>
    have hc : unitSize (some (char4 a b c d)) ≤ 4 := length_encodeChar_le_four _
    simp only [List.map_cons, List.sum_cons, List.length_cons]
    omega
  -- a broken spot
  | _ => simp only [List.map_cons, List.map_nil, List.sum_cons, List.sum_nil, List.length_cons,
      unitSize] at *; omega

theorem mapM_id_eq_some {us : List (Option Char)} {cs : List Char} (h : us.mapM id = some cs) :
    us = cs.map some := by
  induction us generalizing cs with
  | nil => simpa using h
  | cons u rest ih =>
    cases u with
    | none => simp [List.mapM_cons] at h
    | some c =>
      cases hr : rest.mapM id with
      | none => simp [List.mapM_cons, hr] at h
      | some ds =>
        obtain rfl : c :: ds = cs := by simpa [List.mapM_cons, hr] using h
        rw [ih hr]
        rfl

theorem length_flatMap_encodeChar (cs : List Char) :
    (cs.flatMap encodeChar).length = ((cs.map some).map unitSize).sum := by
  induction cs with
  | nil => rfl
  | cons c rest ih => simp [unitSize, ih]

theorem length_encode_of_decode? {s : String} (h : decode? bs = some s) :
    (encode s).length ≤ bs.length := by
  obtain ⟨cs, hcs, rfl⟩ := Option.map_eq_some_iff.mp h
  have hsum := sum_unitSize_le bs
  rw [mapM_id_eq_some hcs] at hsum
  rw [encode, String.toList_ofList, length_flatMap_encodeChar]
  exact hsum

end Size

end Handheld.Utf8

namespace Handheld.Unicode

theorem trim_sublist (cs : List Char) : (trim cs).Sublist cs := by
  have hfront := List.dropWhile_sublist isWhiteSpace (l := cs)
  have hback := List.dropWhile_sublist isWhiteSpace (l := (cs.dropWhile isWhiteSpace).reverse)
  exact (List.reverse_sublist.mpr hback).trans (List.reverse_reverse _ ▸ hfront)

end Handheld.Unicode
