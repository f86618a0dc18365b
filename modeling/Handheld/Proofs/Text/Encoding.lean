import Handheld.Proofs.Text.Utf8

namespace Handheld.Utf8

variable {a b c d low high : UInt8} {r : List UInt8}

section Reading

theorem units_two (ha : lead? a = some ⟨1, low, high⟩) (hlow : low ≤ b) (hhigh : b ≤ high) :
    units (a :: b :: r) = some (char2 a b) :: units r := by
  rw [units.eq_def]
  simp [ha, hlow, hhigh]

theorem units_three (ha : lead? a = some ⟨2, low, high⟩) (hlow : low ≤ b) (hhigh : b ≤ high)
    (hc : isTail c) : units (a :: b :: c :: r) = some (char3 a b c) :: units r := by
  rw [units.eq_def]
  simp [ha, hlow, hhigh, hc]

theorem units_four (ha : lead? a = some ⟨3, low, high⟩) (hlow : low ≤ b) (hhigh : b ≤ high)
    (hc : isTail c) (hd : isTail d) :
    units (a :: b :: c :: d :: r) = some (char4 a b c d) :: units r := by
  rw [units.eq_def]
  simp [ha, hlow, hhigh, hc, hd]

end Reading

section Leads

theorem lead?_two (hlow : 0xC2 ≤ a) (hhigh : a < 0xE0) : lead? a = some ⟨1, 0x80, 0xBF⟩ := by
  have hge (n : UInt8) (hn : n ≤ 0xC2) : ¬ a < n := UInt8.not_lt.mpr (UInt8.le_trans hn hlow)
  rw [lead?, if_neg (hge _ (by decide)), if_neg (hge _ (by decide)), if_pos hhigh]

theorem lead?_three (hlow : 0xE0 < a) (hhigh : a < 0xF0) (hnarrow : a ≠ 0xED) :
    lead? a = some ⟨2, 0x80, 0xBF⟩ := by
  have hge (n : UInt8) (hn : n ≤ 0xE0) : ¬ a < n :=
    UInt8.not_lt.mpr (UInt8.le_trans hn (UInt8.le_of_lt hlow))
  rw [lead?, if_neg (hge _ (by decide)), if_neg (hge _ (by decide)), if_neg (hge _ (by decide)),
    if_neg (UInt8.ne_of_lt hlow).symm, if_neg hnarrow, if_pos hhigh]

theorem lead?_four (hlow : 0xF0 < a) (hhigh : a < 0xF4) : lead? a = some ⟨3, 0x80, 0xBF⟩ := by
  have hge (n : UInt8) (hn : n ≤ 0xF0) : ¬ a < n :=
    UInt8.not_lt.mpr (UInt8.le_trans hn (UInt8.le_of_lt hlow))
  have hne (n : UInt8) (hn : n ≤ 0xF0) : a ≠ n := by
    rintro rfl
    exact UInt8.not_lt.mpr hn hlow
  rw [lead?, if_neg (hge _ (by decide)), if_neg (hge _ (by decide)), if_neg (hge _ (by decide)),
    if_neg (hne _ (by decide)), if_neg (hne _ (by decide)), if_neg (hge _ (by decide)),
    if_neg (hne _ (by decide)), if_pos hhigh]

end Leads

section Bytes

variable {n : Nat}

theorem toNat_toUInt8 (h : n < 0x100) : n.toUInt8.toNat = n := Nat.mod_eq_of_lt h

theorem le_toUInt8 (h : b.toNat ≤ n) (hn : n < 0x100) : b ≤ n.toUInt8 := by
  rw [UInt8.le_iff_toNat_le, toNat_toUInt8 hn]
  exact h

theorem toUInt8_le (h : n ≤ b.toNat) : n.toUInt8 ≤ b := by
  rw [UInt8.le_iff_toNat_le, toNat_toUInt8 (Nat.lt_of_le_of_lt h b.toNat_lt)]
  exact h

theorem lt_toUInt8 (h : b.toNat < n) (hn : n < 0x100) : b < n.toUInt8 := by
  rw [UInt8.lt_iff_toNat_lt, toNat_toUInt8 hn]
  exact h

theorem toUInt8_lt (h : n < b.toNat) : n.toUInt8 < b := by
  rw [UInt8.lt_iff_toNat_lt, toNat_toUInt8 (Nat.lt_trans h b.toNat_lt)]
  exact h

/-- A continuation byte holds six bits. -/
theorem tail_lt (n : Nat) : 0x80 + n % 64 < 0xC0 := by omega

theorem tailBits_tail (n : Nat) : tailBits (0x80 + n % 64).toUInt8 = n % 64 := by
  rw [tailBits, toNat_toUInt8 (Nat.lt_trans (tail_lt n) (by decide))]
  omega

theorem le_tail (n : Nat) : 0x80 ≤ (0x80 + n % 64).toUInt8 :=
  le_toUInt8 (Nat.le_add_right _ _) (Nat.lt_trans (tail_lt n) (by decide))

theorem tail_le (n : Nat) : (0x80 + n % 64).toUInt8 ≤ 0xBF := toUInt8_le (Nat.le_of_lt_succ (tail_lt n))

theorem isTail_tail (n : Nat) : isTail (0x80 + n % 64).toUInt8 := by
  rw [isTail, decide_eq_true (le_tail n), decide_eq_true (tail_le n)]
  rfl

end Bytes

section Characters

variable {ch : Char}

/-- A character is no surrogate. -/
theorem toNat_valid (ch : Char) : ch.toNat < 0xD800 ∨ 0xDFFF < ch.toNat ∧ ch.toNat < 0x110000 :=
  ch.valid

theorem units_ascii_append (h : ch.toNat < 0x80) (r : List UInt8) :
    units (encodeChar ch ++ r) = some ch :: units r := by
  have hbytes : encodeChar ch = [ch.toNat.toUInt8] := if_pos h
  have hvalue : ch.toNat.toUInt8.toNat = ch.toNat := toNat_toUInt8 (Nat.lt_trans h (by decide))
  have hlead : lead? ch.toNat.toUInt8 = some ⟨0, 0, 0⟩ :=
    lead?_ascii (toUInt8_lt h)
  rw [hbytes, List.singleton_append, units.eq_def]
  simp only [hlead, hvalue, Char.ofNat_toNat]

theorem units_two_append (hlow : 0x80 ≤ ch.toNat) (hhigh : ch.toNat < 0x800) (r : List UInt8) :
    units (encodeChar ch ++ r) = some ch :: units r := by
  have hbytes : encodeChar ch =
      [(0xC0 + ch.toNat / 64).toUInt8, (0x80 + ch.toNat % 64).toUInt8] := by
    simp only [encodeChar]
    rw [if_neg (Nat.not_lt.mpr hlow), if_pos hhigh]
  have hvalue : (0xC0 + ch.toNat / 64).toUInt8.toNat = 0xC0 + ch.toNat / 64 :=
    toNat_toUInt8 (by omega)
  have hlead : lead? (0xC0 + ch.toNat / 64).toUInt8 = some ⟨1, 0x80, 0xBF⟩ :=
    lead?_two (le_toUInt8 (show 0xC2 ≤ 0xC0 + ch.toNat / 64 by omega) (by omega))
      (toUInt8_lt (show 0xC0 + ch.toNat / 64 < 0xE0 by omega))
  have hchar : char2 (0xC0 + ch.toNat / 64).toUInt8 (0x80 + ch.toNat % 64).toUInt8 = ch := by
    have hsum : (0xC0 + ch.toNat / 64) % 32 * 64 + ch.toNat % 64 = ch.toNat := by omega
    rw [char2, hvalue, tailBits_tail, hsum, Char.ofNat_toNat]
  rw [hbytes, List.cons_append, List.singleton_append,
    units_two hlead (le_tail _) (tail_le _), hchar]

/-- The second byte stands in the range that the first announces, since no form is overlong and no
character a surrogate. -/
theorem lead?_of_three (hlow : 0x800 ≤ ch.toNat) (hhigh : ch.toNat < 0x10000) :
    ∃ low high, lead? (0xE0 + ch.toNat / 4096).toUInt8 = some ⟨2, low, high⟩ ∧
      low ≤ (0x80 + ch.toNat / 64 % 64).toUInt8 ∧ (0x80 + ch.toNat / 64 % 64).toUInt8 ≤ high := by
  have hvalid := toNat_valid ch
  by_cases hzero : ch.toNat / 4096 = 0
  · refine ⟨0xA0, 0xBF, by rw [hzero]; rfl, le_toUInt8 ?_ (by omega), tail_le _⟩
    show 0xA0 ≤ 0x80 + ch.toNat / 64 % 64
    omega
  by_cases hnarrow : ch.toNat / 4096 = 13
  · refine ⟨0x80, 0x9F, by rw [hnarrow]; rfl, le_tail _, toUInt8_le ?_⟩
    show 0x80 + ch.toNat / 64 % 64 ≤ 0x9F
    omega
  · have hne : (0xE0 + ch.toNat / 4096).toUInt8 ≠ 0xED := fun he => by
      have hvalue : 0xE0 + ch.toNat / 4096 = 0xED :=
        (toNat_toUInt8 (by omega)).symm.trans (congrArg UInt8.toNat he)
      omega
    exact ⟨0x80, 0xBF, lead?_three (lt_toUInt8 (show 0xE0 < 0xE0 + ch.toNat / 4096 by omega) (by omega))
      (toUInt8_lt (show 0xE0 + ch.toNat / 4096 < 0xF0 by omega)) hne, le_tail _, tail_le _⟩

theorem units_three_append (hlow : 0x800 ≤ ch.toNat) (hhigh : ch.toNat < 0x10000) (r : List UInt8) :
    units (encodeChar ch ++ r) = some ch :: units r := by
  have hbytes : encodeChar ch = [(0xE0 + ch.toNat / 4096).toUInt8,
      (0x80 + ch.toNat / 64 % 64).toUInt8, (0x80 + ch.toNat % 64).toUInt8] := by
    simp only [encodeChar]
    rw [if_neg (by omega), if_neg (Nat.not_lt.mpr hlow), if_pos hhigh]
  have hvalue : (0xE0 + ch.toNat / 4096).toUInt8.toNat = 0xE0 + ch.toNat / 4096 :=
    toNat_toUInt8 (by omega)
  obtain ⟨low, high, hlead, hb, hb'⟩ := lead?_of_three hlow hhigh
  have hchar : char3 (0xE0 + ch.toNat / 4096).toUInt8 (0x80 + ch.toNat / 64 % 64).toUInt8
      (0x80 + ch.toNat % 64).toUInt8 = ch := by
    have hsum : (0xE0 + ch.toNat / 4096) % 16 * 4096 + ch.toNat / 64 % 64 * 64 + ch.toNat % 64 =
        ch.toNat := by omega
    rw [char3, hvalue, tailBits_tail, tailBits_tail, hsum, Char.ofNat_toNat]
  rw [hbytes]
  simp only [List.cons_append, List.nil_append]
  rw [units_three hlead hb hb' (isTail_tail _), hchar]

theorem lead?_of_four (hlow : 0x10000 ≤ ch.toNat) :
    ∃ low high, lead? (0xF0 + ch.toNat / 262144).toUInt8 = some ⟨3, low, high⟩ ∧
      low ≤ (0x80 + ch.toNat / 4096 % 64).toUInt8 ∧ (0x80 + ch.toNat / 4096 % 64).toUInt8 ≤ high := by
  have hvalid := toNat_valid ch
  by_cases hzero : ch.toNat / 262144 = 0
  · refine ⟨0x90, 0xBF, by rw [hzero]; rfl, le_toUInt8 ?_ (by omega), tail_le _⟩
    show 0x90 ≤ 0x80 + ch.toNat / 4096 % 64
    omega
  by_cases hlast : ch.toNat / 262144 = 4
  · refine ⟨0x80, 0x8F, by rw [hlast]; rfl, le_tail _, toUInt8_le ?_⟩
    show 0x80 + ch.toNat / 4096 % 64 ≤ 0x8F
    omega
  · exact ⟨0x80, 0xBF, lead?_four (lt_toUInt8 (show 0xF0 < 0xF0 + ch.toNat / 262144 by omega) (by omega))
      (toUInt8_lt (show 0xF0 + ch.toNat / 262144 < 0xF4 by omega)), le_tail _, tail_le _⟩

theorem units_four_append (hlow : 0x10000 ≤ ch.toNat) (r : List UInt8) :
    units (encodeChar ch ++ r) = some ch :: units r := by
  have hvalid := toNat_valid ch
  have hbytes : encodeChar ch = [(0xF0 + ch.toNat / 262144).toUInt8,
      (0x80 + ch.toNat / 4096 % 64).toUInt8, (0x80 + ch.toNat / 64 % 64).toUInt8,
      (0x80 + ch.toNat % 64).toUInt8] := by
    simp only [encodeChar]
    rw [if_neg (by omega), if_neg (by omega), if_neg (Nat.not_lt.mpr hlow)]
  have hvalue : (0xF0 + ch.toNat / 262144).toUInt8.toNat = 0xF0 + ch.toNat / 262144 :=
    toNat_toUInt8 (by omega)
  obtain ⟨low, high, hlead, hb, hb'⟩ := lead?_of_four hlow
  have hchar : char4 (0xF0 + ch.toNat / 262144).toUInt8 (0x80 + ch.toNat / 4096 % 64).toUInt8
      (0x80 + ch.toNat / 64 % 64).toUInt8 (0x80 + ch.toNat % 64).toUInt8 = ch := by
    have hsum : (0xF0 + ch.toNat / 262144) % 8 * 262144 + ch.toNat / 4096 % 64 * 4096 +
        ch.toNat / 64 % 64 * 64 + ch.toNat % 64 = ch.toNat := by omega
    rw [char4, hvalue, tailBits_tail, tailBits_tail, tailBits_tail, hsum, Char.ofNat_toNat]
  rw [hbytes]
  simp only [List.cons_append, List.nil_append]
  rw [units_four hlead hb hb' (isTail_tail _) (isTail_tail _), hchar]

/-- A character is read from its bytes, whatever follows them. -/
theorem units_encodeChar_append (ch : Char) (r : List UInt8) :
    units (encodeChar ch ++ r) = some ch :: units r := by
  by_cases hone : ch.toNat < 0x80
  · exact units_ascii_append hone r
  by_cases htwo : ch.toNat < 0x800
  · exact units_two_append (Nat.le_of_not_lt hone) htwo r
  by_cases hthree : ch.toNat < 0x10000
  · exact units_three_append (Nat.le_of_not_lt htwo) hthree r
  · exact units_four_append (Nat.le_of_not_lt hthree) r

end Characters

theorem units_encode (s : String) : units (encode s) = s.toList.map some := by
  have hall (cs : List Char) : units (cs.flatMap encodeChar) = cs.map some := by
    induction cs with
    | nil => simp [units]
    | cons ch rest ih => rw [List.flatMap_cons, units_encodeChar_append, ih, List.map_cons]
  exact hall s.toList

/-- The bytes of a string have no broken spots. -/
theorem decode?_encode (s : String) : decode? (encode s) = some s := by
  rw [decode?, units_encode, mapM_id_some, Option.map_some, String.ofList_toList]

theorem lossy_encode (s : String) : lossy (encode s) = s := by
  rw [lossy, units_encode, List.map_map]
  exact (congrArg String.ofList (List.map_id _)).trans String.ofList_toList

end Handheld.Utf8
