import Handheld.Line.Reader
import Handheld.Proofs.Text.Utf8
import Mathlib.Data.List.Flatten
import Mathlib.Tactic.IntervalCases
import Mathlib.Tactic.Ring

namespace Handheld

namespace Decimal

variable {limit n m : Nat} {ds : List UInt8}

section Bounds

theorem digit?_lt {b : UInt8} {d : Nat} (h : digit? b = some d) : d < 10 := by
  unfold digit? at h
  split at h
  · next hb =>
    obtain rfl : b.toNat - 0x30 = d := Option.some.inj h
    have hle : b.toNat ≤ 0x39 := hb.2
    omega
  · cases h

theorem power_mono {a b : Nat} (h : a ≤ b) : power a ≤ power b :=
  Nat.pow_le_pow_right (by decide) h

/-- Every digit read makes the bound ten times as great. -/
theorem readFrom_lt (h : readFrom limit n ds = .ok m) : m < (n + 1) * power ds.length := by
  induction ds generalizing n with
  | nil =>
    obtain rfl : n = m := Except.ok.inj h
    simp [power]
  | cons b r ih =>
    rw [readFrom] at h
    cases hd : digit? b with
    | none => simp [hd] at h
    | some d =>
      simp only [hd] at h
      split at h
      · have hlt := digit?_lt hd
        calc m < (10 * n + d + 1) * power r.length := ih h
          _ ≤ 10 * (n + 1) * power r.length := Nat.mul_le_mul_right _ (by omega)
          _ = (n + 1) * power (b :: r).length := by
            rw [List.length_cons, power_succ]
            ring
      · cases h

theorem readFrom_le (hn : n ≤ limit) (h : readFrom limit n ds = .ok m) : m ≤ limit := by
  induction ds generalizing n with
  | nil => exact Except.ok.inj h ▸ hn
  | cons b r ih =>
    rw [readFrom] at h
    cases hd : digit? b with
    | none => simp [hd] at h
    | some d =>
      simp only [hd] at h
      split at h
      · next hle => exact ih hle h
      · cases h

theorem read_lt (h : read limit ds = .ok m) : m < power ds.length := by
  unfold read at h
  split at h
  · cases h
  · simpa using readFrom_lt h

theorem read_le (h : read limit ds = .ok m) : m ≤ limit := by
  unfold read at h
  split at h
  · cases h
  · exact readFrom_le (Nat.zero_le limit) h

theorem readUnsigned?_eq_some (h : readUnsigned? limit ds = some m) :
    ∃ r, r.length ≤ ds.length ∧ read limit r = .ok m := by
  unfold readUnsigned? at h
  split at h
  · next r => exact ⟨r, Nat.le_succ _, Except.toOption_eq_some.mp h⟩
  · exact ⟨ds, Nat.le_refl _, Except.toOption_eq_some.mp h⟩

theorem readUnsigned?_lt (h : readUnsigned? limit ds = some m) : m < power ds.length := by
  obtain ⟨r, hlen, hr⟩ := readUnsigned?_eq_some h
  exact Nat.lt_of_lt_of_le (read_lt hr) (power_mono hlen)

end Bounds

section ReadBack

theorem readFrom_append (limit n : Nat) (as bs : List UInt8) :
    readFrom limit n (as ++ bs) = (readFrom limit n as).bind fun m => readFrom limit m bs := by
  induction as generalizing n with
  | nil => rfl
  | cons b r ih =>
    simp only [List.cons_append, readFrom]
    split
    · rfl
    · split
      · exact ih _
      · rfl

theorem toNat_digit {d : Nat} (h : d < 10) : (digit d).toNat = 0x30 + d := by
  rw [digit, Nat.toUInt8, UInt8.toNat_ofNat']
  omega

theorem digit?_digit {d : Nat} (h : d < 10) : digit? (digit d) = some d := by
  have hd := toNat_digit h
  have hlow : 0x30 ≤ (digit d) := UInt8.le_iff_toNat_le.mpr (by rw [hd]; exact Nat.le_add_right _ _)
  have hhigh : (digit d) ≤ 0x39 := UInt8.le_iff_toNat_le.mpr (by rw [hd]; show 48 + d ≤ 57; omega)
  rw [digit?, if_pos ⟨hlow, hhigh⟩, hd, Nat.add_sub_cancel_left]

/-- Every byte of a numeral is one of the ten digits. -/
theorem exists_of_mem_padded {width : Nat} {b : UInt8} (h : b ∈ padded width n) :
    ∃ d < 10, b = digit d := by
  induction width generalizing n with
  | zero => cases h
  | succ width ih =>
    rw [padded_succ, List.mem_append, List.mem_singleton] at h
    cases h with
    | inl h => exact ih h
    | inr h => exact ⟨n % 10, Nat.mod_lt n (by decide), h⟩

/-- The written digits stand behind those of `k`. -/
theorem readFrom_padded {width k : Nat} (hn : n < power width) (hl : k * power width + n ≤ limit) :
    readFrom limit k (padded width n) = .ok (k * power width + n) := by
  induction width generalizing n with
  | zero =>
    obtain rfl : n = 0 := Nat.lt_one_iff.mp hn
    simp [padded_zero, readFrom, power]
  | succ width ih =>
    rw [power_succ] at hn hl
    have hdiv : n / 10 < power width := Nat.div_lt_of_lt_mul (Nat.mul_comm _ _ ▸ hn)
    have hmod : n % 10 < 10 := Nat.mod_lt n (by decide)
    have hsum : k * (power width * 10) + n = 10 * (k * power width + n / 10) + n % 10 := by
      calc k * (power width * 10) + n = k * (power width * 10) + (10 * (n / 10) + n % 10) := by
            rw [Nat.div_add_mod]
        _ = 10 * (k * power width + n / 10) + n % 10 := by ring
    have hfront := ih hdiv (by omega)
    rw [padded_succ, readFrom_append, hfront, power_succ, hsum]
    simp only [Except.bind, readFrom, digit?_digit hmod]
    rw [if_pos (hsum ▸ hl)]

theorem padded_ne_nil {width : Nat} (h : 0 < width) (n : Nat) : padded width n ≠ [] := by
  intro he
  have := length_padded width n
  simp only [he, List.length_nil] at this
  omega

theorem read_padded {width : Nat} (hw : 0 < width) (hn : n < power width) (hl : n ≤ limit) :
    read limit (padded width n) = .ok n := by
  have hnil := padded_ne_nil hw n
  rw [read, if_neg (by simpa using hnil), readFrom_padded hn (by simpa using hl), Nat.zero_mul,
    Nat.zero_add]

theorem readUnsigned?_padded {width : Nat} (hw : 0 < width) (hn : n < power width) (hl : n ≤ limit) :
    readUnsigned? limit (padded width n) = some n := by
  have hread := read_padded hw hn hl
  unfold readUnsigned?
  split
  · next ds he =>
    have hmem : 0x2B ∈ padded width n := he ▸ List.mem_cons_self
    obtain ⟨d, hd, hb⟩ := exists_of_mem_padded hmem
    have := congrArg UInt8.toNat hb
    rw [toNat_digit hd] at this
    change 43 = _ at this
    omega
  · rw [hread]
    rfl

end ReadBack

/-- A number stays below its own power of ten. -/
theorem lt_power_width (n : Nat) : n < power (width n) := by
  have go : ∀ fuel n, n ≤ fuel → n < power (width.go fuel n) := by
    intro fuel
    induction fuel with
    | zero => intro n hn; simp [width.go, power, Nat.le_zero.mp hn]
    | succ fuel ih =>
      intro n hn
      rw [width.go]
      split
      · next hlt => simpa [power] using hlt
      · have hdiv := ih (n / 10) (by omega)
        rw [power_succ]
        omega
  exact go n n (Nat.le_refl n)

theorem width_pos (n : Nat) : 0 < width n := by
  unfold width
  cases n with
  | zero => exact Nat.one_pos
  | succ n => rw [width.go]; split <;> exact Nat.succ_pos _

theorem read_bytes (h : n ≤ limit) : read limit (bytes n) = .ok n :=
  read_padded (width_pos n) (lt_power_width n) h

/-- Digits are ASCII. -/
theorem digit_lt {d : Nat} (h : d < 10) : digit d < 0x80 := by
  rw [UInt8.lt_iff_toNat_lt, toNat_digit h]
  show 48 + d < 128
  omega

theorem padded_lt {width : Nat} {b : UInt8} (h : b ∈ padded width n) : b < 0x80 := by
  obtain ⟨d, hd, rfl⟩ := exists_of_mem_padded h
  exact digit_lt hd

end Decimal

namespace Unicode

/-- A text without white space is not trimmed. -/
theorem trim_eq_self {cs : List Char} (h : ∀ c ∈ cs, isWhiteSpace c = false) : trim cs = cs := by
  have stays (ds : List Char) (hd : ∀ c ∈ ds, isWhiteSpace c = false) :
      ds.dropWhile isWhiteSpace = ds := by
    cases ds with
    | nil => rfl
    | cons d rest => simp [hd d List.mem_cons_self]
  rw [trim, stays cs h, stays cs.reverse fun c hc => h c (List.mem_reverse.mp hc),
    List.reverse_reverse]

theorem digit_not_whiteSpace {d : Nat} (h : d < 10) :
    isWhiteSpace (Char.ofNat (Decimal.digit d).toNat) = false := by
  rw [Decimal.toNat_digit h]
  interval_cases d <;> decide

end Unicode

namespace Line.Read

/-- A field of `raw.length` bytes yields a number with no more digits. -/
theorem parseInt?_lt {raw : List UInt8} {n : Nat} (h : parseInt? raw = some n) :
    n < Decimal.power raw.length := by
  obtain ⟨s, hs, hn⟩ := Option.bind_eq_some_iff.mp h
  have htrim := (Unicode.trim_sublist s.toList).flatMap Utf8.encodeChar
  have hlen := Nat.le_trans htrim.length_le (Utf8.length_encode_of_decode? hs)
  exact Nat.lt_of_lt_of_le (Decimal.readUnsigned?_lt hn) (Decimal.power_mono hlen)

/-- A field of digits reads back. -/
theorem parseInt?_padded {width n : Nat} (hw : 0 < width) (hn : n < Decimal.power width)
    (hl : n < Word.limit) : parseInt? (Decimal.padded width n) = some n := by
  have hascii : ∀ b ∈ Decimal.padded width n, b < 0x80 := fun b hb => Decimal.padded_lt hb
  have htrim : Unicode.trim (Utf8.characters (Decimal.padded width n)) =
      Utf8.characters (Decimal.padded width n) := by
    refine Unicode.trim_eq_self fun c hc => ?_
    obtain ⟨b, hb, rfl⟩ := List.mem_map.mp hc
    obtain ⟨d, hd, rfl⟩ := Decimal.exists_of_mem_padded hb
    exact Unicode.digit_not_whiteSpace hd
  simp only [parseInt?, Utf8.decode?_ascii hascii, Option.bind_some, String.toList_ofList, htrim,
    Utf8.encode_characters hascii]
  exact Decimal.readUnsigned?_padded hw hn (by omega)

end Line.Read

end Handheld
