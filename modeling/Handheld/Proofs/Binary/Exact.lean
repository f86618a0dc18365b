import Handheld.Binary.Single
import Mathlib.Algebra.Order.Field.Power
import Mathlib.Tactic.Linarith
import Mathlib.Tactic.NormNum
import Mathlib.Tactic.Positivity
import Mathlib.Tactic.Ring

namespace Handheld.Binary

variable {f : Format} {num den m : Nat} {e : Int}

section Values

theorem zpow_two (e : Int) : (2 : ℚ) ^ e = (Nat.pow 2 e.toNat : ℕ) / (Nat.pow 2 (-e).toNat : ℕ) := by
  simp only [Nat.pow_eq, Nat.cast_pow, Nat.cast_ofNat]
  rcases Int.le_total 0 e with h | h
  · obtain ⟨k, rfl⟩ := Int.eq_ofNat_of_zero_le h
    simp
  · obtain ⟨k, hk⟩ := Int.eq_ofNat_of_zero_le (Int.neg_nonneg_of_nonpos h)
    obtain rfl : e = -k := by omega
    simp

def Dyadic.value (x : Dyadic) : ℚ := x.m * 2 ^ x.e

theorem Dyadic.num_div_den (x : Dyadic) : (x.num : ℚ) / x.den = x.value := by
  rw [value, zpow_two, num, den, Nat.cast_mul, mul_div_assoc]

theorem Dyadic.den_pos (x : Dyadic) : 0 < x.den := Nat.two_pow_pos _

theorem unit_eq (f : Format) (hp : 0 < f.precision) : (2 * f.unit : ℚ) = 2 ^ (f.precision : Int) := by
  obtain ⟨k, hk⟩ := Nat.exists_eq_succ_of_ne_zero hp.ne'
  rw [zpow_natCast, Format.unit, hk, pow_succ, mul_comm]
  simp

/-- A quotient is scaled by division. -/
theorem scaled_lt_iff (hden : 0 < den) (e : Int) (k : Nat) :
    (scaled num den e).1 / (scaled num den e).2 < k ↔ (num : ℚ) / den < k * 2 ^ e := by
  have hd : 0 < den * Nat.pow 2 e.toNat := Nat.mul_pos hden (Nat.two_pow_pos _)
  have hdq : (0 : ℚ) < den := by exact_mod_cast hden
  have hdown : (0 : ℚ) < (Nat.pow 2 (-e).toNat : ℕ) := by exact_mod_cast Nat.two_pow_pos _
  rw [scaled, Nat.div_lt_iff_lt_mul hd, zpow_two, ← mul_div_assoc, div_lt_div_iff₀ hdq hdown]
  rw [← Nat.cast_lt (α := ℚ)]
  push_cast
  ring_nf

end Values

section Exponent

theorem lt_of_zpow_lt {a b : Int} (h : (2 : ℚ) ^ a < 2 ^ b) : a < b :=
  (zpow_lt_zpow_iff_right₀ (by norm_num)).mp h

theorem log2_bounds {n : Nat} (h : 0 < n) :
    (2 : ℚ) ^ (n.log2 : Int) ≤ n ∧ (n : ℚ) < 2 ^ (n.log2 + 1 : Int) := by
  have hlow := Nat.log2_self_le h.ne'
  have hhigh := Nat.lt_log2_self (n := n)
  constructor
  · rw [zpow_natCast]
    exact_mod_cast hlow
  · exact_mod_cast hhigh

/-- The leading bits of two numbers tell their quotient up to a factor of two. -/
theorem quotient_bounds (hnum : 0 < num) (hden : 0 < den) :
    (2 : ℚ) ^ (num.log2 - den.log2 - 1 : Int) < num / den ∧
      (num : ℚ) / den < 2 ^ (num.log2 - den.log2 + 1 : Int) := by
  obtain ⟨hn, hn'⟩ := log2_bounds hnum
  obtain ⟨hd, hd'⟩ := log2_bounds hden
  have hdq : (0 : ℚ) < den := by exact_mod_cast hden
  constructor
  · rw [lt_div_iff₀ hdq]
    calc (2 : ℚ) ^ (num.log2 - den.log2 - 1 : Int) * den
        < 2 ^ (num.log2 - den.log2 - 1 : Int) * 2 ^ (den.log2 + 1 : Int) :=
          mul_lt_mul_of_pos_left hd' (by positivity)
      _ = 2 ^ (num.log2 : Int) := by
          rw [← zpow_add₀ (by norm_num)]
          congr 1
          omega
      _ ≤ num := hn
  · rw [div_lt_iff₀ hdq]
    calc (num : ℚ) < 2 ^ (num.log2 + 1 : Int) := hn'
      _ = 2 ^ (num.log2 - den.log2 + 1 : Int) * 2 ^ (den.log2 : Int) := by
          rw [← zpow_add₀ (by norm_num)]
          congr 1
          omega
      _ ≤ 2 ^ (num.log2 - den.log2 + 1 : Int) * den := by gcongr

/-- The exponent puts the leading bit of a quotient at the front of the significand, unless it is the
least one. The estimate from the leading bits is at most one too small. -/
theorem exponent_eq (hnum : 0 < num) (hden : 0 < den) (hp : 0 < f.precision)
    (hlow : (2 : ℚ) ^ (e + f.precision - 1) ≤ num / den)
    (hhigh : (num : ℚ) / den < 2 ^ (e + f.precision)) :
    exponent f num den = max f.leastExponent e := by
  obtain ⟨hbelow, habove⟩ := quotient_bounds hnum hden
  have hfirst := lt_of_zpow_lt (lt_of_le_of_lt hlow habove)
  have hsecond := lt_of_zpow_lt (lt_trans hbelow hhigh)
  simp only [exponent, scaled_lt_iff hden]
  push_cast
  rw [unit_eq f hp, ← zpow_add₀ (by norm_num)]
  split
  · next h =>
    have hexact := lt_of_zpow_lt (lt_of_le_of_lt hlow h)
    congr 1
    omega
  · next h =>
    have hshort := lt_of_zpow_lt (lt_of_le_of_lt (le_of_not_gt h) hhigh)
    congr 1
    omega

end Exponent

section Exact

/-- A significand and an exponent as the format has them: of full precision, or with the least
exponent. -/
structure Normal (f : Format) (m : Nat) (e : Int) : Prop where
  short : m < 2 * f.unit
  least : f.leastExponent ≤ e
  full : f.unit ≤ m ∨ e = f.leastExponent

theorem pos_of_quotient (hm : 0 < m) (hden : 0 < den) (hq : (num : ℚ) / den = m * 2 ^ e) :
    0 < num := by
  have hmq : (0 : ℚ) < m := by exact_mod_cast hm
  have hdq : (0 : ℚ) < den := by exact_mod_cast hden
  have hpos : (0 : ℚ) < num / den := hq ▸ by positivity
  exact_mod_cast (div_pos_iff_of_pos_right hdq).mp hpos

theorem Normal.exponent_eq (h : Normal f m e) (hm : 0 < m) (hden : 0 < den) (hp : 0 < f.precision)
    (hq : (num : ℚ) / den = m * 2 ^ e) : exponent f num den = e := by
  obtain ⟨hlow, hhigh⟩ := log2_bounds hm
  have hfront : (2 : ℚ) ^ (e + m.log2 + 1 - f.precision + f.precision - 1) ≤ num / den := by
    rw [hq, show e + m.log2 + 1 - f.precision + f.precision - 1 = m.log2 + e by omega,
      zpow_add₀ (by norm_num)]
    gcongr
  have hbehind : (num : ℚ) / den < 2 ^ (e + m.log2 + 1 - f.precision + f.precision) := by
    rw [hq, show e + m.log2 + 1 - f.precision + f.precision = m.log2 + 1 + e by omega,
      zpow_add₀ (by norm_num)]
    gcongr
  have hleast := h.least
  have hunit : 2 * f.unit = 2 ^ f.precision := by exact_mod_cast unit_eq f hp
  have hlog : m.log2 < f.precision := (Nat.log2_lt hm.ne').mpr (hunit ▸ h.short)
  rw [Binary.exponent_eq (pos_of_quotient hm hden hq) hden hp hfront hbehind]
  rcases h.full with hfull | hleast'
  · have hlog' : 2 ^ f.precision < 2 ^ (m.log2 + 2) := by
      rw [← hunit, pow_succ, Nat.mul_comm]
      exact Nat.mul_lt_mul_of_pos_right (Nat.lt_of_le_of_lt hfull Nat.lt_log2_self) (by decide)
    have hprecision := (Nat.pow_lt_pow_iff_right (by decide)).mp hlog'
    omega
  · omega

/-- The pattern of a number of the format. -/
theorem Normal.round_eq (h : Normal f m e) (hm : 0 < m) (hden : 0 < den) (hp : 0 < f.precision)
    (hq : (num : ℚ) / den = m * 2 ^ e) :
    round f num den = min f.infinity ((e - f.leastExponent).toNat * f.unit + m) := by
  have hexponent := h.exponent_eq hm hden hp hq
  have hnum := pos_of_quotient hm hden hq
  have hdq : (den : ℚ) ≠ 0 := by exact_mod_cast hden.ne'
  -- scaled by the exponent, the quotient is the significand
  have hscaled : num * Nat.pow 2 (-e).toNat = m * (den * Nat.pow 2 e.toNat) := by
    rw [zpow_two, ← mul_div_assoc, div_eq_div_iff hdq (by simp)] at hq
    have hcross : num * Nat.pow 2 (-e).toNat = m * Nat.pow 2 e.toNat * den := by exact_mod_cast hq
    rw [hcross]
    ring
  have hpos : 0 < den * Nat.pow 2 e.toNat := Nat.mul_pos hden (Nat.two_pow_pos _)
  rw [round, if_neg hnum.ne']
  simp only [hexponent, scaled, hscaled, roundDiv, Nat.mul_div_cancel _ hpos, Nat.mul_mod_left]
  rw [if_pos (by omega)]

theorem dyadic_normal (hp : 0 < f.unit) (pattern : Nat) :
    Normal f (dyadic f pattern).m (dyadic f pattern).e := by
  simp only [dyadic]
  split
  · next h =>
    have hshort : f.unit ≤ 2 * f.unit := Nat.le_mul_of_pos_left _ (by decide)
    exact ⟨Nat.lt_of_lt_of_le h hshort, Int.le_refl _, .inr rfl⟩
  · have hmod := Nat.mod_lt pattern hp
    refine ⟨?_, Int.le_add_of_nonneg_right (Int.natCast_nonneg _), .inl (Nat.le_add_right _ _)⟩
    rw [Nat.two_mul]
    exact Nat.add_lt_add_left hmod f.unit

/-- A pattern is its significand behind as many patterns as the lesser exponents have. -/
theorem pattern_eq (hp : 0 < f.unit) (pattern : Nat) :
    ((dyadic f pattern).e - f.leastExponent).toNat * f.unit + (dyadic f pattern).m = pattern := by
  unfold dyadic
  dsimp only
  split
  · simp
  · next h =>
    have hdiv : 0 < pattern / f.unit := Nat.div_pos (Nat.le_of_not_lt h) hp
    have hplace : (f.leastExponent + (pattern / f.unit - 1 : Nat) - f.leastExponent).toNat =
        pattern / f.unit - 1 := by omega
    rw [hplace, ← Nat.add_assoc, ← Nat.succ_mul, Nat.succ_eq_add_one, Nat.sub_add_cancel hdiv,
      Nat.mul_comm]
    exact Nat.div_add_mod pattern f.unit

theorem Normal.dyadic_eq (h : Normal f m e) (hp : 0 < f.unit) (hfull : f.unit ≤ m) :
    dyadic f ((e - f.leastExponent).toNat * f.unit + m) = ⟨m, e⟩ := by
  obtain ⟨rest, rfl⟩ := Nat.exists_eq_add_of_le hfull
  have hshort := h.short
  have hleast := h.least
  have hrest : rest < f.unit := by omega
  have hsum : (e - f.leastExponent).toNat * f.unit + (f.unit + rest) =
      ((e - f.leastExponent).toNat + 1) * f.unit + rest := by ring
  have hdiv : (((e - f.leastExponent).toNat + 1) * f.unit + rest) / f.unit =
      (e - f.leastExponent).toNat + 1 := by
    rw [Nat.mul_comm, Nat.mul_add_div hp, Nat.div_eq_of_lt hrest, Nat.add_zero]
  have hmod : (((e - f.leastExponent).toNat + 1) * f.unit + rest) % f.unit = rest := by
    rw [Nat.mul_comm, Nat.mul_add_mod, Nat.mod_eq_of_lt hrest]
  have hplace : f.leastExponent + ((e - f.leastExponent).toNat : Int) = e := by omega
  have hlarge : ¬ ((e - f.leastExponent).toNat + 1) * f.unit + rest < f.unit := by
    rw [Nat.succ_mul]
    omega
  rw [hsum, dyadic, if_neg hlarge, hdiv, hmod, Nat.add_sub_cancel, hplace]

/-- A quotient that is a number of the format rounds to its pattern. -/
theorem round_dyadic {pattern : Nat} (hp : 0 < f.precision) (hpattern : pattern < f.infinity)
    (hden : 0 < den) (hq : (num : ℚ) / den = (dyadic f pattern).value) :
    round f num den = pattern := by
  have hunit : 0 < f.unit := Nat.two_pow_pos _
  have hback := pattern_eq hunit pattern
  by_cases hm : (dyadic f pattern).m = 0
  · have hleast := (dyadic_normal hunit pattern).full.resolve_left (by omega)
    obtain rfl : pattern = 0 := by
      rw [← hback, hm, hleast, Int.sub_self, Int.toNat_zero, Nat.zero_mul]
    have hdq : (den : ℚ) ≠ 0 := by exact_mod_cast hden.ne'
    rw [Dyadic.value, hm, Nat.cast_zero, zero_mul, div_eq_zero_iff, or_iff_left hdq] at hq
    rw [round, if_pos (by exact_mod_cast hq)]
  · rw [(dyadic_normal hunit pattern).round_eq (Nat.pos_of_ne_zero hm) hden hp hq, hback]
    exact Nat.min_eq_right (Nat.le_of_lt hpattern)

end Exact

section Widening

/-- The significand of a single, shifted to the precision of a double. -/
theorem Normal.widen (h : Normal .single m e) (hm : 0 < m) :
    Normal .double (m * 2 ^ (52 - m.log2)) (e - (52 - m.log2 : Nat)) ∧
      Format.double.unit ≤ m * 2 ^ (52 - m.log2) := by
  have hlog : m.log2 < 24 := (Nat.log2_lt hm.ne').mpr h.short
  have hsum : m.log2 + (52 - m.log2) = 52 := by omega
  have hfull : 2 ^ 52 ≤ m * 2 ^ (52 - m.log2) :=
    calc 2 ^ 52 = 2 ^ m.log2 * 2 ^ (52 - m.log2) := by rw [← pow_add, hsum]
      _ ≤ m * 2 ^ (52 - m.log2) := Nat.mul_le_mul_right _ (Nat.log2_self_le hm.ne')
  have hshort : m * 2 ^ (52 - m.log2) < 2 * 2 ^ 52 :=
    calc m * 2 ^ (52 - m.log2) < 2 ^ (m.log2 + 1) * 2 ^ (52 - m.log2) :=
          Nat.mul_lt_mul_of_pos_right Nat.lt_log2_self (Nat.two_pow_pos _)
      _ = 2 * 2 ^ 52 := by rw [pow_succ, mul_comm _ 2, mul_assoc, ← pow_add, hsum]
  have hleast : (-149 : Int) ≤ e := h.least
  exact ⟨⟨hshort, show (-1074 : Int) ≤ _ by omega, .inl hfull⟩, hfull⟩

/-- The double with the value of a finite single-precision magnitude. -/
theorem exists_wider {pattern : Nat} (h : pattern < Format.single.infinity) :
    ∃ wide, wide < Format.double.infinity ∧
      (dyadic .double wide).value = (dyadic .single pattern).value := by
  have hunit : 0 < Format.single.unit := Nat.two_pow_pos _
  have hnormal := dyadic_normal hunit pattern
  have hback := pattern_eq hunit pattern
  generalize dyadic .single pattern = x at hnormal hback ⊢
  obtain ⟨m, e⟩ := x
  by_cases hm : m = 0
  · refine ⟨0, by decide, ?_⟩
    subst hm
    simp [Dyadic.value, dyadic, Format.unit]
  obtain ⟨hwide, hfull⟩ := hnormal.widen (Nat.pos_of_ne_zero hm)
  refine ⟨_, ?_, congrArg Dyadic.value (hwide.dyadic_eq (Nat.two_pow_pos _) hfull) |>.trans ?_⟩
  · have hfew : (e - -149).toNat * 0x800000 + m = pattern := hback
    have hpattern : pattern < 0x7F800000 := h
    have hshort : m * 2 ^ (52 - m.log2) < 0x20000000000000 := hwide.short
    show (e - (52 - m.log2 : Nat) - -1074).toNat * 0x10000000000000 + m * 2 ^ (52 - m.log2) <
      0x7FF0000000000000
    omega
  · simp only [Dyadic.value, Nat.cast_mul, Nat.cast_pow, Nat.cast_ofNat]
    rw [mul_assoc, ← zpow_natCast, ← zpow_add₀ (by norm_num)]
    congr 2
    omega

end Widening
end Handheld.Binary

namespace Handheld.Single

open Binary

/-- The number as a double. -/
def toDouble (x : Single) : Double :=
  let d := dyadic .single x.magnitude
  ⟨((if x.negative then 0x8000000000000000 else 0) + round .double d.num d.den).toUInt64⟩

variable {x : Single}

theorem ofParts_self (x : Single) : ofParts x.negative x.magnitude = x := by
  have hbits : x.bits.toNat < 0x100000000 := x.bits.toNat_lt
  refine Single.ext (UInt32.toNat_inj.mp ?_)
  simp only [ofParts, negative, magnitude, UInt32.le_iff_toNat_le, Nat.toUInt32_eq,
    UInt32.toNat_ofNat', UInt32.reduceToNat, decide_eq_true_eq]
  split <;> omega

/-- The sign and the magnitude of a double. -/
theorem double_parts {negative : Bool} {pattern : Nat} {d : Double}
    (hpattern : pattern < 0x8000000000000000)
    (hd : d = ⟨((if negative then 0x8000000000000000 else 0) + pattern).toUInt64⟩) :
    decide (0x8000000000000000 ≤ d.bits) = negative ∧
      d.bits.toNat % 0x8000000000000000 = pattern := by
  have hbits : d.bits.toNat = (if negative then 0x8000000000000000 else 0) + pattern := by
    rw [hd]
    refine Nat.mod_eq_of_lt ?_
    split <;> omega
  simp only [UInt64.le_iff_toNat_le, hbits, UInt64.reduceToNat]
  cases negative <;> simp <;> omega

/-- A finite number is what it was after it has been a double. -/
theorem ofDouble_toDouble (h : x.isFinite) : ofDouble x.toDouble = x := by
  have hfinite : x.magnitude < Format.single.infinity := of_decide_eq_true h
  obtain ⟨wide, hwide, hvalue⟩ := exists_wider hfinite
  have hround : round .double (dyadic .single x.magnitude).num (dyadic .single x.magnitude).den =
      wide :=
    round_dyadic (by decide) hwide (Dyadic.den_pos _) (Dyadic.num_div_den _ |>.trans hvalue.symm)
  have hback : round .single (dyadic .double wide).num (dyadic .double wide).den = x.magnitude :=
    round_dyadic (by decide) hfinite (Dyadic.den_pos _) (Dyadic.num_div_den _ |>.trans hvalue)
  have hlimit : wide < 0x8000000000000000 := Nat.lt_trans hwide (by decide)
  obtain ⟨hsign, hmagnitude⟩ := double_parts (d := x.toDouble) hlimit (by rw [toDouble, hround])
  rw [ofDouble]
  simp only [hsign, hmagnitude]
  rw [if_neg (Nat.not_lt.mpr (Nat.le_of_lt hwide)), if_neg (Nat.ne_of_lt hwide), hback, ofParts_self]

end Handheld.Single
