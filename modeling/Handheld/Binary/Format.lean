namespace Handheld.Binary

/-- `precision` significant bits, `2 ^ leastExponent` as the spacing of the least magnitudes, and
the bit pattern of infinity. -/
structure Format where
  precision : Nat
  leastExponent : Int
  infinity : Nat

def Format.single : Format := ⟨24, -149, 0x7F800000⟩

def Format.double : Format := ⟨53, -1074, 0x7FF0000000000000⟩

/-- The least significand of full precision; the patterns of one exponent are so many. -/
def Format.unit (f : Format) : Nat := Nat.pow 2 (f.precision - 1)

/-- A quotient to the nearest integer, a half to the even neighbour. -/
def roundDiv (num den : Nat) : Nat :=
  let q := num / den
  let twice := 2 * (num % den)
  if twice < den then q else if den < twice then q + 1 else q + q % 2

/-- The quotient `num / den` in units of `2 ^ e`, as a fraction. -/
def scaled (num den : Nat) (e : Int) : Nat × Nat :=
  (num * Nat.pow 2 (-e).toNat, den * Nat.pow 2 e.toNat)

/-- The exponent of the last place of `num / den`, both positive. -/
def exponent (f : Format) (num den : Nat) : Int :=
  let e : Int := (Nat.log2 num : Int) - Nat.log2 den - f.precision
  let (n, d) := scaled num den e
  max f.leastExponent (if n / d < 2 * f.unit then e else e + 1)

/-- The pattern of the magnitude nearest to `num / den`, of two the one with even pattern; what
lies past the greatest finite magnitude is infinite. -/
def round (f : Format) (num den : Nat) : Nat :=
  if num = 0 then 0
  else
    let e := exponent f num den
    let (n, d) := scaled num den e
    min f.infinity ((e - f.leastExponent).toNat * f.unit + roundDiv n d)

/-- A finite magnitude as `m * 2 ^ e`. -/
structure Dyadic where
  m : Nat
  e : Int

def dyadic (f : Format) (pattern : Nat) : Dyadic :=
  let unit := f.unit
  if pattern < unit then ⟨pattern, f.leastExponent⟩
  else ⟨unit + pattern % unit, f.leastExponent + (pattern / unit - 1 : Nat)⟩

def Dyadic.num (x : Dyadic) : Nat := x.m * Nat.pow 2 x.e.toNat

def Dyadic.den (x : Dyadic) : Nat := Nat.pow 2 (-x.e).toNat

/-- Rounds `m * 10 ^ e`. -/
def roundDecimal (f : Format) (m : Nat) (e : Int) : Nat :=
  round f (m * Nat.pow 10 e.toNat) (Nat.pow 10 (-e).toNat)

end Handheld.Binary
