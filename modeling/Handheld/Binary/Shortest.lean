import Handheld.Binary.Format

namespace Handheld.Binary

/-- `digits * 10 ^ e`. -/
structure Scientific where
  digits : Nat
  e : Int
  deriving DecidableEq

/-- Which of two equally near decimals is taken. -/
inductive Tie where
  | up
  | toEven
  deriving DecidableEq

/-- The open or closed interval of reals that round to a magnitude, scaled by `den`. -/
structure Interval where
  low : Nat
  value : Nat
  high : Nat
  den : Nat
  closed : Bool

/-- The ends lie halfway to the neighbours; below a power of two the lower one is twice as near.
They belong to the interval when the pattern is even. -/
def interval (f : Format) (pattern : Nat) : Interval :=
  let x := dyadic f pattern
  let unit := f.unit
  let below := if pattern % unit = 0 ∧ unit < pattern then 1 else 2
  let s := Nat.pow 2 x.e.toNat
  ⟨(4 * x.m - below) * s, 4 * x.m * s, (4 * x.m + 2) * s, 4 * x.den, pattern % 2 = 0⟩

def Interval.holds (i : Interval) (num den : Nat) : Bool :=
  let v := num * i.den
  if i.closed then i.low * den ≤ v && v ≤ i.high * den else i.low * den < v && v < i.high * den

/-- The least `k` with `num / den < 10 ^ k`, for a positive quotient. -/
def decimalExponent (num den : Nat) : Int :=
  let estimate := ((Nat.log2 num : Int) - Nat.log2 den - 1) * 30103 / 100000 - 1
  let fits (k : Int) : Bool := num * Nat.pow 10 (-k).toNat < den * Nat.pow 10 k.toNat
  (((List.range 6).map fun (i : Nat) => estimate + (i : Int)).find? fits).getD estimate

/-- The better neighbour of the value on the grid of multiples of `10 ^ e`, if one lies in the
interval. -/
def Interval.onGrid? (i : Interval) (tie : Tie) (e : Int) : Option Nat :=
  let up := Nat.pow 10 e.toNat
  let down := Nat.pow 10 (-e).toNat
  let num := i.value * down
  let den := i.den * up
  let c := num / den
  let rest := 2 * (num % den)
  let below := i.holds (c * up) down && 0 < c
  let above := i.holds ((c + 1) * up) down
  if below && above then
    if rest < den then some c
    else if den < rest then some (c + 1)
    else match tie with
      | .up => some (c + 1)
      | .toEven => some (c + c % 2)
  else if below then some c
  else if above then some (c + 1)
  else none

def stripZeros : Nat → Nat → Int → Scientific
  | 0, d, e => ⟨d, e⟩
  | fuel + 1, d, e =>
    if d ≠ 0 ∧ d % 10 = 0 then stripZeros fuel (d / 10) (e + 1) else ⟨d, e⟩

/-- For a positive finite magnitude; seventeen digits always suffice. -/
def shortest (f : Format) (tie : Tie) (pattern : Nat) : Scientific :=
  let i := interval f pattern
  let k := decimalExponent i.value i.den
  let candidates := (List.range 17).findSome? fun (n : Nat) =>
    let e := k - (n : Int) - 1
    (i.onGrid? tie e).map fun d => (d, e)
  match candidates with
  | some (d, e) => stripZeros 18 d e
  | none => ⟨0, 0⟩

end Handheld.Binary
