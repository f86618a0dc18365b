import Handheld.Json.Basic

namespace Handheld.Json

/-- A numeral as written. -/
structure Numeral where
  negative : Bool
  whole : List Nat
  /-- The digits after the point, if there is one. -/
  places : Option (List Nat)
  /-- The sign and the digits of the exponent, if there is one. -/
  power : Option (Bool × List Nat)

namespace Numeral

def limit : Nat := Word.limit - 1

/-- Appends digits while the significand fits 64 bits; the rest is left over. -/
def collect (n : Nat) : List Nat → Nat × List Nat
  | [] => (n, [])
  | d :: r => if 10 * n + d ≤ limit then collect (10 * n + d) r else (n, d :: r)

/-- The greatest exponent read digit by digit. -/
def exponentLimit : Nat := 0x7FFFFFFF

def double (negative : Bool) (magnitude : Nat) : Double :=
  ⟨((if negative then 0x8000000000000000 else 0) + magnitude).toUInt64⟩

/-- The magnitude scaled by `10 ^ k`, `k` at most 308, up or down. -/
def scale (up : Bool) (magnitude k : Nat) : Nat :=
  let x := Binary.dyadic .double magnitude
  let p := Binary.dyadic .double (Binary.round .double (Decimal.power k) 1)
  if up then Binary.round .double (x.num * p.num) (x.den * p.den)
  else Binary.round .double (x.num * p.den) (x.den * p.num)

/-- Scales by `10 ^ e`; refused when the result is infinite. The first argument bounds the steps
down, of which three already reach zero. -/
def scaleBy : Nat → Nat → Int → Option Nat
  | fuel, magnitude, e =>
    if e.natAbs ≤ 308 then
      let r := scale (0 ≤ e) magnitude e.natAbs
      if r = Binary.Format.double.infinity then none else some r
    else if magnitude = 0 then some 0
    else if 0 ≤ e then none
    else match fuel with
      | 0 => some 0
      | fuel + 1 => scaleBy fuel (scale false magnitude 308) (e + 308)

def fraction (negative : Bool) (significand : Nat) (e : Int) : Option Number :=
  (scaleBy 4 (Binary.round .double significand 1) e).map fun m => .double (double negative m)

def ofDigits (ds : List Nat) : Nat := ds.foldl (fun n d => 10 * n + d) 0

def number? (l : Numeral) : Option Number :=
  let (n, left) := collect 0 l.whole
  let (m, placesUsed) := match l.places with
    | none => (n, 0)
    | some ds => let (m, extra) := collect n ds; (m, ds.length - extra.length)
  let e : Int := (left.length : Int) - placesUsed
  match l.power with
  | some (negativePower, ds) =>
    let p := ofDigits ds
    if exponentLimit < p then
      if m ≠ 0 ∧ !negativePower then none else some (.double (double l.negative 0))
    else fraction l.negative m (if negativePower then e - p else e + p)
  | none =>
    if l.places.isSome || !left.isEmpty then fraction l.negative m e
    else if !l.negative then some (.integer m)
    else if m = 0 ∨ 0x8000000000000000 < m then
      some (.double (double true (Binary.round .double m 1)))
    else some (.integer (-m))

end Numeral
end Handheld.Json
