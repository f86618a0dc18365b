import Handheld.Binary.Shortest
import Handheld.Decimal

namespace Handheld

/-- A double-precision number as its bit pattern. -/
structure Double where
  bits : UInt64
  deriving DecidableEq

/-- A single-precision number as its bit pattern. -/
@[ext] structure Single where
  bits : UInt32
  deriving DecidableEq

namespace Single

open Binary

def zero : Single := ⟨0⟩

def negative (x : Single) : Bool := 0x80000000 ≤ x.bits

/-- The pattern without the sign. -/
def magnitude (x : Single) : Nat := x.bits.toNat % 0x80000000

def isNaN (x : Single) : Bool := Format.single.infinity < x.magnitude

def isFinite (x : Single) : Bool := x.magnitude < Format.single.infinity

def ofParts (negative : Bool) (magnitude : Nat) : Single :=
  ⟨((if negative then 0x80000000 else 0) + magnitude).toUInt32⟩

def infinity (negative : Bool) : Single := ofParts negative Format.single.infinity

def nan (negative : Bool) : Single := ofParts negative 0x7FC00000

def ofInt (n : Int) : Single := ofParts (n < 0) (round .single n.natAbs 1)

/-- Rounded once more; what is not a number stays so. -/
def ofDouble (d : Double) : Single :=
  let negative := 0x8000000000000000 ≤ d.bits
  let m := d.bits.toNat % 0x8000000000000000
  if Format.double.infinity < m then nan negative
  else if m = Format.double.infinity then infinity negative
  else
    let x := dyadic .double m
    ofParts negative (round .single x.num x.den)

/-- The integer part of a finite number. -/
def truncate (x : Single) : Int :=
  let d := dyadic .single x.magnitude
  let q := d.num / d.den
  if x.negative then -(q : Int) else q

/-- Truncated, and clamped to 32 bits; zero for what is not a number. -/
def toInt32 (x : Single) : Int32 :=
  if x.isNaN then 0
  else if !x.isFinite then (if x.negative then Int32.minValue else Int32.maxValue)
  else Int32.ofInt (max (-0x80000000) (min 0x7FFFFFFF x.truncate))

/-- The total order of the patterns: by sign, then by magnitude, negative zero below zero. -/
def key (x : Single) : Int := if x.negative then -(x.magnitude : Int) - 1 else x.magnitude

def order (x y : Single) : Ordering := compare x.key y.key

/-- Digits with a point, never with an exponent. -/
def positional (s : Scientific) : List UInt8 :=
  let ds := Decimal.bytes s.digits
  if 0 ≤ s.e then ds ++ List.replicate s.e.toNat 0x30
  else
    let places := (-s.e).toNat
    if places < ds.length then ds.take (ds.length - places) ++ 0x2E :: ds.drop (ds.length - places)
    else 0x30 :: 0x2E :: List.replicate (places - ds.length) 0x30 ++ ds

/-- Whole numbers below ten millions keep one place after the point, so that they still read as
fractions; other finite numbers have their shortest digits, positional. -/
def bytes (x : Single) : List UInt8 :=
  let sign (ds : List UInt8) := if x.negative then 0x2D :: ds else ds
  if x.isNaN then [0x4E, 0x61, 0x4E]
  else if !x.isFinite then sign [0x69, 0x6E, 0x66]
  else
    let d := dyadic .single x.magnitude
    let whole := d.num / d.den
    if d.num % d.den = 0 ∧ whole < 10000000 then sign (Decimal.bytes whole ++ [0x2E, 0x30])
    else sign (positional (shortest .single .up x.magnitude))

/-- Maximal digits at the front, and what follows. -/
def takeDigits : List UInt8 → List Nat × List UInt8
  | [] => ([], [])
  | b :: r =>
    match Decimal.digit? b with
    | some d => let (ds, rest) := takeDigits r; (d :: ds, rest)
    | none => ([], b :: r)

def digitsValue (ds : List Nat) : Nat := ds.foldl (fun n d => 10 * n + d) 0

/-- An exponent mark with an optional sign and at least one digit, up to the end. -/
def exponent? : List UInt8 → Option Int
  | [] => some 0
  | mark :: r =>
    if mark ≠ 0x65 ∧ mark ≠ 0x45 then none
    else
      let (negative, r) := match r with
        | 0x2D :: s => (true, s)
        | 0x2B :: s => (false, s)
        | s => (false, s)
      let (ds, rest) := takeDigits r
      if ds.isEmpty ∨ !rest.isEmpty then none
      else some (if negative then -(digitsValue ds : Int) else digitsValue ds)

/-- The rounded magnitude of `m * 10 ^ e`, where `m` has at most `width` digits. Far outside the
range of the format the answer is known without computing the power. -/
def ofDecimal (m : Nat) (e : Int) (width : Nat) : Nat :=
  if m = 0 then 0
  else if 100 < e then Format.single.infinity
  else if e + width < -100 then 0
  else roundDecimal .single m e

def lower (b : UInt8) : UInt8 := if 0x41 ≤ b ∧ b ≤ 0x5A then b + 0x20 else b

def infinityNames : List (List UInt8) :=
  [[0x69, 0x6E, 0x66], [0x69, 0x6E, 0x66, 0x69, 0x6E, 0x69, 0x74, 0x79]]

def nanName : List UInt8 := [0x6E, 0x61, 0x6E]

/-- Digits with an optional point among or around them and an optional exponent, or the name of
infinity or of what is not a number in any case. -/
def magnitude? (bs : List UInt8) : Option Nat :=
  let (whole, r) := takeDigits bs
  let (places, r) := match r with
    | 0x2E :: s => takeDigits s
    | s => ([], s)
  if whole.isEmpty && places.isEmpty then
    if infinityNames.contains (bs.map lower) then some Format.single.infinity
    else if bs.map lower = nanName then some 0x7FC00000
    else none
  else (exponent? r).map fun e =>
    let ds := whole ++ places
    ofDecimal (digitsValue ds) (e - places.length) ds.length

def read? (bs : List UInt8) : Option Single :=
  let (negative, r) := match bs with
    | 0x2D :: s => (true, s)
    | 0x2B :: s => (false, s)
    | s => (false, s)
  (magnitude? r).map (ofParts negative)

end Single
end Handheld
