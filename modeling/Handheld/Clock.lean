import Handheld.Decimal
import Handheld.Register

namespace Handheld

@[ext] structure Clock where
  year : Int
  month : Nat
  day : Nat
  hour : Nat
  minute : Nat
  second : Nat
  deriving DecidableEq

namespace Clock

def two (n : Nat) : List UInt8 := Decimal.atLeast 2 n

/-- Four columns, of which a sign takes one. -/
def fourYear (y : Int) : List UInt8 :=
  if y < 0 then 0x2D :: Decimal.atLeast 3 y.natAbs else Decimal.atLeast 4 y.natAbs

def slash : List UInt8 := [0x2F]

def colon : List UInt8 := [0x3A]

/-- The thirteen date formats: year first, then day first, with and without slashes, in shorter and
shorter parts; the last has a year of two digits. -/
def date (t : Clock) (format : Fin 13) : Text :=
  let y := fourYear t.year
  let m := two t.month
  let d := two t.day
  ⟨match format with
  | 0 => y ++ slash ++ m ++ slash ++ d
  | 1 => y ++ m ++ d
  | 2 => y ++ slash ++ m
  | 3 => y ++ m
  | 4 => m ++ slash ++ d
  | 5 => m ++ d
  | 6 => d ++ slash ++ m ++ slash ++ y
  | 7 => d ++ m ++ y
  | 8 => m ++ slash ++ y
  | 9 => m ++ y
  | 10 => d ++ slash ++ m
  | 11 => d ++ m
  | 12 => two (t.year % 100).toNat ++ m ++ d⟩

/-- The four time formats: with and without seconds, with and without colons. -/
def time (t : Clock) (format : Fin 4) : Text :=
  ⟨match format with
  | 0 => two t.hour ++ colon ++ two t.minute ++ colon ++ two t.second
  | 1 => two t.hour ++ two t.minute ++ two t.second
  | 2 => two t.hour ++ colon ++ two t.minute
  | 3 => two t.hour ++ two t.minute⟩

end Clock
end Handheld
