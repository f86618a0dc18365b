import Handheld.Text.Basic

theorem Except.toOption_eq_some {ε α : Type} {r : Except ε α} {a : α} :
    r.toOption = some a ↔ r = .ok a := by
  cases r <;> simp [Except.toOption]

namespace Handheld.Decimal

/-- The digit byte of `d`, for `d` below ten. -/
def digit (d : Nat) : UInt8 := (0x30 + d).toUInt8

def digit? (b : UInt8) : Option Nat :=
  if 0x30 ≤ b ∧ b ≤ 0x39 then some (b.toNat - 0x30) else none

/-- The last `width` digits of `n`, with leading zeros, in front of `ds`. -/
def paddedOnto : Nat → Nat → List UInt8 → List UInt8
  | 0, _, ds => ds
  | width + 1, n, ds => paddedOnto width (n / 10) (digit (n % 10) :: ds)

/-- The last `width` digits of `n`, with leading zeros. -/
def padded (width n : Nat) : List UInt8 := paddedOnto width n []

theorem paddedOnto_eq (width n : Nat) (ds : List UInt8) :
    paddedOnto width n ds = padded width n ++ ds := by
  induction width generalizing n ds with
  | zero => rfl
  | succ width ih =>
    show paddedOnto width (n / 10) _ = paddedOnto width (n / 10) _ ++ ds
    rw [ih, ih _ [_], List.append_assoc]
    rfl

theorem padded_zero (n : Nat) : padded 0 n = [] := rfl

theorem padded_succ (width n : Nat) :
    padded (width + 1) n = padded width (n / 10) ++ [digit (n % 10)] :=
  paddedOnto_eq width (n / 10) [digit (n % 10)]

@[simp] theorem length_padded (width n : Nat) : (padded width n).length = width := by
  induction width generalizing n with
  | zero => rfl
  | succ width ih => simp [padded_succ, ih]

/-- The first number with more than `width` digits. -/
def power (width : Nat) : Nat := Nat.pow 10 width

theorem power_succ (width : Nat) : power (width + 1) = power width * 10 := rfl

/-- How many digits `n` needs; one for zero. -/
def width (n : Nat) : Nat := go n n
where
  /-- The first argument only bounds the recursion: `n` has at most `n + 1` digits. -/
  go : Nat → Nat → Nat
    | 0, _ => 1
    | fuel + 1, n => if n < 10 then 1 else go fuel (n / 10) + 1

def bytes (n : Nat) : List UInt8 := padded (width n) n

/-- As few digits as `n` needs, but at least `least`. -/
def atLeast (least n : Nat) : List UInt8 := padded (max least (width n)) n

/-- A minus sign in front of a negative number. -/
def signedBytes (n : Int) : List UInt8 :=
  if n < 0 then 0x2D :: bytes n.natAbs else bytes n.natAbs

def toText (ds : List UInt8) : String := String.ofList (ds.map fun b => Char.ofNat b.toNat)

def text (n : Nat) : String := toText (bytes n)

def signedText (n : Int) : String := toText (signedBytes n)

/-- Why a numeral is refused. -/
inductive Refusal where
  | empty
  | notDigit
  | tooLarge
  deriving DecidableEq

/-- The wording shown with a refused numeral. -/
def Refusal.message : Refusal → String
  | empty => "cannot parse integer from empty string"
  | notDigit => "invalid digit found in string"
  | tooLarge => "number too large to fit in target type"

/-- Appends the digits to `n`; the first byte that is no digit, or that takes the number past
`limit`, refuses the numeral. -/
def readFrom (limit n : Nat) : List UInt8 → Except Refusal Nat
  | [] => .ok n
  | b :: r =>
    match digit? b with
    | none => .error .notDigit
    | some d => if 10 * n + d ≤ limit then readFrom limit (10 * n + d) r else .error .tooLarge

/-- A nonempty run of digits whose value is at most `limit`. -/
def read (limit : Nat) (ds : List UInt8) : Except Refusal Nat :=
  if ds.isEmpty then .error .empty else readFrom limit 0 ds

/-- Digits with an optional plus sign. -/
def readUnsigned? (limit : Nat) : List UInt8 → Option Nat
  | 0x2B :: ds => (read limit ds).toOption
  | ds => (read limit ds).toOption

/-- Digits with an optional sign, the value within 32-bit two's complement. -/
def readInt32? : List UInt8 → Option Int32
  | 0x2D :: ds => (read 0x80000000 ds).toOption.map fun n => Int32.ofInt (-n)
  | ds => (readUnsigned? 0x7FFFFFFF ds).map fun n => Int32.ofInt n

end Handheld.Decimal
