namespace Handheld.Utf8

/-- The one to four bytes of a character. -/
def encodeChar (c : Char) : List UInt8 :=
  let v := c.toNat
  if v < 0x80 then [v.toUInt8]
  else if v < 0x800 then [(0xC0 + v / 64).toUInt8, (0x80 + v % 64).toUInt8]
  else if v < 0x10000 then
    [(0xE0 + v / 4096).toUInt8, (0x80 + v / 64 % 64).toUInt8, (0x80 + v % 64).toUInt8]
  else
    [(0xF0 + v / 262144).toUInt8, (0x80 + v / 4096 % 64).toUInt8,
      (0x80 + v / 64 % 64).toUInt8, (0x80 + v % 64).toUInt8]

def encode (s : String) : List UInt8 := s.toList.flatMap encodeChar

/-- What a first byte announces: how many bytes follow it, and the range of the next one. -/
structure Lead where
  tails : Nat
  low : UInt8
  high : UInt8

/-- No character starts with a continuation byte, with 0xC0, 0xC1 or with a byte above 0xF4;
the narrowed ranges exclude overlong forms, surrogates and values above U+10FFFF. -/
def lead? (a : UInt8) : Option Lead :=
  if a < 0x80 then some ⟨0, 0, 0⟩
  else if a < 0xC2 then none
  else if a < 0xE0 then some ⟨1, 0x80, 0xBF⟩
  else if a = 0xE0 then some ⟨2, 0xA0, 0xBF⟩
  else if a = 0xED then some ⟨2, 0x80, 0x9F⟩
  else if a < 0xF0 then some ⟨2, 0x80, 0xBF⟩
  else if a = 0xF0 then some ⟨3, 0x90, 0xBF⟩
  else if a < 0xF4 then some ⟨3, 0x80, 0xBF⟩
  else if a = 0xF4 then some ⟨3, 0x80, 0x8F⟩
  else none

def isTail (b : UInt8) : Bool := 0x80 ≤ b && b ≤ 0xBF

def tailBits (b : UInt8) : Nat := b.toNat % 64

def char2 (a b : UInt8) : Char := Char.ofNat (a.toNat % 32 * 64 + tailBits b)

def char3 (a b c : UInt8) : Char :=
  Char.ofNat (a.toNat % 16 * 4096 + tailBits b * 64 + tailBits c)

def char4 (a b c d : UInt8) : Char :=
  Char.ofNat (a.toNat % 8 * 262144 + tailBits b * 4096 + tailBits c * 64 + tailBits d)

/-- The characters of a byte string in order, `none` at each broken spot. -/
def units : List UInt8 → List (Option Char)
  | [] => []
  | a :: r =>
    match lead? a with
    | none => none :: units r
    | some ⟨0, _, _⟩ => some (Char.ofNat a.toNat) :: units r
    | some ⟨n + 1, low, high⟩ =>
      match r with
      | [] => [none]
      | b :: r₁ =>
        if !(low ≤ b && b ≤ high) then none :: units (b :: r₁)
        else if n = 0 then some (char2 a b) :: units r₁
        else match r₁ with
          | [] => [none]
          | c :: r₂ =>
            if !isTail c then none :: units (c :: r₂)
            else if n = 1 then some (char3 a b c) :: units r₂
            else match r₂ with
              | [] => [none]
              | d :: r₃ =>
                if !isTail d then none :: units (d :: r₃)
                else some (char4 a b c d) :: units r₃

/-- Every broken spot shows as one replacement character. -/
def lossy (bytes : List UInt8) : String :=
  String.ofList ((units bytes).map (·.getD '\uFFFD'))

/-- The text of bytes without broken spots. -/
def decode? (bytes : List UInt8) : Option String :=
  ((units bytes).mapM id).map String.ofList

end Handheld.Utf8
