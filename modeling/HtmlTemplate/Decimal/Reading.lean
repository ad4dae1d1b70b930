import HtmlTemplate.Text.CharClass

/-! Finite floats as exact numbers, a mantissa times a power of two, and the float nearest
to a quotient of two natural numbers. -/

namespace HtmlTemplate.Decimal

/-- The size of a finite float: `mantissa * 2 ^ exponent`. -/
structure Binary where
  mantissa : Nat
  exponent : Int
  deriving DecidableEq, Repr

namespace Binary

/-- The least exponent of a float. -/
def minExponent : Int := -1074

/-- The mantissas from here up to twice as much are those of normal floats: 2 to the 52. -/
def leastNormal : Nat := 0x10000000000000

/-- The size that the bits of a finite float encode; the sign is left out. -/
def ofBits (bits : Nat) : Binary :=
  let field : Nat := bits / leastNormal % 2048
  let fraction : Nat := bits % leastNormal
  if field = 0 then ⟨fraction, minExponent⟩ else ⟨leastNormal + fraction, (field : Int) - 1075⟩

end Binary

/-- The bit of the sign. -/
def signBit : Nat := 0x8000000000000000

def isNegative (float : Float) : Bool := signBit ≤ float.toBits.toNat

def negated (bits : Nat) : Nat := bits + signBit

def infinityBits : Nat := 0x7FF0000000000000

def infinity : Float := Float.ofBits infinityBits.toUInt64

def notANumber : Float := Float.ofBits 0x7FF8000000000000

/-- `numerator / denominator` divided by `2 ^ exponent`, as a quotient of naturals. -/
def scaleByPower (numerator denominator : Nat) (exponent : Int) : Nat × Nat :=
  if 0 ≤ exponent then (numerator, denominator <<< exponent.toNat)
  else (numerator <<< (-exponent).toNat, denominator)

/-- The natural number nearest to a quotient; of two equally near ones, the even one. -/
def roundHalfEven (numerator denominator : Nat) : Nat :=
  let floor := numerator / denominator
  let excess := 2 * (numerator % denominator)
  if excess < denominator then floor
  else if denominator < excess then floor + 1
  else if floor % 2 = 0 then floor else floor + 1

/-- The bits of the float nearest to a quotient, ties to the even mantissa. Mantissas of a
normal float have 53 bits, so a carry out of the mantissa lands in the exponent field. -/
def bitsOfRatio (numerator denominator : Nat) : Nat :=
  if numerator = 0 ∨ denominator = 0 then 0
  else
    let estimate : Int := (numerator.log2 : Int) - (denominator.log2 : Int) - 53
    let low := max estimate Binary.minExponent
    let scaled := scaleByPower numerator denominator low
    let exponent := if scaled.1 / scaled.2 < 2 * Binary.leastNormal then low else low + 1
    let exact := scaleByPower numerator denominator exponent
    let mantissa := roundHalfEven exact.1 exact.2
    min ((exponent - Binary.minExponent).toNat * Binary.leastNormal + mantissa) infinityBits

/-- Number of decimal digits; zero has one. -/
def digitCount (number : Nat) : Nat := (Nat.toDigits 10 number).length

/-- The bits of the float nearest to `digits * 10 ^ exponent`. Beyond the range of floats
no power of ten is computed. -/
def bitsOfDecimal (digits : Nat) (exponent : Int) : Nat :=
  if digits = 0 then 0
  else
    let point := (digitCount digits : Int) + exponent
    if 310 < point then infinityBits
    else if point < -330 then 0
    else if 0 ≤ exponent then bitsOfRatio (digits * Nat.pow 10 exponent.toNat) 1
    else bitsOfRatio digits (Nat.pow 10 (-exponent).toNat)

/-! Reading decimal numbers: signed integers of 64 bits, and floats. -/

/-- The number that a row of digits spells. -/
def ofDigits (digits : List Char) : Nat :=
  digits.foldl (fun number digit => number * 10 + (digit.toNat - '0'.toNat)) 0

/-- A sign in front of a number: whether it is negative, and what follows. -/
def readSign : List Char → Bool × List Char
  | '-' :: text => (true, text)
  | '+' :: text => (false, text)
  | text => (false, text)

/-- A number as a signed integer of 64 bits, if it is in their range. -/
def toInt64? (number : Int) : Option Int64 :=
  if Int64.minValue.toInt ≤ number ∧ number ≤ Int64.maxValue.toInt then some (Int64.ofInt number) else none

/-- The whole text as an integer of 64 bits: digits, with a sign or without. -/
def readInt64? (text : List Char) : Option Int64 :=
  let (negative, digits) := readSign text
  if digits.isEmpty || !digits.all CharClass.isDigit then none
  else
    let size : Int := ofDigits digits
    toInt64? (if negative then -size else size)

/-- A float written without a sign: digits with a point among or around them, and an
exponent. -/
structure Literal where
  whole : List Char
  fraction : List Char
  negativeExponent : Bool
  exponent : List Char

namespace Literal

def bits (literal : Literal) : Nat :=
  let size : Int := ofDigits literal.exponent
  let exponent := if literal.negativeExponent then -size else size
  bitsOfDecimal (ofDigits (literal.whole ++ literal.fraction)) (exponent - literal.fraction.length)

def toFloat (literal : Literal) : Float := Float.ofBits literal.bits.toUInt64

end Literal

/-- The digits at the front of a text, and the rest. -/
def spanDigits (text : List Char) : List Char × List Char := text.span CharClass.isDigit

/-- The whole text as the exponent of a literal: nothing, or a mark, a sign and digits. -/
def readExponent? : List Char → Option (Bool × List Char)
  | [] => some (false, [])
  | mark :: text =>
    if mark == 'e' || mark == 'E' then
      let (negative, digits) := readSign text
      if digits.isEmpty || !digits.all CharClass.isDigit then none else some (negative, digits)
    else none

/-- The whole text as a literal. There is a digit on at least one side of the point. -/
def readLiteral? (text : List Char) : Option Literal :=
  let (whole, afterWhole) := spanDigits text
  let (fraction, afterFraction) := match afterWhole with
    | '.' :: tail => spanDigits tail
    | tail => ([], tail)
  if whole.isEmpty && fraction.isEmpty then none
  else (readExponent? afterFraction).map fun (negativeExponent, exponent) =>
    { whole, fraction, negativeExponent, exponent }

/-- The whole text as the bits of a float without its sign. The names of infinity and of
what is not a number may be written in capitals. -/
def readSizeBits? (text : List Char) : Option Nat :=
  let name := String.ofList (text.map Char.toLower)
  if name == "inf" || name == "infinity" then some infinityBits
  else if name == "nan" then some notANumber.toBits.toNat
  else (readLiteral? text).map Literal.bits

/-- The whole text as a float. -/
def readFloat? (text : List Char) : Option Float :=
  let (negative, size) := readSign text
  (readSizeBits? size).map fun bits =>
    Float.ofBits (if negative then negated bits else bits).toUInt64

end HtmlTemplate.Decimal
