import HtmlTemplate.Decimal.Reading

/-! The fewest decimal digits that read back as a float. Of two numbers with that many
digits the nearer one is taken; a tie goes as the format says. All arithmetic is exact. -/

namespace HtmlTemplate.Decimal

/-- Where an exact tie between two neighbouring digits goes. -/
inductive Tie where
  | up
  | even
  deriving DecidableEq, Repr

/-- The number `digits * 10 ^ exponent`. -/
structure Digits where
  digits : Nat
  exponent : Int
  deriving DecidableEq, Repr

/-- The reals that read back as one float, as quotients over one denominator: the value,
the ends of the interval around it, and whether the ends belong to it. -/
structure Rounding where
  value : Nat
  low : Nat
  high : Nat
  denominator : Nat
  closed : Bool

namespace Rounding

/-- The neighbour below a power of two is only half as far away as the one above, except at
the least exponent. The ends round to the value exactly if its mantissa is even. -/
def ofBinary (binary : Binary) : Rounding :=
  let mantissa := binary.mantissa
  let below := if mantissa = Binary.leastNormal ∧ binary.exponent ≠ Binary.minExponent then 1 else 2
  let power := Nat.pow 2 binary.exponent.toNat
  { value := 4 * mantissa * power
    low := (4 * mantissa - below) * power
    high := (4 * mantissa + 2) * power
    denominator := 4 * Nat.pow 2 (-binary.exponent).toNat
    closed := mantissa % 2 = 0 }

/-- Whether `number / unit` lies in the interval. -/
def holds (rounding : Rounding) (number unit : Nat) : Bool :=
  let scaled := number * rounding.denominator
  if rounding.closed then rounding.low * unit ≤ scaled && scaled ≤ rounding.high * unit
  else rounding.low * unit < scaled && scaled < rounding.high * unit

/-- The place of the decimal point: the least `point` with `value < 10 ^ point`. -/
def point (rounding : Rounding) : Int :=
  if rounding.denominator ≤ rounding.value then
    digitCount (rounding.value / rounding.denominator)
  else
    let inverse := (rounding.denominator + rounding.value - 1) / rounding.value
    1 - (digitCount (inverse - 1) : Int)

/-- The number on the grid `10 ^ exponent` that is nearest to the value among its two
neighbours in the interval, if one of them is in it. -/
def onGrid? (rounding : Rounding) (tie : Tie) (exponent : Int) : Option Nat :=
  let grid := Nat.pow 10 exponent.toNat
  let unit := Nat.pow 10 (-exponent).toNat
  let numerator := rounding.value * unit
  let step := rounding.denominator * grid
  let floor := numerator / step
  let lower := rounding.holds (floor * grid) unit
  let upper := rounding.holds ((floor + 1) * grid) unit
  match lower, upper with
  | false, false => none
  | true, false => some floor
  | false, true => some (floor + 1)
  | true, true =>
    let excess := 2 * (numerator % step)
    if excess < step then some floor
    else if step < excess then some (floor + 1)
    else match tie with
      | .up => some (floor + 1)
      | .even => if floor % 2 = 0 then some floor else some (floor + 1)

end Rounding

/-- A number without the zeros at its end, which move into the exponent. -/
def Digits.strip : Nat → Digits → Digits
  | 0, number => number
  | fuel + 1, number =>
    if number.digits % 10 = 0 then Digits.strip fuel ⟨number.digits / 10, number.exponent + 1⟩
    else number

/-- Tries one digit more at a time. Seventeen digits always tell two floats apart. -/
def searchDigits (rounding : Rounding) (tie : Tie) (point : Int) : Nat → Nat → Digits
  | 0, count => ⟨0, point - count⟩
  | fuel + 1, count =>
    match rounding.onGrid? tie (point - count) with
    | some digits => Digits.strip 18 ⟨digits, point - count⟩
    | none => searchDigits rounding tie point fuel (count + 1)

/-- The shortest digits of a positive finite size. -/
def shortest (tie : Tie) (binary : Binary) : Digits :=
  let rounding := Rounding.ofBinary binary
  searchDigits rounding tie rounding.point 17 1

/-! How the digits of a float are set out as text. -/

/-- A format of finite floats: how ties go, where the decimal point may stand without an
exponent being written, and what follows a whole number. -/
structure Layout where
  tie : Tie
  positional : Int → Bool
  wholeTail : String

namespace Layout

/-- Text in a template: never an exponent, and whole numbers without a point. -/
def plain : Layout := { tie := .up, positional := fun _ => true, wholeTail := "" }

/-- Numbers in JSON text: an exponent below `0.00001` and from `1e+16`, and a point in every
number without one. -/
def json : Layout :=
  { tie := .even, positional := fun point => -5 < point && point ≤ 16, wholeTail := ".0" }

def zeros (count : Nat) : List Char := List.replicate count '0'

/-- Digits around a decimal point that stands after the first `point` of them. -/
def positionalText (layout : Layout) (digits : List Char) (point : Int) : String :=
  if point ≤ 0 then "0." ++ String.ofList (zeros (-point).toNat ++ digits)
  else
    let whole := point.toNat
    if digits.length ≤ whole then
      String.ofList (digits ++ zeros (whole - digits.length)) ++ layout.wholeTail
    else String.ofList (digits.take whole) ++ "." ++ String.ofList (digits.drop whole)

/-- One digit in front of the point, and the exponent with its sign. -/
def exponentText (digits : List Char) (point : Int) : String :=
  let lead := String.ofList (digits.take 1)
  let tail := if digits.length ≤ 1 then "" else "." ++ String.ofList (digits.drop 1)
  let exponent := point - 1
  let sign := if exponent < 0 then "-" else "+"
  lead ++ tail ++ "e" ++ sign ++ toString exponent.natAbs

/-- The text of a positive finite size. -/
def sizeText (layout : Layout) (binary : Binary) : String :=
  if binary.mantissa = 0 then "0" ++ layout.wholeTail
  else
    let number := shortest layout.tie binary
    let digits := Nat.toDigits 10 number.digits
    let point := (digits.length : Int) + number.exponent
    if layout.positional point then layout.positionalText digits point
    else exponentText digits point

/-- The text of a finite float. -/
def text (layout : Layout) (float : Float) : String :=
  let size := layout.sizeText (Binary.ofBits float.toBits.toNat)
  if isNegative float then "-" ++ size else size

end Layout

/-- A float as templates print it. -/
def plainText (float : Float) : String :=
  if float.isNaN then "nan"
  else if float.isInf then (if isNegative float then "-inf" else "inf")
  else Layout.plain.text float

end HtmlTemplate.Decimal
