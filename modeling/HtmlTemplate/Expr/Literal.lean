import HtmlTemplate.Text.Input
import HtmlTemplate.Expr.Basic
import HtmlTemplate.Expr.Fault

/-! Reading numbers, strings and words at the start of an input. -/

namespace HtmlTemplate.Literal

open CharClass

def hexValue (digit : Char) : Nat :=
  if isDigit digit then digit.toNat - '0'.toNat
  else if 'a' ≤ digit then digit.toNat - 'a'.toNat + 10
  else digit.toNat - 'A'.toNat + 10

/-- The number of four hexadecimal digits. -/
def readHex (input : Input) : Except ParseError (Parsed Nat input) :=
  let digits := input.rest.take 4
  if digits.length = 4 ∧ digits.all isHexDigit then
    .ok ⟨digits.foldl (fun code digit => code * 16 + hexValue digit) 0, input.advanceBy 4,
      Input.reaches_advanceBy ..⟩
  else .error (.here .malformedEscape input.pos)

/-- The character with a code, unless the code is half of a surrogate pair. -/
def charOfCode (code : Nat) (input : Input) : Except ParseError (Parsed Char input) :=
  if code.isValidChar then .ok (.here input (Char.ofNat code))
  else .error (.here .malformedEscape input.pos)

/-- What follows the mark of a code escape. A code outside of the basic plane is written as
a surrogate pair. -/
def readCode (input : Input) : Except ParseError (Parsed Char input) := do
  let high ← readHex input
  if 0xD800 ≤ high.value ∧ high.value < 0xDC00 then
    match found : high.rest.eatWord? ['\\', 'u'] with
    | none => .error (.here .malformedEscape high.rest.pos)
    | some next =>
      let low ← readHex next
      if 0xDC00 ≤ low.value ∧ low.value < 0xE000 then
        let code := 0x10000 + (high.value - 0xD800) * 1024 + (low.value - 0xDC00)
        let char ← charOfCode code low.rest
        return char.widen (high.reached.trans ((Input.reaches_of_eatWord? found).trans low.reached))
      else .error (.here .malformedEscape low.rest.pos)
  else
    let char ← charOfCode high.value high.rest
    return char.widen high.reached

/-- The character that a letter after a backslash stands for; any other character stands
for itself. -/
def unescaped (char : Char) : Char :=
  if char = 'n' then '\n'
  else if char = 't' then '\t'
  else if char = 'r' then '\r'
  else if char = 'b' then '\x08'
  else if char = 'f' then '\x0c'
  else char

/-- What follows a backslash in a string that began at offset `start`. -/
def readEscape (start : Nat) (input : Input) : Except ParseError (Parsed Char input) :=
  match input.rest with
  | [] => .error ⟨.unterminatedString, start, input.pos⟩
  | char :: _ =>
    let next := input.advance
    have reached : input.Reaches next := Input.reaches_advance _
    if char = 'u' then (readCode next).map (.widen reached)
    else .ok ⟨unescaped char, next, reached⟩

/-- The characters of a string up to its closing quote. `read` holds those before the
input, the last one first. -/
def readChars (quote : Char) (start : Nat) (read : List Char) :
    (input : Input) → Except ParseError (Parsed (List Char) input)
  | ⟨pos, []⟩ => .error ⟨.unterminatedString, start, pos⟩
  | ⟨pos, char :: rest⟩ =>
    let next : Input := ⟨pos + char.utf8Size, rest⟩
    have _size : next.size = rest.length := rfl
    have reached : Input.Reaches ⟨pos, char :: rest⟩ next := Input.reaches_advance _
    if char = quote then .ok ⟨read.reverse, next, reached⟩
    else if char = '\\' then do
      let escaped ← readEscape start next
      have _shorter := escaped.le
      let text ← readChars quote start (escaped.value :: read) escaped.rest
      return text.widen (reached.trans escaped.reached)
    else do
      let text ← readChars quote start (char :: read) next
      return text.widen reached
termination_by input => input.size
decreasing_by all_goals simp only [Input.size, List.length_cons] at *; omega

/-- A string from its opening quote on. -/
def readString (input : Input) (quote : Char) : Except ParseError (Parsed String input) := do
  let text ← readChars quote input.pos [] input.advance
  return (text.map String.ofList).widen (Input.reaches_advance _)

/-- Digits after a decimal point, if a digit follows the point. -/
def readFraction (input : Input) : Option (List Char) × Input :=
  if input.isAt '.' && input.isClassAt isDigit 1 then
    (some (input.advance.takeWhile isDigit), input.advance.dropWhile isDigit)
  else (none, input)

/-- An exponent, if its mark and its sign have a digit after them. -/
def readExponent (input : Input) : Option (Bool × List Char) × Input :=
  if input.isAt 'e' || input.isAt 'E' then
    let signed := input.isClassAt (fun char => char == '+' || char == '-') 1
    let digits := input.advanceBy (if signed then 2 else 1)
    if digits.isClass isDigit then
      (some (input.isClassAt (· == '-') 1, digits.takeWhile isDigit), digits.dropWhile isDigit)
    else (none, input)
  else (none, input)

theorem reaches_readFraction (input : Input) : input.Reaches (readFraction input).2 := by
  unfold readFraction
  split
  · exact (Input.reaches_advance _).trans (Input.reaches_dropWhile ..)
  · exact .refl _

theorem reaches_readExponent (input : Input) : input.Reaches (readExponent input).2 := by
  unfold readExponent
  split
  · simp only
    generalize (if input.isClassAt (fun char => char == '+' || char == '-') 1 = true then 2
      else 1) = count
    split
    · exact (Input.reaches_advanceBy ..).trans (Input.reaches_dropWhile ..)
    · exact .refl _
  · exact .refl _

/-- The value of a number. Whole numbers too large for an integer become floats. -/
def numberValue (whole : List Char) (fraction : Option (List Char))
    (exponent : Option (Bool × List Char)) : Value :=
  let literal : Decimal.Literal :=
    { whole, fraction := fraction.getD [], negativeExponent := (exponent.map Prod.fst).getD false,
      exponent := (exponent.map Prod.snd).getD [] }
  if fraction.isNone && exponent.isNone then
    match Decimal.toInt64? (Decimal.ofDigits whole) with
    | some number => .int number
    | none => .float literal.toFloat
  else .float literal.toFloat

def readNumber (input : Input) : Parsed Value input :=
  let fraction := readFraction (input.dropWhile isDigit)
  let exponent := readExponent fraction.2
  ⟨numberValue (input.takeWhile isDigit) fraction.1 exponent.1, exponent.2,
    (Input.reaches_dropWhile ..).trans
      ((reaches_readFraction _).trans (reaches_readExponent _))⟩

def readWord (input : Input) : Parsed String input :=
  ⟨String.ofList (input.takeWhile isIdent), input.dropWhile isIdent, Input.reaches_dropWhile ..⟩

/-- Words that stand for a value; all others are names. -/
def wordExpr (word : String) : Expr :=
  if word = "true" then .literal (.bool true)
  else if word = "false" then .literal (.bool false)
  else if word = "null" then .literal .null
  else if word = "inf" then .literal (.float Decimal.infinity)
  else if word = "nan" then .literal (.float Decimal.notANumber)
  else .name word

end HtmlTemplate.Literal
