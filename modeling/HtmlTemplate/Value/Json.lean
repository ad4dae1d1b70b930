import HtmlTemplate.Expr.Literal

/-! Reading values from JSON. Integers of 64 bits stay integers, all other numbers become
floats, and of two entries with one key the later one counts. -/

namespace HtmlTemplate

inductive JsonFault where
  /-- The text ends where a value should begin. -/
  | endOfText
  | expectedValue
  | trailing
  | unclosedString
  | invalidEscape
  | unclosedArray
  | unclosedObject
  | expectedKey
  | expectedColon
  deriving DecidableEq, Repr

namespace JsonFault

def message : JsonFault → String
  | endOfText => "EOF while parsing a value"
  | expectedValue => "expected value"
  | trailing => "trailing characters"
  | unclosedString => "EOF while parsing a string"
  | invalidEscape => "invalid escape"
  | unclosedArray => "expected `,` or `]`"
  | unclosedObject => "expected `,` or `\x7d`"
  | expectedKey => "key must be a string"
  | expectedColon => "expected `:`"

end JsonFault

/-- A fault and the offset it is reported at. -/
structure JsonError where
  fault : JsonFault
  offset : Nat
  deriving DecidableEq, Repr

namespace JsonError

/-- The fault with the line and the column of its place, the column counted from zero. -/
def text (error : JsonError) (source : List Char) : String :=
  let before := ((takeBytes? error.offset source).getD source)
  let line := before.count '\n' + 1
  let column := byteLength (before.reverse.takeWhile (· != '\n'))
  error.fault.message ++ s!" at line {line} column {column}"

end JsonError

namespace Json

open CharClass

/-- A character of a string after its backslash. -/
def readEscape (input : Input) : Except JsonError (Parsed Char input) :=
  match input.rest with
  | [] => .error ⟨.unclosedString, input.pos⟩
  | char :: _ =>
    if char = 'u' then
      match Literal.readCode input.advance with
      | .ok code => .ok (code.widen (Input.reaches_advance _))
      | .error error => .error ⟨.invalidEscape, error.offset⟩
    else if ['"', '\\', '/', 'b', 'f', 'n', 'r', 't'].contains char then
      .ok ⟨Literal.unescaped char, input.advance, Input.reaches_advance _⟩
    else .error ⟨.invalidEscape, input.pos⟩

/-- The characters of a string up to its closing quote. -/
def readChars (input : Input) : Except JsonError (Parsed (List Char) input) :=
  if _atEnd : input.size = 0 then .error ⟨.unclosedString, input.pos⟩
  else if input.isAt '"' then .ok ⟨[], input.advance, Input.reaches_advance _⟩
  else if input.isAt '\\' then do
    let char ← readEscape input.advance
    have charReached := char.reached
    let more ← readChars char.rest
    return (more.map (char.value :: ·)).widen ((Input.reaches_advance _).trans charReached)
  else if input.isClass fun char => char.toNat < 0x20 then .error ⟨.invalidEscape, input.pos⟩
  else do
    let more ← readChars input.advance
    return (more.map (input.rest.take 1 ++ ·)).widen (Input.reaches_advance _)
termination_by input.size
decreasing_by
  · have := charReached.size_le
    simp only [Input.size_advance] at *
    omega
  · simp only [Input.size_advance] at *
    omega

/-- A string from its opening quote on. -/
def readString (input : Input) : Except JsonError (Parsed String input) := do
  let chars ← readChars input.advance
  return (chars.map String.ofList).widen (Input.reaches_advance _)

/-- The value that the text of a number stands for. Zero with a minus sign is a float. -/
def numberValue (text : List Char) : Value :=
  match Decimal.readInt64? text with
  | some number =>
    if number = 0 ∧ text.head? = some '-' then .float (-0.0) else .int number
  | none => .float ((Decimal.readFloat? text).getD 0)

/-- A number: a sign, digits without a leading zero, a fraction and an exponent. -/
def readNumber (input : Input) : Except JsonError (Parsed Value input) :=
  let digits := if input.isAt '-' then input.advance else input
  have digitsReached : input.Reaches digits := by
    simp only [digits]
    split
    · exact Input.reaches_advance _
    · exact .refl _
  let whole := if digits.isAt '0' then digits.advance else digits.dropWhile isDigit
  have wholeReached : digits.Reaches whole := by
    simp only [whole]
    split
    · exact Input.reaches_advance _
    · exact Input.reaches_dropWhile ..
  if !digits.isClass isDigit then .error ⟨.expectedValue, input.pos⟩
  else
    let stop := (Literal.readExponent (Literal.readFraction whole).2).2
    .ok ⟨numberValue (input.textTo stop.pos), stop,
      digitsReached.trans (wholeReached.trans
        ((Literal.reaches_readFraction _).trans (Literal.reaches_readExponent _)))⟩

/-- Words that stand for a value. -/
def words : List (String × Value) :=
  [("true", .bool true), ("false", .bool false), ("null", .null)]

/-- A value that is no container. -/
def readScalar (input : Input) : Except JsonError (Parsed Value input) :=
  if input.atEnd then .error ⟨.endOfText, input.pos⟩
  else if input.isAt '"' then (readString input).map (·.map .text)
  else if input.isAt '-' || input.isClass isDigit then readNumber input
  else
    match words.lookup (String.ofList (input.takeWhile isLatin)) with
    | some value => .ok ⟨value, input.dropWhile isLatin, Input.reaches_dropWhile ..⟩
    | none => .error ⟨.expectedValue, input.pos⟩

/-- The key of an entry, from its opening quote to after the colon. -/
def readKey (input : Input) : Except JsonError (Parsed String input) :=
  if !input.isAt '"' then .error ⟨.expectedKey, input.pos⟩
  else do
    let key ← readString input
    let colon := key.rest.skipWhitespace
    if colon.isAt ':' then
      return ⟨key.value, colon.advance,
        key.reached.trans ((Input.reaches_skipWhitespace _).trans (Input.reaches_advance _))⟩
    else .error ⟨.expectedColon, colon.pos⟩

mutual

/-- White space and a value. -/
def readValue (input : Input) : Except JsonError (Parsed Value input) := do
  let start := input.skipWhitespace
  have startReached : input.Reaches start := Input.reaches_skipWhitespace _
  if list : start.isAt '[' then
    have later := Input.passes_advance_of_isClass list
    let inner := start.advance.skipWhitespace
    have innerReached : start.advance.Reaches inner := Input.reaches_skipWhitespace _
    if inner.isAt ']' then
      return ⟨.array [], inner.advance,
        startReached.trans (later.1.trans (innerReached.trans (Input.reaches_advance _)))⟩
    else
      let items ← readItems start.advance
      return (items.map .array).widen (startReached.trans later.1)
  else if object : start.isAt '{' then
    have later := Input.passes_advance_of_isClass object
    let inner := start.advance.skipWhitespace
    have innerReached : start.advance.Reaches inner := Input.reaches_skipWhitespace _
    if inner.isAt '}' then
      return ⟨.dict [], inner.advance,
        startReached.trans (later.1.trans (innerReached.trans (Input.reaches_advance _)))⟩
    else
      let entries ← readEntries [] start.advance
      return (entries.map .dict).widen (startReached.trans later.1)
  else return (← readScalar start).widen startReached
termination_by 2 * input.size
decreasing_by
  all_goals
    have := startReached.size_le
    have := later.2
    simp only [start] at *
    omega

/-- The elements of an array and its closing bracket. -/
def readItems (input : Input) : Except JsonError (Parsed (List Value) input) := do
  let item ← readValue input
  have itemReached := item.reached
  let after := item.rest.skipWhitespace
  have afterReached : item.rest.Reaches after := Input.reaches_skipWhitespace _
  if comma : after.isAt ',' then
    have later := Input.passes_advance_of_isClass comma
    let more ← readItems after.advance
    return (more.map (item.value :: ·)).widen
      (itemReached.trans (afterReached.trans later.1))
  else if after.isAt ']' then
    return ⟨[item.value], after.advance,
      itemReached.trans (afterReached.trans (Input.reaches_advance _))⟩
  else .error ⟨.unclosedArray, after.pos⟩
termination_by 2 * input.size + 1
decreasing_by
  · omega
  · have := itemReached.size_le
    have := afterReached.size_le
    have := later.2
    simp only [after] at *
    omega

/-- The entries of an object and its closing bracket, added to those before them. -/
def readEntries (read : List (String × Value)) (input : Input) :
    Except JsonError (Parsed (List (String × Value)) input) := do
  let start := input.skipWhitespace
  have startReached : input.Reaches start := Input.reaches_skipWhitespace _
  let key ← readKey start
  have keyReached := key.reached
  let value ← readValue key.rest
  have valueReached := value.reached
  let after := value.rest.skipWhitespace
  have afterReached : value.rest.Reaches after := Input.reaches_skipWhitespace _
  let entries := Entries.insert key.value value.value read
  if comma : after.isAt ',' then
    have later := Input.passes_advance_of_isClass comma
    let more ← readEntries entries after.advance
    return more.widen (startReached.trans (keyReached.trans
      (valueReached.trans (afterReached.trans later.1))))
  else if after.isAt '}' then
    return ⟨entries, after.advance, startReached.trans (keyReached.trans
      (valueReached.trans (afterReached.trans (Input.reaches_advance _))))⟩
  else .error ⟨.unclosedObject, after.pos⟩
termination_by 2 * input.size + 1
decreasing_by
  · have := startReached.size_le
    have := keyReached.size_le
    simp only [start] at *
    omega
  · have := startReached.size_le
    have := keyReached.size_le
    have := valueReached.size_le
    have := afterReached.size_le
    have := later.2
    simp only [start, after] at *
    omega

end

/-- A text that is one value. -/
def read (text : List Char) : Except JsonError Value := do
  let value ← readValue (.ofText text)
  let after := value.rest.skipWhitespace
  if after.atEnd then return value.value else .error ⟨.trailing, after.pos⟩

end Json

end HtmlTemplate
