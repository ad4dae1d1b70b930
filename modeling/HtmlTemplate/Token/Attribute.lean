import HtmlTemplate.Token.Embedded

/-! The attribute list of a tag: names, and the expressions of their values. A list may
span lines. Every reader of a name or a pair gets past its first character. -/

namespace HtmlTemplate.Attribute

open CharClass

/-- The pieces of a quoted name, up to its closing quote. A character after a backslash is a
piece of its own. `start` is the offset of the opening quote. -/
def readQuoted (quote : Char) (start : Nat) (input : Input) :
    Except LexError (Parsed (List Token) input) :=
  let stop := input.dropUntil fun char => char == quote || char == '\\'
  have stopReached : input.Reaches stop := Input.reaches_dropWhile ..
  let piece := if stop.pos = input.pos then [] else [Token.between .plainText input stop]
  match _found : stop.rest with
  | [] => .error ⟨.attributeName, start⟩
  | char :: rest =>
    if char = quote then .ok ⟨piece, stop.advance, stopReached.trans (Input.reaches_advance _)⟩
    else if rest.isEmpty then .error ⟨.attributeName, start⟩
    else do
      let escaped := stop.advance
      let next := escaped.advance
      have nextReached : stop.Reaches next :=
        (Input.reaches_advance _).trans (Input.reaches_advance _)
      let more ← readQuoted quote start next
      return (more.map (piece ++ Token.between .plainText escaped next :: ·)).widen
        (stopReached.trans nextReached)
termination_by input.size
decreasing_by
  have := stopReached.size_le
  have : 0 < stop.size := by simp [Input.size, _found]
  simp only [Input.size_advance, stop] at *
  omega

/-- How many characters of a word are a bare name. A bracket at its end closes the list,
unless an equals sign or an exclamation mark follows. -/
def bareLength (word : List Char) (after : Input) : Nat :=
  if word.getLast? = some ')' ∧ !after.isAt '=' ∧ !after.isAt '!' then word.length - 1
  else word.length

/-- A name, bare or in quotes. -/
def readName (input : Input) : Except LexError (Parsed Token input.advance) :=
  match input.rest with
  | [] => .error ⟨.attributeName, input.pos⟩
  | char :: _ =>
    if char = '"' ∨ char = '\'' then
      (readQuoted char input.pos input.advance).map fun pieces =>
        ⟨(Token.between .attributeName input pieces.rest).withChildren pieces.value,
          pieces.rest, pieces.reached⟩
    else
      let word := input.takeWhile isAttrWord
      if word.isEmpty then .error ⟨.attributeName, input.pos⟩
      else
        let count := bareLength word (input.advanceBy word.length)
        let stop := input.advance.advanceBy (count - 1)
        .ok ⟨(Token.between .attributeName input stop).withChildren
            [Token.between .plainText input stop],
          stop, Input.reaches_advanceBy ..⟩

/-- The value of a pair, after its sign. -/
def readValue (kind : TokenKind) (start : Input) (name : Token) (input : Input) :
    Except LexError (Parsed Token input) := do
  let value ← Embedded.read .inline .attributeValue input
  let text := String.ofList (start.textTo value.value.span.stop)
  return value.map fun value =>
    { kind, span := ⟨start.pos, value.span.stop⟩, text, expr := none,
      children := [name, value.token .attributeValue] }

/-- A name with its value, or a name alone. -/
def readPair (input : Input) : Except LexError (Parsed Token input.advance) := do
  let name ← readName input
  let after := name.rest
  if after.startsWith ['!', '='] then
    let pair ← readValue .rawPair input name.value (after.advanceBy 2)
    return pair.widen (name.reached.trans (Input.reaches_advanceBy ..))
  else if after.isAt '=' then
    let pair ← readValue .escapedPair input name.value after.advance
    return pair.widen (name.reached.trans (Input.reaches_advance _))
  else if after.isClass fun char => isWhitespace char || char == ',' || char == ')' then
    return ⟨(Token.between .escapedPair input after).withChildren [name.value],
      after, name.reached⟩
  else .error ⟨.attributeOperator, after.pos⟩

/-- White space with at most one comma in it. -/
def skipSeparator (input : Input) : Input :=
  let spaced := input.skipWhitespace
  if spaced.isAt ',' then spaced.advance.skipWhitespace else spaced

theorem reaches_skipSeparator (input : Input) : input.Reaches (skipSeparator input) := by
  unfold skipSeparator
  simp only
  split
  · exact (Input.reaches_skipWhitespace _).trans
      ((Input.reaches_advance _).trans (Input.reaches_skipWhitespace _))
  · exact Input.reaches_skipWhitespace _

/-- The pairs of a list, up to its closing bracket. -/
def readPairs (input : Input) : Except LexError (Parsed (List Token) input) :=
  if input.atEnd ∨ input.isAt ')' then .ok (.here input [])
  else do
    let pair ← readPair input
    have pairReached := pair.reached
    let more ← readPairs (skipSeparator pair.rest)
    return (more.map (pair.value :: ·)).widen
      ((Input.reaches_advance _).trans (pairReached.trans (reaches_skipSeparator _)))
termination_by input.size
decreasing_by
  have := pairReached.size_le
  have := (reaches_skipSeparator pair.rest).size_le
  have : 0 < input.size := by
    obtain ⟨_, _ | _⟩ := input <;> simp_all [Input.atEnd, Input.size]
  simp only [Input.size_advance] at *
  omega

/-- An attribute list from after its opening bracket to after its closing one. -/
def readList (input : Input) : Except LexError (Parsed Token input) := do
  let pairs ← readPairs input.skipWhitespace
  if pairs.rest.isAt ')' then
    return ⟨(Token.between .attributeList input pairs.rest).withChildren pairs.value,
      pairs.rest.advance,
      (Input.reaches_skipWhitespace _).trans (pairs.reached.trans (Input.reaches_advance _))⟩
  else .error ⟨.attributeList, pairs.rest.pos⟩

end HtmlTemplate.Attribute
