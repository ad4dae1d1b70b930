import HtmlTemplate.Token.Attribute

/-! What stands on a line of markup: text with outputs and tags in it, and the notes,
attributes and marks of a tag. -/

namespace HtmlTemplate

/-- A piece of text as it is read: characters of the source, or a part among them. -/
inductive Piece where
  | literal (pos : Nat) (chars : List Char)
  | part (token : Token)

namespace Piece

/-- Literals that touch in the source become one. -/
def join : List Piece → List Piece
  | [] => []
  | part token :: rest => part token :: join rest
  | literal pos chars :: rest =>
    match join rest with
    | literal next more :: joined =>
      if pos + byteLength chars = next then literal pos (chars ++ more) :: joined
      else literal pos chars :: literal next more :: joined
    | joined => literal pos chars :: joined

def token : Piece → Token
  | literal pos chars =>
    { kind := .plainText, span := ⟨pos, pos + byteLength chars⟩, text := String.ofList chars,
      expr := none, children := [] }
  | part token => token

end Piece

namespace Inline

open CharClass

/-- The marks that may be escaped with a backslash. -/
def startsMark (input : Input) : Bool :=
  input.startsWith ['#', '{'] || input.startsWith ['#', '['] || input.startsWith ['!', '{']

/-- The kind of output that begins here. -/
def outputMark? (input : Input) : Option TokenKind :=
  if input.startsWith ['#', '{'] then some .escapedOutput
  else if input.startsWith ['!', '{'] then some .rawOutput
  else none

/-- The end of the line, or of the tag in brackets that the text belongs to. -/
def ends (bracketed : Bool) (input : Input) : Bool :=
  input.atLineEnd || (bracketed && input.isAt ']')

/-- An output from after its opening mark to after its closing bracket. -/
def readOutput (kind : TokenKind) (input : Input) : Except LexError (Parsed Token input) := do
  let output ← Embedded.read .inline .interpolation input
  if output.rest.isAt '}' then
    return ⟨output.value.token kind, output.rest.advance,
      output.reached.trans (Input.reaches_advance _)⟩
  else .error ⟨.afterExpr .interpolation, input.pos⟩

/-- The mark that ends the notes and attributes of a tag. -/
def endMark? (input : Input) : Option (TokenKind × Input) :=
  if input.isAt '/' then some (.trailingSlash, input.advance)
  else if input.isAt '=' then some (.trailingOutput, input.advance)
  else if input.startsWith ['!', '='] then some (.trailingRawOutput, input.advanceBy 2)
  else none

theorem reaches_of_endMark? {input next : Input} {kind : TokenKind}
    (found : endMark? input = some (kind, next)) : input.Reaches next := by
  unfold endMark? at found
  split at found
  · cases found
    exact Input.reaches_advance _
  split at found
  · cases found
    exact Input.reaches_advance _
  split at found
  · cases found
    exact Input.reaches_advanceBy ..
  · cases found

/-- The output after an equals sign; nothing else may follow it. -/
def readTagOutput (bracketed : Bool) (kind : TokenKind) (input : Input) :
    Except LexError (Parsed (List Token) input) := do
  let output ← Embedded.read .output .tagOutput input
  if ends bracketed output.rest then
    let kind : TokenKind := if kind = .trailingOutput then .escapedOutput else .rawOutput
    return output.map fun output => [output.token kind]
  else .error ⟨.afterExpr .tagOutput, output.rest.pos⟩

/-- What may follow an end mark: nothing after a slash, an output after an equals sign. -/
def readAfterMark (bracketed : Bool) (kind : TokenKind) (input : Input) :
    Except LexError (Parsed (List Token) input) :=
  if ends bracketed input then .ok (.here input [])
  else if kind = .trailingSlash then .error ⟨.afterTagEnd, input.pos⟩
  else readTagOutput bracketed kind input

/-- An expression for attributes, from its ampersand to after its closing bracket. -/
def readAttributeExpr (input : Input) : Except LexError (Parsed Token input.advance) :=
  match found : input.advance.eatWord? "attributes(".toList with
  | none => .error ⟨.unknownTagPart, input.pos⟩
  | some next => do
    let expr ← Embedded.read .inline .attributes next
    if expr.rest.isAt ')' then
      return ⟨expr.value.token .attributeExpr, expr.rest.advance,
        (Input.reaches_of_eatWord? found).trans
          (expr.reached.trans (Input.reaches_advance _))⟩
    else .error ⟨.afterExpr .attributes, expr.rest.pos⟩

mutual

/-- Text up to the end of its line or, in a tag in brackets, up to the closing bracket. -/
def readPieces (bracketed : Bool) (input : Input) :
    Except LexError (Parsed (List Piece) input) :=
  if _nonempty : input.atEnd then .ok (.here input [])
  else if ends bracketed input then .ok (.here input [])
  else if input.isAt '\\' then do
    let next := input.advance
    let piece := if startsMark next then Piece.literal next.pos (next.rest.take 2)
      else Piece.literal input.pos (input.rest.take 2)
    let after := if startsMark next then next.advanceBy 2 else next.advance
    have afterReached : next.Reaches after := by
      simp only [after]
      split
      · exact Input.reaches_advanceBy ..
      · exact Input.reaches_advance _
    let more ← readPieces bracketed after
    return (more.map (piece :: ·)).widen ((Input.reaches_advance _).trans afterReached)
  else if let some kind := outputMark? input then do
    let output ← readOutput kind (input.advanceBy 2)
    have outputReached := output.reached
    let more ← readPieces bracketed output.rest
    return (more.map (.part output.value :: ·)).widen
      ((Input.reaches_advanceBy ..).trans outputReached)
  else if input.startsWith ['#', '['] then do
    let tag ← readBracketedTag input (input.advanceBy 2)
    have tagReached := tag.reached
    let more ← readPieces bracketed tag.rest
    return (more.map (.part tag.value :: ·)).widen
      ((Input.reaches_advanceBy ..).trans tagReached)
  else do
    let more ← readPieces bracketed input.advance
    return (more.map (.literal input.pos (input.rest.take 1) :: ·)).widen
      (Input.reaches_advance _)
termination_by 3 * input.size
decreasing_by
  · have := afterReached.size_le
    simp only [next, after, Input.atEnd_iff, Input.size_advance] at *
    omega
  · have := outputReached.size_le
    simp only [Input.atEnd_iff, Input.size_advanceBy] at *
    omega
  · simp only [Input.atEnd_iff, Input.size_advanceBy] at *
    omega
  · have := tagReached.size_le
    simp only [Input.atEnd_iff, Input.size_advanceBy] at *
    omega
  · simp only [Input.atEnd_iff, Input.size_advance] at *
    omega

/-- A tag in brackets that began at `start`, from its name to after its closing bracket. -/
def readBracketedTag (start input : Input) : Except LexError (Parsed Token input) := do
  let named := input.dropWhile isTagWord
  have namedReached : input.Reaches named := Input.reaches_dropWhile ..
  let parts ← readTagParts true named
  if parts.rest.isAt ']' then
    let stop := parts.rest.advance
    return ⟨(Token.between .tagLine start stop).withChildren
        (Token.between .tag input named :: parts.value),
      stop, namedReached.trans (parts.reached.trans (Input.reaches_advance _))⟩
  else .error ⟨.inlineTag, input.pos⟩
termination_by 3 * input.size + 2
decreasing_by
  have := namedReached.size_le
  simp only [named] at *
  omega

/-- What follows the name of a tag, up to a colon or to the end of the line or the bracket. -/
def readTagParts (bracketed : Bool) (input : Input) :
    Except LexError (Parsed (List Token) input) :=
  if _nonempty : input.atEnd then .ok (.here input [])
  else if input.isAt ':' then .ok (.here input [])
  else if input.isAt '.' ∨ input.isAt '#' then
    let word := input.advance
    let after := word.dropWhile isTagWord
    have afterReached : word.Reaches after := Input.reaches_dropWhile ..
    if input.isAt '.' ∧ ¬ word.isClass isTagWord ∧ word.atLineEnd then
      .ok ⟨[Token.between .trailingDot input word], word, Input.reaches_advance _⟩
    else do
      let note := if input.isAt '#' then [Token.between .idNote word after]
        else if word.isClass isTagWord then [Token.between .classNote word after]
        else []
      let more ← readTagParts bracketed after
      return (more.map (note ++ ·)).widen ((Input.reaches_advance _).trans afterReached)
  else if input.isAt '(' then do
    let list ← Attribute.readList input.advance
    have listReached := list.reached
    let more ← readTagParts bracketed list.rest
    return (more.map (list.value :: ·)).widen ((Input.reaches_advance _).trans listReached)
  else if input.isAt '&' then do
    let expr ← readAttributeExpr input
    have exprReached := expr.reached
    let more ← readTagParts bracketed expr.rest
    return (more.map (expr.value :: ·)).widen ((Input.reaches_advance _).trans exprReached)
  else match marked : endMark? input with
  | some (kind, next) => do
    let after ← readAfterMark bracketed kind next.skipSpacing
    return (after.map (Token.between kind input next :: ·)).widen
      ((reaches_of_endMark? marked).trans (Input.reaches_skipSpacing _))
  | none => do
    let text ← readPieces bracketed input.skipSpacing
    return (text.map fun pieces => (Piece.join pieces).map Piece.token).widen
      (Input.reaches_skipSpacing _)
termination_by 3 * input.size + 1
decreasing_by
  · have := afterReached.size_le
    simp only [word, after, Input.atEnd_iff, Input.size_advance] at *
    omega
  · have := listReached.size_le
    simp only [Input.atEnd_iff, Input.size_advance] at *
    omega
  · have := exprReached.size_le
    simp only [Input.atEnd_iff, Input.size_advance] at *
    omega
  · have := Input.size_skipSpacing_le input
    omega

end

/-- Text up to the end of its line, as parts. -/
def readText (input : Input) : Except LexError (Parsed (List Token) input) :=
  (readPieces false input).map (·.map fun pieces => (Piece.join pieces).map Piece.token)

end Inline

end HtmlTemplate
