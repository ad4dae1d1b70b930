import HtmlTemplate.Token.Embedded

/-! Statements on a line of code, and blocks of such lines. -/

namespace HtmlTemplate.Code

open CharClass

/-- Statements with semicolons between them, up to the end of the line. -/
def readStatements (options : ParseOptions) (place : ExprPlace) (input : Input) :
    Except LexError (Parsed (List Token) input) :=
  let start := input.skipSpacing
  have startReached : input.Reaches start := Input.reaches_skipSpacing _
  if start.atLineEnd then .ok ⟨[], start, startReached⟩
  else do
    let statement ← Embedded.read options place start
    have statementReached := statement.reached
    if again : statement.rest.isAt ';' then
      have later := Input.passes_advance_of_isClass again
      let more ← readStatements options place statement.rest.advance
      return (more.map (statement.value.token .code :: ·)).widen
        (startReached.trans (statementReached.trans later.1))
    else if statement.rest.atLineEnd then
      return (statement.map fun statement => [statement.token .code]).widen startReached
    else .error ⟨.afterExpr place, statement.rest.pos⟩
termination_by input.size
decreasing_by
  have := startReached.size_le
  have := statementReached.size_le
  have := later.2
  simp only [start] at *
  omega

/-- From the end of a line, the start of the next line that is not blank. -/
def nextLine? (input : Input) : Option Input :=
  match _found : input.eatNewline? with
  | none => none
  | some start =>
    if start.skipSpacing.atEnd then none
    else if start.skipSpacing.isClass isLineEnd then nextLine? start.skipSpacing
    else some start
termination_by input.size
decreasing_by
  have := (Input.passes_of_eatNewline? _found).2
  have := Input.size_skipSpacing_le start
  omega

theorem passes_of_nextLine? {input next : Input} (found : nextLine? input = some next) :
    input.Passes next := by
  fun_induction nextLine? input with
  | case1 => cases found
  | case2 => cases found
  | case3 input start eaten _ _ step =>
    exact (Input.passes_of_eatNewline? eaten).of_reaches
      ((Input.reaches_skipSpacing start).trans (step found).1)
  | case4 input start eaten _ _ =>
    cases found
    exact Input.passes_of_eatNewline? eaten

/-- The line terminator at the end of a text. -/
def lastLineBreak (text : List Char) : List Char :=
  match text.reverse with
  | '\n' :: '\r' :: _ => ['\r', '\n']
  | '\r' :: _ => ['\r']
  | _ => ['\n']

/-- Whether the lines of a block with this indentation are nested in a line with the outer one. -/
def isDeeper (outer indent : List Char) : Bool :=
  outer.length < indent.length && outer.isPrefixOf indent

/-- The lines of a block, from the end of the line before it. All of them start with the
indentation of the first one. A statement may go on in the next line of the block. -/
def readBlock (outer : List Char) (indent : Option (List Char)) (input : Input) :
    Except LexError (Parsed (List Token) input) :=
  match found : nextLine? input with
  | none => .ok (.here input [])
  | some start =>
    let spacing := start.takeWhile isSpacing
    let block := indent.getD spacing
    if block.isPrefixOf spacing && isDeeper outer block then do
      let continuation := lastLineBreak (input.textTo start.pos) ++ block
      let line ← readStatements (.continuedBy continuation) .codeBlock
        (start.advanceBy block.length)
      have later : input.Passes line.rest := (passes_of_nextLine? found).of_reaches
        ((Input.reaches_advanceBy ..).trans line.reached)
      let more ← readBlock outer (some block) line.rest
      return (more.map (line.value ++ ·)).widen later.1
    else .ok (.here input [])
termination_by input.size
decreasing_by exact later.2

end HtmlTemplate.Code
