import HtmlTemplate.Token.Code
import HtmlTemplate.Token.Inline

/-! Single lines of markup. What a line is shows in its first characters: a word begins a
statement or a tag, and every other kind of line has a mark of its own. -/

namespace HtmlTemplate.Line

open CharClass

/-- A line of markup that consists of one part. -/
def wrap (data : Token) (start stop : Input) : Token :=
  (Token.between .line start stop).withChildren [data]

/-- A line of markup from its start to the place reached. -/
def complete {start : Input} (kind : TokenKind) (parts : Parsed (List Token) start) :
    Parsed Token start :=
  let data := (Token.between kind start parts.rest).withChildren parts.value
  ⟨wrap data start parts.rest, parts.rest, parts.reached⟩

/-- A line that is text as a whole. -/
def readPlain (input : Input) : Except LexError (Parsed Token input) :=
  (Inline.readText input).map (complete .textLine)

/-- A line of markup that is left as it is. -/
def readRaw (input : Input) : Parsed Token input :=
  complete .textLine ⟨[], input.skipRestOfLine, Input.reaches_skipRestOfLine _⟩

/-- A comment. The text of one that only the template shows is not looked at. -/
def readComment (input : Input) : Except LexError (Parsed Token input) :=
  if input.startsWith ['/', '/', '-'] then
    let text := input.advanceBy 3
    let stop := text.skipRestOfLine
    let parts := Token.between .templateComment input text ::
      if text.atLineEnd then [] else [Token.between .plainText text stop]
    .ok (complete .commentLine ⟨parts, stop,
      (Input.reaches_advanceBy ..).trans (Input.reaches_skipRestOfLine _)⟩)
  else do
    let start := input.advanceBy 2
    let text ← Inline.readText start
    return complete .commentLine
      ((text.map (Token.between .htmlComment input start :: ·)).widen (Input.reaches_advanceBy ..))

/-- A line of text after a bar. -/
def readPiped (input : Input) : Except LexError (Parsed Token input) := do
  let text ← Inline.readText input.advance.skipSpacing
  return complete .pipedLine
    ((text.map (Token.mark .pipeMark input :: ·)).widen
      ((Input.reaches_advance _).trans (Input.reaches_skipSpacing _)))

/-- An output after a mark of some characters; nothing else may follow it. -/
def readOutput (markLength : Nat) (kind : TokenKind) (input : Input) :
    Except LexError (Parsed Token input) := do
  let start := (input.advanceBy markLength).skipSpacing
  have reached : input.Reaches start :=
    (Input.reaches_advanceBy ..).trans (Input.reaches_skipSpacing _)
  if start.atLineEnd then return complete .outputLine ⟨[], start, reached⟩
  let output ← Embedded.read .output .outputLine start
  if output.rest.atLineEnd then
    return complete .outputLine ((output.map fun output => [output.token kind]).widen reached)
  else .error ⟨.afterExpr .outputLine, output.rest.pos⟩

/-- The spacing at the start of the line that holds a place. `lineStart` is the start of that
line or of an earlier one. -/
def outerIndent (lineStart place : Input) : List Char :=
  let head := (lineStart.textTo place.pos).reverse.takeWhile fun char => !isLineEnd char
  head.reverse.takeWhile isSpacing

/-- A line of statements or, if nothing follows the dash, a block of them. -/
def readCode (lineStart input : Input) : Except LexError (Parsed Token input) := do
  if input.advance.atLineEnd then
    let block ← Code.readBlock (outerIndent lineStart input) none input.advance
    return complete .codeBlock (block.widen (Input.reaches_advance _))
  else
    let statements ← Code.readStatements .inline .codeLine input.advance
    return complete .codeLine (statements.widen (Input.reaches_advance _))

/-- The arguments of a call, if it has any. -/
def readArguments (input : Input) : Except LexError (Parsed (List Token) input) :=
  if input.isAt '(' then
    (Embedded.read .inline .mixinCall input).map (·.map fun args => [args.token .mixinArguments])
  else .ok (.here input [])

/-- A call of a mixin. The text of the call is the name alone. -/
def readMixinCall (input : Input) : Except LexError (Parsed Token input) := do
  let name := input.advance.skipSpacing
  let named := name.dropWhile isTagWord
  if !name.isClass isTagWord then .error ⟨.mixinName, name.pos⟩
  else
    let arguments ← readArguments named
    let stop := arguments.rest.skipSpacing
    if stop.atLineEnd then
      let data := (Token.between .mixinCall name named).withChildren arguments.value
      return ⟨wrap data input stop, stop,
        (Input.reaches_advance _).trans ((Input.reaches_skipSpacing _).trans
          ((Input.reaches_dropWhile ..).trans
            (arguments.reached.trans (Input.reaches_skipSpacing _))))⟩
    else .error ⟨.afterExpr .mixinCall, stop.pos⟩

/-- The end of a line, or a colon before a line that is chained to it. -/
def endsStatement (input : Input) : Bool := input.atLineEnd || input.isAt ':'

/-- A statement that began at `start`, from its expression on. -/
def readStatement (kind : TokenKind) (start input : Input) :
    Except LexError (Parsed Token input) := do
  let expr ← Embedded.read .inline .control input
  if endsStatement expr.rest then
    let token := Token.between kind start expr.rest
    return expr.map fun expr => { token with expr := some expr.expr }
  else .error ⟨.afterExpr .control, expr.rest.pos⟩

/-- The definition of a mixin: its name, or a call of it. -/
def readMixinDefinition (start input : Input) : Except LexError (Parsed Token input) := do
  let definition ← readStatement .mixinControl start input
  if definition.value.expr.any fun expr => expr.definedName?.isSome then return definition
  else .error ⟨.mixinDefinition, definition.rest.pos⟩

/-- The second variable of a loop, if a comma comes first, and the spacing around it. -/
def readSecondVariable (input : Input) : Except LexError (Parsed (Option Token) input) :=
  let start := input.skipSpacing
  if start.isAt ',' then
    let word := start.advance.skipSpacing
    let stop := word.dropWhile isTagWord
    let named :=
      if word.isClass isTagWord then some (Token.between .eachVariable word stop) else none
    if stop.isClass isSpacing then
      .ok ⟨named, stop.skipSpacing,
        (Input.reaches_skipSpacing _).trans ((Input.reaches_advance _).trans
          ((Input.reaches_skipSpacing _).trans
            ((Input.reaches_dropWhile ..).trans (Input.reaches_skipSpacing _))))⟩
    else .error ⟨.eachVariable, stop.pos⟩
  else .ok ⟨none, start, Input.reaches_skipSpacing _⟩

/-- A loop: one or two variables, the word for "in" and the source. What follows the source
on its line is not looked at. -/
def readEach (start input : Input) : Except LexError (Parsed Token input) := do
  let stop := input.dropWhile isTagWord
  if !stop.isClass fun char => isSpacing char || char == ',' then .error ⟨.eachLine, stop.pos⟩
  else
    let second ← readSecondVariable stop
    let word := second.rest
    if input.isClass isTagWord && word.startsWith ['i', 'n'] && word.isClassAt isSpacing 2 then
      let source ← Embedded.read .inline .each (word.advanceBy 2).skipSpacing
      let kind : TokenKind := if second.value.isSome then .eachPairControl else .eachControl
      let first := Token.between .eachVariable input stop
      let token : Token := { Token.between kind start source.rest with
        expr := some source.value.expr, children := first :: second.value.toList }
      return ⟨token, source.rest,
        (Input.reaches_dropWhile ..).trans (second.reached.trans
          ((Input.reaches_advanceBy ..).trans
            ((Input.reaches_skipSpacing _).trans source.reached)))⟩
    else .error ⟨.eachLine, word.pos⟩

/-- The rest of the line as a name. -/
def readTarget (kind : TokenKind) (input : Input) : Parsed Token input :=
  let stop := input.skipRestOfLine
  let text := Blank.stripEnd isSpacing (input.textTo stop.pos)
  let token : Token :=
    { kind, span := ⟨input.pos, input.pos + byteLength text⟩, text := String.ofList text,
      expr := none, children := [] }
  ⟨token, stop, Input.reaches_skipRestOfLine _⟩

/-- What a word with spacing after it begins. -/
inductive Keyword where
  | includeTarget
  | doctype
  | mixin
  | statement (kind : TokenKind)
  | each

namespace Keyword

def table : List (String × Keyword) :=
  [("include", includeTarget), ("doctype", doctype), ("mixin", mixin),
    ("case", statement .caseControl), ("when", statement .whenControl),
    ("if", statement .ifControl), ("unless", statement .unlessControl),
    ("elseif", statement .elseIfControl), ("while", statement .whileControl),
    ("each", each), ("for", each)]

end Keyword

/-- What follows a keyword and its spacing. -/
def readKeyword (keyword : Keyword) (start input : Input) :
    Except LexError (Parsed Token input) :=
  match keyword with
  | .includeTarget =>
    let target := readTarget .includeTarget input
    if target.value.text = "" then .error ⟨.includeTarget, start.pos⟩ else .ok target
  | .doctype => .ok (readTarget .doctype input)
  | .mixin => readMixinDefinition start input
  | .statement kind => readStatement kind start input
  | .each => readEach start input

/-- A condition after "else if", from its second word on. -/
def readElseIf (start input : Input) : Except LexError (Parsed Token input) := do
  let after := input.advanceBy 2
  if !after.isClass isSpacing then .error ⟨.elseIf, after.pos⟩
  else
    let statement ← readStatement .elseIfControl start after.skipSpacing
    return statement.widen ((Input.reaches_advanceBy ..).trans (Input.reaches_skipSpacing _))

/-- A word that is a statement of its own, from its end on. -/
def readAlone (kind : TokenKind) (fault : LexFault) (start stop input : Input) :
    Except LexError (Parsed Token input) :=
  if endsStatement input then .ok (.here input (Token.between kind start stop))
  else .error ⟨fault, input.pos⟩

/-- What follows the name of a tag: text after spacing, else notes and attributes first. -/
def readAfterName (input : Input) : Except LexError (Parsed (List Token) input) :=
  if input.isClass isSpacing then
    (Inline.readText input.skipSpacing).map (.widen (Input.reaches_skipSpacing _))
  else Inline.readTagParts false input

/-- A line that begins with a letter: a statement if its word is a keyword, else a tag. -/
def readWord (input : Input) : Except LexError (Parsed Token input) := do
  let word := String.ofList (input.takeWhile isTagWord)
  let stop := input.dropWhile isTagWord
  let after := stop.skipSpacing
  have stopReached : input.Reaches stop := Input.reaches_dropWhile ..
  have afterReached : input.Reaches after := stopReached.trans (Input.reaches_skipSpacing _)
  let spaced := stop.isClass isSpacing
  match if spaced then Keyword.table.lookup word else none with
  | some keyword => return (← readKeyword keyword input after).widen afterReached
  | none =>
    if spaced && word == "else" && after.startsWith ['i', 'f'] then
      return (← readElseIf input after).widen afterReached
    else if word = "else" then
      return (← readAlone .elseControl .elseLine input stop after).widen afterReached
    else if word = "default" then
      return (← readAlone .defaultControl .defaultLine input stop after).widen afterReached
    else if word = "doctype" ∧ after.atLineEnd then
      return ⟨Token.mark .doctype after, after, afterReached⟩
    else
      let parts ← readAfterName stop
      return complete .tagLine ((parts.map (Token.between .tag input stop :: ·)).widen stopReached)

/-- A tag without a name, from its first note on. -/
def readNameless (input : Input) : Except LexError (Parsed Token input) := do
  let parts ← Inline.readTagParts false input
  return complete .tagLine (parts.map (Token.mark .tag input :: ·))

/-- A dot alone on its line. -/
def readDot (input : Input) : Parsed Token input :=
  complete .dotLine
    ⟨[Token.between .trailingDot input input.advance], input.advance, Input.reaches_advance _⟩

/-- One line of markup after its indentation. `lineStart` is where the line begins, or the
line that this one is chained to. -/
def read (lineStart input : Input) : Except LexError (Parsed Token input) :=
  let named := input.isClassAt isTagWord 1
  if input.startsWith ['/', '/'] then readComment input
  else if input.isClass isLatin then readWord input
  else if named && input.isClass fun char =>
      char == '.' || char == '#' || char == '(' || char == '&' then
    readNameless input
  else if input.isAt '.' && (input.advance.atLineEnd || input.advance.isAt '\x00') then
    .ok (readDot input)
  else if input.isAt '|' then readPiped input
  else if input.isAt '=' then readOutput 1 .escapedOutput input
  else if input.startsWith ['!', '='] then readOutput 2 .rawOutput input
  else if input.isAt '-' then readCode lineStart input
  else if input.isAt '+' then readMixinCall input
  else if input.isAt '<' then .ok (readRaw input)
  else .error ⟨.unknownLine, input.pos⟩

end HtmlTemplate.Line
