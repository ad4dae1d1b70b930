import HtmlTemplate.Token.Basic
import HtmlTemplate.Token.Document

/-! The parts of a template in one list, in which they refer to one another by place: each to the part that
it is in, to its neighbours there, and to the first and the last part in it. A part is made on its own, and
put into another one later. -/

namespace HtmlTemplate

structure Slot where
  kind : TokenKind
  span : Span
  expr : Option Expr
  parent : Option Nat
  prev : Option Nat
  next : Option Nat
  child : Option Nat
  tail : Option Nat

/-- A part that is in no other one, with nothing in it. -/
def Slot.lone (kind : TokenKind) (span : Span) (expr : Option Expr) : Slot :=
  { kind, span, expr, parent := none, prev := none, next := none, child := none, tail := none }

/-- Parts by place. There is no bound on places. -/
abbrev Slots := List Slot

namespace Slots

/-- The last part in the part at a place. -/
def tail? (slots : Slots) (place : Nat) : Option Nat := slots[place]? >>= Slot.tail

/-- The kind of the part at a place. -/
def kind? (slots : Slots) (place : Nat) : Option TokenKind := slots[place]?.map Slot.kind

/-- Puts a part into another one, after those that are in it already. -/
def append (parent child : Nat) (slots : Slots) : Slots :=
  let last := slots.tail? parent
  let moved := slots.modify child fun slot => { slot with parent := some parent, prev := last, next := none }
  let joined := match last with
    | some last => moved.modify last fun slot => { slot with next := some child }
    | none => moved.modify parent fun slot => { slot with child := some child }
  joined.modify parent fun slot => { slot with tail := some child }

def setSpan (place : Nat) (span : Span) (slots : Slots) : Slots :=
  slots.modify place fun slot => { slot with span }

/-- The last line that is nested in a line or in the root. What a line consists of and the variables of a
loop are no lines. -/
def lastLine? (slots : Slots) (place : Nat) : Option Nat := do
  let slot ← slots[place]?
  let last ← slot.tail
  let isLine := if slot.kind = .line then slot.child != some last else slots.kind? last != some .eachVariable
  if isLine then some last else none

/-- Whether the lines nested in a line are text. -/
def nestsText (slots : Slots) (place : Nat) : Bool :=
  match slots[place]? with
  | some { kind := .line, child := some data, .. } =>
    match slots[data]? with
    | some slot =>
      slot.kind.nestsText ||
        (slot.kind == .tagLine && (slot.tail >>= slots.kind?) == some .trailingDot)
    | none => false
  | _ => false

end Slots

/-! Reading a template into a list of parts. Every part is put where it belongs as soon as it has been
read: the parts of a line into the line, and the line into the one that it is nested in. -/

abbrev LinkM := StateT Slots (Except LexError)

namespace Linking

open CharClass

def fault {α : Type} (fault : LexFault) (offset : Nat) : LinkM α := throw ⟨fault, offset⟩

/-- Makes a part that is in no other one yet. -/
def alloc (kind : TokenKind) (span : Span) (expr : Option Expr) : LinkM Nat := fun slots =>
  .ok (slots.length, slots ++ [.lone kind span expr])

def append (parent child : Nat) : LinkM Unit := modify (Slots.append parent child)

def setSpan (place : Nat) (span : Span) : LinkM Unit := modify (Slots.setSpan place span)

/-- Makes a part without parts of its own, and puts it into another one. -/
def add (parent : Nat) (part : Token) : LinkM Unit := do
  append parent (← alloc part.kind part.span part.expr)

/-- Makes a part, and puts the parts of it into it. These have no parts of their own. -/
def whole (part : Token) : LinkM Nat := do
  let place ← alloc part.kind part.span part.expr
  part.children.forM (add place)
  return place

/-! Attributes. -/

/-- A name. Its span is known once it has been read. -/
def attributeName (input : Input) : LinkM (Parsed Nat input.advance) := do
  let name ← alloc .attributeName ⟨input.pos, input.pos⟩ none
  let read ← Attribute.readName input
  read.value.children.forM (add name)
  setSpan name read.value.span
  return read.map fun _ => name

/-- The value of a pair, after its sign. -/
def attributeValue (kind : TokenKind) (start : Input) (name : Nat) (input : Input) :
    LinkM (Parsed Nat input) := do
  let value ← Embedded.read .inline .attributeValue input
  let pair ← alloc kind ⟨start.pos, value.value.span.stop⟩ none
  append pair name
  add pair (value.value.token .attributeValue)
  return value.map fun _ => pair

/-- A name with its value, or a name alone. -/
def attributePair (input : Input) : LinkM (Parsed Nat input.advance) := do
  let name ← attributeName input
  let after := name.rest
  if after.startsWith ['!', '='] then
    let pair ← attributeValue .rawPair input name.value (after.advanceBy 2)
    return pair.widen (name.reached.trans (Input.reaches_advanceBy ..))
  else if after.isAt '=' then
    let pair ← attributeValue .escapedPair input name.value after.advance
    return pair.widen (name.reached.trans (Input.reaches_advance _))
  else if after.isClass fun char => isWhitespace char || char == ',' || char == ')' then
    let pair ← alloc .escapedPair ⟨input.pos, after.pos⟩ none
    append pair name.value
    return name.map fun _ => pair
  else fault .attributeOperator after.pos

/-- The pairs of a list, up to its closing bracket. -/
def attributePairs (list : Nat) (input : Input) : LinkM (Parsed Unit input) :=
  if input.atEnd ∨ input.isAt ')' then return .here input ()
  else do
    let pair ← attributePair input
    have pairReached := pair.reached
    append list pair.value
    let more ← attributePairs list (Attribute.skipSeparator pair.rest)
    return more.widen
      ((Input.reaches_advance _).trans (pairReached.trans (Attribute.reaches_skipSeparator _)))
termination_by input.size
decreasing_by
  have := pairReached.size_le
  have := (Attribute.reaches_skipSeparator pair.rest).size_le
  have : 0 < input.size := by
    obtain ⟨_, _ | _⟩ := input <;> simp_all [Input.atEnd, Input.size]
  simp only [Input.size_advance] at *
  omega

/-- An attribute list from after its opening bracket to after its closing one. -/
def attributeList (input : Input) : LinkM (Parsed Nat input) := do
  let list ← alloc .attributeList ⟨input.pos, input.pos⟩ none
  let pairs ← attributePairs list input.skipWhitespace
  if pairs.rest.isAt ')' then
    setSpan list ⟨input.pos, pairs.rest.pos⟩
    return ⟨list, pairs.rest.advance,
      (Input.reaches_skipWhitespace _).trans (pairs.reached.trans (Input.reaches_advance _))⟩
  else fault .attributeList pairs.rest.pos

/-! Text and tags. -/

/-- Text that is in no part yet, and its offset. -/
abbrev Held := Option (Nat × List Char)

/-- Makes a part of the text that is held back. -/
def flush (data : Nat) (held : Held) : LinkM Unit :=
  match held with
  | none => return
  | some (pos, chars) => add data (Piece.literal pos chars).token

/-- Holds back more text, together with what is held if the two touch in the source. -/
def hold (data : Nat) (held : Held) (pos : Nat) (chars : List Char) : LinkM Held :=
  match held with
  | none => return some (pos, chars)
  | some (begun, text) =>
    if begun + byteLength text = pos then return some (begun, text ++ chars)
    else do
      flush data held
      return some (pos, chars)

mutual

/-- Text up to the end of its line or, in a tag in brackets, up to the closing bracket. -/
def pieces (bracketed : Bool) (data : Nat) (held : Held) (input : Input) : LinkM (Parsed Unit input) :=
  if _nonempty : input.atEnd then do
    flush data held
    return .here input ()
  else if Inline.ends bracketed input then do
    flush data held
    return .here input ()
  else if input.isAt '\\' then do
    let next := input.advance
    let after := if Inline.startsMark next then next.advanceBy 2 else next.advance
    have afterReached : next.Reaches after := by
      simp only [after]
      split
      · exact Input.reaches_advanceBy ..
      · exact Input.reaches_advance _
    let held ← if Inline.startsMark next then hold data held next.pos (next.rest.take 2)
      else hold data held input.pos (input.rest.take 2)
    let more ← pieces bracketed data held after
    return more.widen ((Input.reaches_advance _).trans afterReached)
  else if let some kind := Inline.outputMark? input then do
    flush data held
    let output ← Inline.readOutput kind (input.advanceBy 2)
    have outputReached := output.reached
    add data output.value
    let more ← pieces bracketed data none output.rest
    return more.widen ((Input.reaches_advanceBy ..).trans outputReached)
  else if input.startsWith ['#', '['] then do
    flush data held
    let tag ← bracketedTag input (input.advanceBy 2)
    have tagReached := tag.reached
    append data tag.value
    let more ← pieces bracketed data none tag.rest
    return more.widen ((Input.reaches_advanceBy ..).trans tagReached)
  else do
    let held ← hold data held input.pos (input.rest.take 1)
    let more ← pieces bracketed data held input.advance
    return more.widen (Input.reaches_advance _)
termination_by 3 * input.size
decreasing_by
  · have := afterReached.size_le
    simp only [next, after, Input.atEnd_iff, Input.size_advance] at *
    omega
  · have := outputReached.size_le
    simp only [Input.atEnd_iff, Input.size_advanceBy] at *
    omega
  · simp only [Input.atEnd_iff, Input.size_advanceBy] at *
    omega
  · have := tagReached.size_le
    simp only [Input.atEnd_iff, Input.size_advanceBy] at *
    omega
  · simp only [Input.atEnd_iff, Input.size_advance] at *
    omega

/-- A tag in brackets that began at `start`, from its name to after its closing bracket. -/
def bracketedTag (start input : Input) : LinkM (Parsed Nat input) := do
  let named := input.dropWhile isTagWord
  have namedReached : input.Reaches named := Input.reaches_dropWhile ..
  let tag ← alloc .tagLine ⟨start.pos, start.pos⟩ none
  add tag (Token.between .tag input named)
  let parts ← tagParts true tag named
  if parts.rest.isAt ']' then
    let stop := parts.rest.advance
    setSpan tag ⟨start.pos, stop.pos⟩
    return ⟨tag, stop, namedReached.trans (parts.reached.trans (Input.reaches_advance _))⟩
  else fault .inlineTag input.pos
termination_by 3 * input.size + 2
decreasing_by
  have := namedReached.size_le
  simp only [named] at *
  omega

/-- What follows the name of a tag, up to a colon or to the end of the line or the bracket. -/
def tagParts (bracketed : Bool) (data : Nat) (input : Input) : LinkM (Parsed Unit input) :=
  if _nonempty : input.atEnd then return .here input ()
  else if input.isAt ':' then return .here input ()
  else if input.isAt '.' ∨ input.isAt '#' then do
    let word := input.advance
    let after := word.dropWhile isTagWord
    have afterReached : word.Reaches after := Input.reaches_dropWhile ..
    if input.isAt '.' ∧ ¬ word.isClass isTagWord ∧ word.atLineEnd then
      add data (Token.between .trailingDot input word)
      return ⟨(), word, Input.reaches_advance _⟩
    else
      if input.isAt '#' then add data (Token.between .idNote word after)
      else if word.isClass isTagWord then add data (Token.between .classNote word after)
      let more ← tagParts bracketed data after
      return more.widen ((Input.reaches_advance _).trans afterReached)
  else if input.isAt '(' then do
    let list ← attributeList input.advance
    have listReached := list.reached
    append data list.value
    let more ← tagParts bracketed data list.rest
    return more.widen ((Input.reaches_advance _).trans listReached)
  else if input.isAt '&' then do
    let expr ← Inline.readAttributeExpr input
    have exprReached := expr.reached
    add data expr.value
    let more ← tagParts bracketed data expr.rest
    return more.widen ((Input.reaches_advance _).trans exprReached)
  else match marked : Inline.endMark? input with
  | some (kind, next) => do
    add data (Token.between kind input next)
    let after ← Inline.readAfterMark bracketed kind next.skipSpacing
    after.value.forM (add data)
    return (after.map fun _ => ()).widen
      ((Inline.reaches_of_endMark? marked).trans (Input.reaches_skipSpacing _))
  | none => do
    let text ← pieces bracketed data none input.skipSpacing
    return text.widen (Input.reaches_skipSpacing _)
termination_by 3 * input.size + 1
decreasing_by
  · have := afterReached.size_le
    simp only [word, after, Input.atEnd_iff, Input.size_advance] at *
    omega
  · have := listReached.size_le
    simp only [Input.atEnd_iff, Input.size_advance] at *
    omega
  · have := exprReached.size_le
    simp only [Input.atEnd_iff, Input.size_advance] at *
    omega
  · have := Input.size_skipSpacing_le input
    omega

end

/-- Text up to the end of its line. -/
def text (data : Nat) (input : Input) : LinkM (Parsed Unit input) := pieces false data none input

/-! Places on a line. -/

theorem reaches_afterMark (input : Input) : input.Reaches input.advance.skipSpacing :=
  (Input.reaches_advance _).trans (Input.reaches_skipSpacing _)

theorem reaches_afterMarks (count : Nat) (input : Input) : input.Reaches (input.advanceBy count).skipSpacing :=
  (Input.reaches_advanceBy ..).trans (Input.reaches_skipSpacing _)

theorem reaches_comment (input : Input) : input.Reaches (input.advanceBy 2) := Input.reaches_advanceBy ..

theorem reaches_afterComment (input : Input) : input.Reaches (input.advanceBy 3).skipRestOfLine :=
  (Input.reaches_advanceBy ..).trans (Input.reaches_skipRestOfLine _)

theorem reaches_afterWord (input : Input) : input.Reaches (input.dropWhile isTagWord).skipSpacing :=
  (Input.reaches_dropWhile ..).trans (Input.reaches_skipSpacing _)

theorem reaches_afterCall {input : Input}
    (arguments : Parsed (List Token) (input.advance.skipSpacing.dropWhile isTagWord)) :
    input.Reaches arguments.rest.skipSpacing :=
  (reaches_afterMark input).trans ((Input.reaches_dropWhile ..).trans
    (arguments.reached.trans (Input.reaches_skipSpacing _)))

/-! Lines. -/

/-- Makes a line of markup of what is on it, which ends at the place that has been reached. -/
def complete (data : Nat) {start : Input} (parts : Parsed Unit start) : LinkM (Parsed Nat start) := do
  setSpan data ⟨start.pos, parts.rest.pos⟩
  let line ← alloc .line ⟨start.pos, parts.rest.pos⟩ none
  append line data
  return parts.map fun _ => line

/-- What is on a line of markup, before it is known where it ends. -/
def begin (kind : TokenKind) (start : Input) : LinkM Nat := alloc kind ⟨start.pos, start.pos⟩ none

/-- A line of markup with parts that have none of their own. -/
def shallow (kind : TokenKind) {start : Input} (read : Except LexError (Parsed (List Token) start)) :
    LinkM (Parsed Nat start) := do
  let data ← begin kind start
  let parts ← read
  parts.value.forM (add data)
  complete data (parts.map fun _ => ())

/-- A line that is text as a whole. -/
def plain (input : Input) : LinkM (Parsed Nat input) := do
  let data ← begin .textLine input
  complete data (← text data input)

def comment (input : Input) : LinkM (Parsed Nat input) :=
  if input.startsWith ['/', '/', '-'] then
    let text := input.advanceBy 3
    let stop := text.skipRestOfLine
    let parts := Token.between .templateComment input text ::
      if text.atLineEnd then [] else [Token.between .plainText text stop]
    shallow .commentLine (.ok ⟨parts, stop, reaches_afterComment input⟩)
  else do
    let data ← begin .commentLine input
    let start := input.advanceBy 2
    add data (Token.between .htmlComment input start)
    complete data ((← text data start).widen (reaches_comment input))

def piped (input : Input) : LinkM (Parsed Nat input) := do
  let data ← begin .pipedLine input
  add data (Token.mark .pipeMark input)
  complete data ((← text data input.advance.skipSpacing).widen (reaches_afterMark input))

def output (markLength : Nat) (kind : TokenKind) (input : Input) : LinkM (Parsed Nat input) :=
  let start := (input.advanceBy markLength).skipSpacing
  have reached : input.Reaches start := reaches_afterMarks markLength input
  shallow .outputLine do
    if start.atLineEnd then return ⟨[], start, reached⟩
    let output ← Embedded.read .output .outputLine start
    if output.rest.atLineEnd then
      return (output.map fun output => [output.token kind]).widen reached
    else .error ⟨.afterExpr .outputLine, output.rest.pos⟩

def code (lineStart input : Input) : LinkM (Parsed Nat input) :=
  if input.advance.atLineEnd then
    shallow .codeBlock do
      let block ← Code.readBlock (Line.outerIndent lineStart input) none input.advance
      return block.widen (Input.reaches_advance _)
  else
    shallow .codeLine do
      let statements ← Code.readStatements .inline .codeLine input.advance
      return statements.widen (Input.reaches_advance _)

/-- A call of a mixin. Its span is set to that of the name at last. -/
def mixinCall (input : Input) : LinkM (Parsed Nat input) := do
  let name := input.advance.skipSpacing
  let named := name.dropWhile isTagWord
  if !name.isClass isTagWord then fault .mixinName name.pos
  else
    let data ← alloc .mixinCall ⟨name.pos, named.pos⟩ none
    let arguments ← Line.readArguments named
    arguments.value.forM (add data)
    let stop := arguments.rest.skipSpacing
    if stop.atLineEnd then
      let line ← complete data ⟨(), stop, reaches_afterCall arguments⟩
      setSpan data ⟨name.pos, named.pos⟩
      return line
    else fault (.afterExpr .mixinCall) stop.pos

/-- A line that is no line of markup: a statement, with the variables of a loop in it. -/
def statement {start : Input} (read : Except LexError (Parsed Token start)) : LinkM (Parsed Nat start) := do
  let read ← read
  let place ← whole read.value
  return read.map fun _ => place

/-- What follows the name of a tag: text after spacing, else notes and attributes first. -/
def afterName (data : Nat) (input : Input) : LinkM (Parsed Unit input) :=
  if input.isClass isSpacing then do
    let parts ← text data input.skipSpacing
    return parts.widen (Input.reaches_skipSpacing _)
  else tagParts false data input

/-- A line that begins with a letter: a statement if its word is a keyword, else a tag. -/
def word (input : Input) : LinkM (Parsed Nat input) := do
  let word := String.ofList (input.takeWhile isTagWord)
  let stop := input.dropWhile isTagWord
  let after := stop.skipSpacing
  have stopReached : input.Reaches stop := Input.reaches_dropWhile ..
  have afterReached : input.Reaches after := reaches_afterWord input
  let spaced := stop.isClass isSpacing
  match if spaced then Line.Keyword.table.lookup word else none with
  | some keyword => return (← statement (Line.readKeyword keyword input after)).widen afterReached
  | none =>
    if spaced && word == "else" && after.startsWith ['i', 'f'] then
      return (← statement (Line.readElseIf input after)).widen afterReached
    else if word = "else" then
      return (← statement (Line.readAlone .elseControl .elseLine input stop after)).widen afterReached
    else if word = "default" then
      return (← statement (Line.readAlone .defaultControl .defaultLine input stop after)).widen afterReached
    else if word = "doctype" ∧ after.atLineEnd then
      statement (.ok ⟨Token.mark .doctype after, after, afterReached⟩)
    else
      let data ← begin .tagLine input
      add data (Token.between .tag input stop)
      complete data ((← afterName data stop).widen stopReached)

/-- A tag without a name, from its first note on. -/
def nameless (input : Input) : LinkM (Parsed Nat input) := do
  let data ← begin .tagLine input
  add data (Token.mark .tag input)
  complete data (← tagParts false data input)

/-- One line of markup after its indentation. `lineStart` is where the line begins, or the line that this
one is chained to. -/
def line (lineStart input : Input) : LinkM (Parsed Nat input) :=
  let named := input.isClassAt isTagWord 1
  if input.startsWith ['/', '/'] then comment input
  else if input.isClass isLatin then word input
  else if named && input.isClass fun char =>
      char == '.' || char == '#' || char == '(' || char == '&' then
    nameless input
  else if input.isAt '.' && (input.advance.atLineEnd || input.advance.isAt '\x00') then
    shallow .dotLine (.ok ⟨[Token.between .trailingDot input input.advance], input.advance,
      Input.reaches_advance _⟩)
  else if input.isAt '|' then piped input
  else if input.isAt '=' then output 1 .escapedOutput input
  else if input.startsWith ['!', '='] then output 2 .rawOutput input
  else if input.isAt '-' then code lineStart input
  else if input.isAt '+' then mixinCall input
  else if input.isAt '<' then
    shallow .textLine (.ok ⟨[], input.skipRestOfLine, Input.reaches_skipRestOfLine _⟩)
  else fault .unknownLine input.pos

/-! Whole templates. -/

/-- Where the lines that are read next belong. -/
structure Nesting where
  unit : Option IndentUnit
  /-- The lines that are open, the innermost one first, after them the root. -/
  parents : List Nat
  /-- The innermost one of the lines chained to the last line. -/
  chained : Option Nat

namespace Nesting

def start : Nesting := { unit := none, parents := [0], chained := none }

/-- Where the next line belongs if it is as deep as the last one. -/
def parent (nesting : Nesting) : Nat := nesting.parents.headD 0

/-- The depth of the last line. -/
def depth (nesting : Nesting) : Nat := nesting.parents.length - 1

/-- Opens the last line, or closes the lines that a line of this depth is not nested in. -/
def open? (nesting : Nesting) (slots : Slots) (depth : Nat) : Option Nesting :=
  if depth = nesting.depth + 1 then
    (nesting.chained.or (slots.lastLine? nesting.parent)).map fun last =>
      { nesting with parents := last :: nesting.parents }
  else if depth ≤ nesting.depth then
    some { nesting with parents := nesting.parents.drop (nesting.depth - depth) }
  else none

/-- The place of a line with some spacing before it. -/
def enter (nesting : Nesting) (slots : Slots) (spacing : List Char) : Except LexFault Nesting := do
  let (depth, unit) ← { Outline.start with unit := nesting.unit }.measure spacing
  match { nesting with unit }.open? slots depth with
  | some entered => return entered
  | none => .error .wrongIndent

end Nesting

/-- The lines chained to a line, each after a colon and in the one before it. Gives the last one. -/
def chained (lineStart : Input) (line : Nat) (last : Option Nat) (input : Input) :
    LinkM (Parsed (Option Nat) input) :=
  if colon : input.isAt ':' then do
    let start := input.advance.skipSpacing
    have later : input.Passes start := (Input.passes_advance_of_isClass colon).of_reaches
      (Input.reaches_skipSpacing _)
    if start.atLineEnd then return ⟨last, start, later.1⟩
    else
      let next ← Linking.line lineStart start
      have nextReached := next.reached
      append line next.value
      let more ← chained lineStart next.value (some next.value) next.rest
      return more.widen (later.1.trans nextReached)
  else return .here input last
termination_by input.size
decreasing_by exact (later.of_reaches nextReached).2

/-- One line of the source and the lines chained to it. Gives the innermost one of these. -/
def row (parent : Nat) (lineStart input : Input) : LinkM (Parsed (Option Nat) input) := do
  if (← get).nestsText parent then
    let line ← plain input
    append parent line.value
    return line.map fun _ => none
  else
    let line ← Linking.line lineStart input
    append parent line.value
    let chained ← chained lineStart line.value none line.rest
    return chained.widen line.reached

/-- The lines of a source; blank ones are left out. -/
def rows (nesting : Nesting) (input : Input) : LinkM Unit :=
  if _atEnd : input.atEnd then return
  else do
    let content := input.skipSpacing
    have _contentReached : input.Reaches content := Input.reaches_skipSpacing _
    if content.atLineEnd then rows nesting (Document.finishLine content)
    else match nesting.enter (← get) (input.takeWhile isSpacing) with
      | .error wrong => fault wrong input.pos
      | .ok entered => do
        let last ← row entered.parent input content
        have _lastReached := last.reached
        rows { entered with chained := last.value } (Document.finishLine last.rest)
termination_by input.size
decreasing_by
  · rw [Input.atEnd_iff] at _atEnd
    exact Document.size_finishLine_lt_of_reaches (by omega) _contentReached
  · rw [Input.atEnd_iff] at _atEnd
    exact Document.size_finishLine_lt_of_reaches (by omega) (_contentReached.trans _lastReached)

end Linking

/-- The parts of a template, in the order in which they have been made. The root is the first one. -/
def Slots.ofSource (source : List Char) : Except LexError Slots := do
  let (_, slots) ← (Linking.rows .start (.ofText source)).run [.lone .root ⟨0, byteLength source⟩ none]
  return slots

end HtmlTemplate
