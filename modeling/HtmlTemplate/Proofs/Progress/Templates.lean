import HtmlTemplate.Proofs.Progress.Loops
import HtmlTemplate.Proofs.Respelling.Nesting

/-! The loops of the readers of lines, round by round, and the whole of a template: no source keeps its readers
busy for ever. -/

namespace HtmlTemplate.Progress

open CharClass Document Respelling

/-! Code. -/

/-- Statements up to the end of a line. -/
def statements (options : ParseOptions) (place : ExprPlace) : Loop Input (Except LexError (List Token × Input)) where
  place := id
  round input :=
    let start := input.skipSpacing
    if start.atLineEnd then .ended (.ok ([], start))
    else .attempt (Embedded.read options place start) fun statement =>
      if statement.rest.isAt ';' then .again statement.rest.advance (changed (statement.value.token .code :: ·))
      else if statement.rest.atLineEnd then .ended (.ok ([statement.value.token .code], statement.rest))
      else .ended (.error ⟨.afterExpr place, statement.rest.pos⟩)

theorem statements_drives (options : ParseOptions) (place : ExprPlace) :
    (statements options place).Drives fun input => bare (Code.readStatements options place input) := by
  constructor
  · intro input
    dsimp only [statements]
    rw [Code.readStatements, Round.close_ite, Round.close_attempt]
    dsimp only
    rw [bare_ite, bare_bind]
    refine ite_congr rfl (fun _ => rfl) fun _ => congrArg _ (funext fun statement => ?_)
    rw [Round.close_ite, Round.close_ite]
    split
    · exact bare_changed _ _ _
    · exact bare_ite ..
  · intro input
    refine .ite (fun _ => trivial) fun _ => .attempt fun statement _ => ?_
    refine .ite (fun again => ?_) fun _ => .ite (fun _ => trivial) fun _ => trivial
    exact ((Input.reaches_skipSpacing input).trans statement.reached).passes (Input.passes_advance_of_isClass again)

/-- Blank lines before the next line. -/
def nextLines : Loop Input (Option Input) where
  place := id
  round input :=
    match input.eatNewline? with
    | none => .ended none
    | some start =>
      if start.skipSpacing.atEnd then .ended none
      else if start.skipSpacing.isClass isLineEnd then .again start.skipSpacing id
      else .ended (some start)

theorem nextLines_drives : nextLines.Drives Code.nextLine? := by
  constructor
  · intro input
    dsimp only [nextLines]
    rw [nextLine_eq]
    cases input.eatNewline? with
    | none => rfl
    | some start => rw [Option.bind_some, Round.close_ite, Round.close_ite]; rfl
  · intro input
    dsimp only [nextLines]
    split
    · trivial
    · rename_i start eaten
      refine .ite (fun _ => trivial) fun _ => .ite (fun _ => ?_) fun _ => trivial
      exact (Input.passes_of_eatNewline? eaten).of_reaches (Input.reaches_skipSpacing start)

/-- The lines of a block. -/
def blockLines (outer : List Char) : Loop (Option (List Char) × Input) (Except LexError (List Token × Input)) where
  place := Prod.snd
  round := fun (indent, input) =>
    match Code.nextLine? input with
    | none => .ended (.ok ([], input))
    | some start =>
      let spacing := start.takeWhile isSpacing
      let block := indent.getD spacing
      if block.isPrefixOf spacing && Code.isDeeper outer block then
        let continuation := Code.lastLineBreak (input.textTo start.pos) ++ block
        .attempt (Code.readStatements (.continuedBy continuation) .codeBlock (start.advanceBy block.length)) fun line =>
          .again (some block, line.rest) (changed (line.value ++ ·))
      else .ended (.ok ([], input))

theorem blockLines_drives (outer : List Char) :
    (blockLines outer).Drives fun (indent, input) => bare (Code.readBlock outer indent input) := by
  constructor
  · rintro ⟨indent, input⟩
    dsimp only [blockLines]
    cases found : Code.nextLine? input with
    | none =>
      rw [readBlock_ended outer indent found]
      rfl
    | some start =>
      obtain ⟨reached, whole⟩ := readBlock_line outer indent found
      rw [whole, bare_ite, bare_bind, Round.close_ite, Round.close_attempt]
      refine ite_congr rfl (fun _ => congrArg _ (funext fun line => ?_)) fun _ => rfl
      exact bare_changed _ _ _
  · rintro ⟨indent, input⟩
    dsimp only [blockLines]
    split
    · trivial
    · rename_i start found
      refine .ite (fun _ => .attempt fun line _ => ?_) fun _ => trivial
      exact (Code.passes_of_nextLine? found).of_reaches ((Input.reaches_advanceBy ..).trans line.reached)

/-! Tags and their attributes. -/

/-- The pieces of a name in quotes. -/
def quotedPieces (quote : Char) (start : Nat) : Loop Input (Except LexError (List Token × Input)) where
  place := id
  round input :=
    let stop := input.dropWhile (isPlain quote)
    match stop.rest with
    | [] => .ended (.error ⟨.attributeName, start⟩)
    | char :: rest =>
      if char = quote then .ended (.ok (piece quote input, stop.advance))
      else if rest.isEmpty then .ended (.error ⟨.attributeName, start⟩)
      else .again stop.advance.advance
        (changed (piece quote input ++ Token.between .plainText stop.advance stop.advance.advance :: ·))

theorem quotedPieces_drives (quote : Char) (start : Nat) :
    (quotedPieces quote start).Drives fun input => bare (Attribute.readQuoted quote start input) := by
  constructor
  · intro input
    dsimp only [quotedPieces]
    cases rest : (input.dropWhile (isPlain quote)).rest with
    | nil =>
      rw [readQuoted_ended start rest]
      rfl
    | cons char more =>
      dsimp only
      rw [Round.close_ite, Round.close_ite]
      by_cases closes : char = quote
      · subst closes
        obtain ⟨reached, whole⟩ := readQuoted_closed start rest
        rw [whole, if_pos rfl]
        rfl
      · rw [if_neg closes]
        cases more with
        | nil =>
          rw [readQuoted_broken start closes rest]
          rfl
        | cons next text =>
          obtain ⟨reached, whole⟩ := readQuoted_escaped start closes rest
          rw [whole]
          exact bare_changed _ _ _
  · intro input
    dsimp only [quotedPieces]
    split
    · trivial
    · rename_i char more rest
      have begun : 0 < (input.dropWhile (isPlain quote)).size := by simp [Input.size, rest]
      refine .ite (fun _ => trivial) fun _ => .ite (fun _ => trivial) fun _ => ?_
      exact (Input.reaches_dropWhile ..).passes ((Input.passes_advance begun).of_reaches (Input.reaches_advance _))

/-- The pairs of an attribute list. -/
def pairs : Loop Input (Except LexError (List Token × Input)) where
  place := id
  round input :=
    if input.atEnd ∨ input.isAt ')' then .ended (.ok ([], input))
    else .attempt (Attribute.readPair input) fun pair =>
      .again (Attribute.skipSeparator pair.rest) (changed (pair.value :: ·))

theorem pairs_drives : pairs.Drives fun input => bare (Attribute.readPairs input) := by
  constructor
  · intro input
    dsimp only [pairs]
    rw [Attribute.readPairs, Round.close_ite, Round.close_attempt, bare_ite, bare_bind]
    refine ite_congr rfl (fun _ => rfl) fun _ => congrArg _ (funext fun pair => ?_)
    exact bare_changed _ _ _
  · intro input
    refine .ite (fun _ => trivial) fun goesOn => .attempt fun pair _ => ?_
    have more : 0 < input.size := size_pos_of_atEnd fun atEnd => goesOn (.inl atEnd)
    exact (Input.passes_advance more).of_reaches (pair.reached.trans (Attribute.reaches_skipSeparator _))

/-- Text, one character or one part of it after the other. -/
def pieces (bracketed : Bool) : Loop Input (Except LexError (List Piece × Input)) where
  place := id
  round input :=
    if Inline.ends bracketed input then .ended (.ok ([], input))
    else if input.isAt '\\' then .again (Inline.afterEscape input) (changed (Inline.escapePiece input :: ·))
    else match Inline.outputMark? input with
      | some kind => .attempt (Inline.readOutput kind (input.advanceBy 2)) fun output =>
        .again output.rest (changed (.part output.value :: ·))
      | none =>
        if input.startsWith ['#', '['] then
          .attempt (Inline.readBracketedTag input (input.advanceBy 2)) fun tag =>
            .again tag.rest (changed (.part tag.value :: ·))
        else .again input.advance (changed (.literal input.pos (input.rest.take 1) :: ·))

theorem pieces_drives (bracketed : Bool) :
    (pieces bracketed).Drives fun input => bare (Inline.readPieces bracketed input) := by
  constructor
  · intro input
    dsimp only [pieces]
    cases ended : Inline.ends bracketed input with
    | true =>
      rw [Inline.readPieces_ended ended]
      rfl
    | false =>
      rw [if_neg Bool.false_ne_true]
      cases escapes : input.isAt '\\' with
      | true =>
        obtain ⟨reached, whole⟩ := Inline.readPieces_escaped ended escapes
        rw [whole]
        exact bare_changed _ _ _
      | false =>
        rw [if_neg Bool.false_ne_true]
        cases marked : Inline.outputMark? input with
        | some kind =>
          obtain ⟨reached, whole⟩ := Inline.readPieces_output ended escapes marked
          dsimp only
          rw [whole, bare_bind, Round.close_attempt]
          exact congrArg _ (funext fun output => bare_changed _ _ _)
        | none =>
          dsimp only
          cases opens : input.startsWith ['#', '['] with
          | true =>
            obtain ⟨reached, whole⟩ := Inline.readPieces_tag ended escapes marked opens
            rw [whole, bare_bind, if_pos rfl, Round.close_attempt]
            exact congrArg _ (funext fun tag => bare_changed _ _ _)
          | false =>
            rw [Inline.readPieces_char ended escapes marked opens]
            exact bare_changed _ _ _
  · intro input
    refine .ite (fun _ => trivial) fun goesOn => ?_
    rw [Bool.not_eq_true] at goesOn
    have more : 0 < input.size := size_pos_of_atEnd (by rw [Inline.atEnd_of_ends goesOn]; decide)
    have advanced := Input.passes_advance more
    have two : input.Passes (input.advanceBy 2) := advanced.of_reaches (Input.reaches_advance _)
    refine .ite (fun _ => ?_) fun _ => ?_
    · change input.Passes (Inline.afterEscape input)
      unfold Inline.afterEscape
      split
      · exact advanced.of_reaches (Input.reaches_advanceBy ..)
      · exact advanced.of_reaches (Input.reaches_advance _)
    · split
      · exact .attempt fun output _ => two.of_reaches output.reached
      · exact .ite (fun _ => .attempt fun tag _ => two.of_reaches tag.reached) fun _ => advanced

/-- The notes, lists and marks of a tag, and the text after them. -/
def tagParts (bracketed : Bool) : Loop Input (Except LexError (List Token × Input)) where
  place := id
  round input :=
    if input.atEnd then .ended (.ok ([], input))
    else if input.isAt ':' then .ended (.ok ([], input))
    else if input.isAt '.' ∨ input.isAt '#' then
      let word := input.advance
      let after := word.dropWhile isTagWord
      if input.isAt '.' ∧ ¬ word.isClass isTagWord ∧ word.atLineEnd then
        .ended (.ok ([Token.between .trailingDot input word], word))
      else
        let note := if input.isAt '#' then [Token.between .idNote word after]
          else if word.isClass isTagWord then [Token.between .classNote word after]
          else []
        .again after (changed (note ++ ·))
    else if input.isAt '(' then
      .attempt (Attribute.readList input.advance) fun list => .again list.rest (changed (list.value :: ·))
    else if input.isAt '&' then
      .attempt (Inline.readAttributeExpr input) fun expr => .again expr.rest (changed (expr.value :: ·))
    else match Inline.endMark? input with
      | some (kind, next) =>
        .ended (changed (Token.between kind input next :: ·)
          (bare (Inline.readAfterMark bracketed kind next.skipSpacing)))
      | none =>
        .ended (bare ((Inline.readPieces bracketed input.skipSpacing).map
          (·.map fun pieces => (Piece.join pieces).map Piece.token)))

theorem tagParts_drives (bracketed : Bool) :
    (tagParts bracketed).Drives fun input => bare (Inline.readTagParts bracketed input) := by
  constructor
  · intro input
    dsimp only [tagParts]
    rw [Inline.readTagParts, dite_eq_ite]
    iterate 3 rw [bare_ite, Round.close_ite]
    refine ite_congr rfl (fun _ => rfl) fun _ => ite_congr rfl (fun _ => rfl) fun _ => ?_
    refine ite_congr rfl (fun _ => ?_) fun _ => ?_
    · dsimp only
      rw [bare_ite, Round.close_ite]
      exact ite_congr rfl (fun _ => rfl) fun _ => bare_changed _ _ _
    · iterate 2 rw [bare_ite, bare_bind, Round.close_ite, Round.close_attempt]
      refine ite_congr rfl (fun _ => congrArg _ (funext fun list => bare_changed _ _ _)) fun _ => ?_
      refine ite_congr rfl (fun _ => congrArg _ (funext fun expr => bare_changed _ _ _)) fun _ => ?_
      split
      · rename_i marked
        refine (bare_changed _ _ _).trans ?_
        simp only [marked, Round.close]
      · rename_i unmarked
        simp only [unmarked, Round.close]
        cases Inline.readPieces bracketed input.skipSpacing <;> rfl
  · intro input
    refine .ite (fun _ => trivial) fun goesOn => .ite (fun _ => trivial) fun _ => ?_
    have advanced := Input.passes_advance (size_pos_of_atEnd goesOn)
    refine .ite (fun _ => .ite (fun _ => trivial) fun _ => ?_) fun _ => ?_
    · exact advanced.of_reaches (Input.reaches_dropWhile ..)
    · refine .ite (fun _ => .attempt fun list _ => advanced.of_reaches list.reached) fun _ => ?_
      refine .ite (fun _ => .attempt fun expr _ => advanced.of_reaches expr.reached) fun _ => ?_
      split <;> trivial

/-! Lines. -/

/-- Lines chained to one another. -/
def chain (lineStart : Input) : Loop Input (Except LexError (List Token × Input)) where
  place := id
  round input :=
    if input.isAt ':' then
      let start := input.advance.skipSpacing
      if start.atLineEnd then .ended (.ok ([], start))
      else .attempt (Line.read lineStart start) fun line => .again line.rest (changed (line.value :: ·))
    else .ended (.ok ([], input))

theorem chain_drives (lineStart : Input) :
    (chain lineStart).Drives fun input => bare (Document.readChained lineStart input) := by
  constructor
  · intro input
    dsimp only [chain]
    rw [Document.readChained, Round.close_ite]
    split
    · dsimp only
      rw [Round.close_ite, Round.close_attempt, bare_ite, bare_bind]
      refine ite_congr rfl (fun _ => rfl) fun _ => congrArg _ (funext fun line => ?_)
      exact bare_changed _ _ _
    · rfl
  · intro input
    refine .ite (fun colon => .ite (fun _ => trivial) fun _ => .attempt fun line _ => ?_) fun _ => trivial
    exact (Input.passes_advance_of_isClass colon).of_reaches ((Input.reaches_skipSpacing _).trans line.reached)

/-- The lines of a source. -/
def rows : Loop (Outline × Input) (Except LexError (List Row)) where
  place := Prod.snd
  round := fun (outline, input) =>
    if input.atEnd then .ended (.ok [])
    else if input.skipSpacing.atLineEnd then .again (outline, finishLine input.skipSpacing) id
    else match outline.enter (input.takeWhile isSpacing) with
      | .error fault => .ended (.error ⟨fault, input.pos⟩)
      | .ok entered => .attempt (readRow entered input input.skipSpacing) fun row =>
        .again ({ entered with last := some row.value.innermost.nestsText }, finishLine row.rest)
          (Except.map (row.value :: ·))

theorem rows_drives : rows.Drives fun (outline, input) => readRows outline input := by
  constructor
  · rintro ⟨outline, input⟩
    dsimp only [rows]
    rw [readRows_eq, Round.close_ite, Round.close_ite]
    refine ite_congr rfl (fun _ => rfl) fun _ => ite_congr rfl (fun _ => rfl) fun _ => ?_
    cases outline.enter (input.takeWhile isSpacing) with
    | error fault => rfl
    | ok entered =>
      dsimp only
      rw [Round.close_attempt]
      rfl
  · rintro ⟨outline, input⟩
    have passes (atEnd : ¬ input.atEnd = true) {stop : Input} (reached : input.Reaches stop) :
        input.Passes (finishLine stop) :=
      ⟨reached.trans (Offsets.reaches_finishLine stop),
        size_finishLine_lt_of_reaches (size_pos_of_atEnd atEnd) reached⟩
    refine .ite (fun _ => trivial) fun atEnd => .ite (fun _ => ?_) fun _ => ?_
    · exact passes atEnd (Input.reaches_skipSpacing input)
    · split
      · trivial
      · exact .attempt fun row _ => passes atEnd ((Input.reaches_skipSpacing input).trans row.reached)

/-! All readers. -/

/-- The loops of the readers of expressions, each with what it reads. -/
structure ExprLoops (options : ParseOptions) : Prop where
  characters : ∀ class?, (dropping class?).Halts (Input.dropWhile class?)
  gaps : ∀ complete, (skipping options.continuation complete).Halts fun (lineEnd, input) =>
    Gap.skipContinued options.continuation complete lineEnd input
  strings : ∀ quote start, (Progress.characters quote start).Halts fun (read, input) =>
    bare (Literal.readChars quote start read input)
  prefixes : ∀ op, (leading options op).Halts fun input => bare (Parser.readLed options op input)
  operators : ∀ close, (Progress.operators options close).Halts fun (tree, input) =>
    bare (Parser.readOperators options close tree input)

/-- The loops of the readers of lines, each with what it reads. -/
structure LineLoops : Prop where
  lines : rows.Halts fun (outline, input) => readRows outline input
  chained : ∀ lineStart, (chain lineStart).Halts fun input => bare (readChained lineStart input)
  tagInfo : ∀ bracketed, (tagParts bracketed).Halts fun input => bare (Inline.readTagParts bracketed input)
  attributes : pairs.Halts fun input => bare (Attribute.readPairs input)
  quotedNames : ∀ quote start,
    (quotedPieces quote start).Halts fun input => bare (Attribute.readQuoted quote start input)
  text : ∀ bracketed, (pieces bracketed).Halts fun input => bare (Inline.readPieces bracketed input)
  statements : ∀ options place, (Progress.statements options place).Halts fun input =>
    bare (Code.readStatements options place input)
  codeLines : ∀ outer, (blockLines outer).Halts fun (indent, input) => bare (Code.readBlock outer indent input)
  blankLines : nextLines.Halts Code.nextLine?

/-- No source keeps its readers busy for ever. From the end of any part of a source on, an expression ends there or
later, whether it can be read or not, and not after the end of the source. The lines of a source are read in no more
rounds than it has characters, and one. In every loop of the readers, whatever an expression may go on with in the
next line, each round ends the loop or goes on past the place where the round began, and the loop ends. -/
theorem readers_halt :
    (∀ (options : ParseOptions) (before after : List Char), ∃ stop,
      byteLength before ≤ stop ∧ stop ≤ byteLength (before ++ after) ∧ IsBoundary (before ++ after) stop ∧
        ((∃ tree, Expr.parseAt options (before ++ after) (byteLength before) = .ok (tree, stop)) ∨
          ∃ error, Expr.parseAt options (before ++ after) (byteLength before) = .error error ∧ error.reached = stop)) ∧
    (∀ source : List Char, ∃ outcome, rows.run (source.length + 1) (.start, .ofText source) = some outcome ∧
      Token.ofSource source = outcome.map fun lines =>
        { kind := .root, span := ⟨0, byteLength source⟩, text := String.ofList source, expr := none,
          children := (Row.nest lines).map Prod.snd }) ∧
    (∀ options : ParseOptions, ExprLoops options) ∧ LineLoops := by
  refine ⟨fun options before after => ?_, fun source => ?_, fun options => ?_, ?_⟩
  · obtain ⟨stop, ordered, boundary, ends⟩ := parseAt_ends options before after
    exact ⟨stop, ordered, boundary.le, boundary, ends⟩
  · refine ⟨readRows .start (.ofText source), rows_drives.halts.ends (.start, .ofText source), ?_⟩
    rw [Token.ofSource]
    cases readRows .start (.ofText source) <;> rfl
  · exact
      { characters := fun class? => (dropping_drives class?).halts
        gaps := fun complete => (skipping_drives options.continuation complete).halts
        strings := fun quote start => (characters_drives quote start).halts
        prefixes := fun op => (leading_drives options op).halts
        operators := fun close => (operators_drives options close).halts }
  · exact
      { lines := rows_drives.halts
        chained := fun lineStart => (chain_drives lineStart).halts
        tagInfo := fun bracketed => (tagParts_drives bracketed).halts
        attributes := pairs_drives.halts
        quotedNames := fun quote start => (quotedPieces_drives quote start).halts
        text := fun bracketed => (pieces_drives bracketed).halts
        statements := fun options place => (statements_drives options place).halts
        codeLines := fun outer => (blockLines_drives outer).halts
        blankLines := nextLines_drives.halts }

end HtmlTemplate.Progress
