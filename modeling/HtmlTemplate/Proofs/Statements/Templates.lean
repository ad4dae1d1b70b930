import HtmlTemplate.Proofs.Building.Weaving
import HtmlTemplate.Proofs.Relining.Blocks
import HtmlTemplate.Proofs.Statements.Reading
import HtmlTemplate.Template.Source

/-! Templates of some statements, written on lines of their own, on one line and as a block. All of them are compiled
to the statements one after the other. -/

namespace HtmlTemplate.Statements

open Builder Building CharClass Code Compilation Document Reading Relining

variable {options : ParseOptions} {mark last tail : List Char}

/-- The end of the source or of a line comes next. -/
def Ended (tail : List Char) : Prop := ∀ char ∈ tail.head?, isLineEnd char = true

theorem Ended.follows (ended : Ended tail) : Follows tail := by
  intro char member
  rcases Bool.or_eq_true_iff.mp (ended char member) with same | same <;> simp [beq_iff_eq.mp same]

theorem Ended.atLineEnd (ended : Ended tail) {input : Input} (rest : input.rest = tail) : input.atLineEnd = true := by
  rw [Input.atLineEnd, Input.atEnd, rest]
  cases tail with
  | nil => rfl
  | cons char more => rw [isClass_eq rest, ended char rfl, Bool.or_true]

theorem Ended.isAt (ended : Ended tail) {char : Char} (within : isLineEnd char = false) {input : Input}
    (rest : input.rest = tail) : input.isAt char = false := by
  refine Bool.eq_false_iff.mpr fun here => ?_
  obtain ⟨other, more, same⟩ := List.exists_cons_of_ne_nil (Input.rest_ne_nil_of_isClass here)
  rw [Input.isAt, isClass_eq same] at here
  obtain rfl := beq_iff_eq.mp here
  rw [ended other (by rw [← rest, same]; rfl)] at within
  cases within

theorem ended_break {text : List Char} (ends : Break mark text) (more : List Char) : Ended (mark ++ more) := by
  obtain ⟨char, rest, rfl, lineEnd⟩ := ends.cons
  rintro _ ⟨⟩
  exact lineEnd

/-- What may stand after the last line: nothing or a line terminator. -/
def Final (last : List Char) : Prop := last = [] ∨ Break last []

theorem Final.ended (final : Final last) : Ended last := by
  rcases final with rfl | ends
  · exact nofun
  · exact List.append_nil last ▸ ended_break ends []

/-- A terminator may stand before anything but a newline. -/
theorem break_before (ends : Break mark []) {char : Char} (other : char ≠ '\n') (text : List Char) :
    Break mark (char :: text) :=
  ends.moved fun _ same => other (Option.some.inj same)

/-! Statements on one line. -/

/-- Statements after the first one. -/
def following (statements : List Statement) : List Char :=
  statements.flatMap fun statement => [';', ' '] ++ statement.text

/-- What the tokens of some statements hold. -/
def Holds (statements : List Statement) (tokens : List Token) : Prop :=
  tokens.map Token.expr = statements.map fun statement => some statement.tree

theorem readStatements_following (suits : Suits options) (ended : Ended tail) (place : ExprPlace)
    (first : Statement) (rest : List Statement) {input : Input}
    (same : input.skipSpacing.rest = first.text ++ (following rest ++ tail)) :
    ∃ parsed, readStatements options place input = .ok parsed ∧ Holds (first :: rest) parsed.value ∧
      parsed.rest.rest = tail := by
  rw [readStatements_begun options place (first.begun same).2]
  induction rest generalizing first input with
  | nil =>
    obtain ⟨statement, read, tree, left⟩ := first.found suits ended.follows place same
    rw [read]
    refine ⟨(statement.map fun statement => [statement.token .code]).widen (Input.reaches_skipSpacing input), ?_, ?_,
      left⟩
    · exact (dif_neg (Bool.eq_false_iff.mp (ended.isAt rfl left))).trans (if_pos (ended.atLineEnd left))
    · exact congrArg (fun tree => [some tree]) tree
  | cons second rest step =>
    have follows : Follows (following (second :: rest) ++ tail) := by
      rintro _ ⟨⟩
      exact List.mem_cons_self
    obtain ⟨statement, read, tree, left⟩ := first.found suits follows place same
    have separated : following (second :: rest) ++ tail = ';' :: ' ' :: (second.text ++ (following rest ++ tail)) := by
      simp [following]
    rw [separated] at left
    have again : statement.rest.isAt ';' = true := isClass_eq left _
    have space : statement.rest.advance.rest = ' ' :: (second.text ++ (following rest ++ tail)) := by
      rw [rest_advance, left, List.tail_cons]
    have later : statement.rest.advance.skipSpacing.rest = second.text ++ (following rest ++ tail) := by
      have after : statement.rest.advance.advance.rest = second.text ++ (following rest ++ tail) := by
        rw [rest_advance, space, List.tail_cons]
      rw [Elements.rest_skipSpacing_space space, (second.begun after).1, after]
    obtain ⟨more, goesOn, held, stops⟩ := step second later
    rw [← readStatements_begun options place (second.begun later).2] at goesOn
    rw [read]
    refine ⟨_, (dif_pos again).trans (congrArg (Except.map _) goesOn), ?_, stops⟩
    exact congrArg₂ List.cons (congrArg some tree) held

/-! Lines. -/

/-- A line of markup that is code with the statements. -/
def IsCode (statements : List Statement) (line : Token) : Prop :=
  ∃ data, line.kind = .line ∧ line.children = [data] ∧ (data.kind = .codeLine ∨ data.kind = .codeBlock) ∧
    Holds statements data.children

/-- Statements on one line. -/
theorem read_following (ended : Ended tail) (first : Statement) (rest : List Statement) (lineStart : Input)
    {input : Input} (same : input.rest = '-' :: ' ' :: (first.text ++ (following rest ++ tail))) :
    ∃ line, Line.read lineStart input = .ok line ∧ IsCode (first :: rest) line.value ∧ line.rest.rest = tail := by
  have space : input.advance.rest = ' ' :: (first.text ++ (following rest ++ tail)) := by
    rw [rest_advance, same, List.tail_cons]
  have begins : input.advance.skipSpacing.rest = first.text ++ (following rest ++ tail) := by
    have after : input.advance.advance.rest = first.text ++ (following rest ++ tail) := by
      rw [rest_advance, space, List.tail_cons]
    rw [Elements.rest_skipSpacing_space space, (first.begun after).1, after]
  obtain ⟨statements, read, held, left⟩ := readStatements_following suits_inline ended .codeLine first rest begins
  rw [read_code same, read]
  exact ⟨_, rfl, ⟨_, rfl, rfl, .inl rfl, held⟩, left⟩

/-! Blocks. -/

/-- Statements on lines of their own that are indented by a tab. -/
def indented (mark : List Char) (statements : List Statement) : List Char :=
  statements.flatMap fun statement => mark ++ '\t' :: statement.text

theorem ended_indented (ends : Break mark []) (statements : List Statement) (final : Final last) :
    Ended (indented mark statements ++ last) := by
  cases statements with
  | nil => exact final.ended
  | cons statement rest =>
    rw [indented, List.flatMap_cons, List.append_assoc, List.append_assoc]
    exact ended_break ends _

/-- No line comes after the last one. -/
theorem nextLine_final (final : Final last) {input : Input} (rest : input.rest = last) : nextLine? input = none := by
  rcases final with rfl | ends
  · obtain ⟨pos, _⟩ := input
    obtain rfl := rest
    rw [Respelling.nextLine_eq]
    rfl
  · obtain ⟨start, -, nothing, next⟩ := nextLine_break ends (rest.trans (List.append_nil last).symm)
    have none : start.skipSpacing.atEnd = true := by
      rw [Input.atEnd, Input.skipSpacing, Input.rest_dropWhile, nothing]
      rfl
    rw [next, if_pos none]

/-- Where the line of a statement begins. -/
theorem nextLine_indented (ends : Break mark []) (statement : Statement) {input : Input}
    (same : input.rest = mark ++ '\t' :: (statement.text ++ tail)) :
    ∃ start, nextLine? input = some start ∧ start.rest = '\t' :: (statement.text ++ tail) := by
  obtain ⟨start, -, begins, next⟩ := nextLine_break (break_before ends (by decide) _) same
  refine ⟨start, ?_, begins⟩
  have after : start.advance.rest = statement.text ++ tail := by rw [rest_advance, begins, List.tail_cons]
  have spaced : start.skipSpacing.rest = statement.text ++ tail := by
    rw [← after, ← (statement.begun after).1, Input.skipSpacing, Input.skipSpacing, Input.rest_dropWhile,
      Input.rest_dropWhile, rest_advance, begins]
    rfl
  have within := (statement.begun spaced).2
  rw [Input.atLineEnd, Bool.or_eq_true, not_or] at within
  rw [next, if_neg within.1, if_neg within.2]

/-- The block of some statements. -/
theorem readBlock_indented (ends : Break mark []) (final : Final last) (statements : List Statement)
    (indent : Option (List Char)) (tab : ∀ block ∈ indent, block = ['\t']) {input : Input}
    (same : input.rest = indented mark statements ++ last) :
    ∃ parsed, readBlock [] indent input = .ok parsed ∧ Holds statements parsed.value ∧ parsed.rest.rest = last := by
  induction statements generalizing indent input with
  | nil =>
    have none := nextLine_final final same
    rw [Respelling.readBlock_ended _ _ none]
    exact ⟨_, rfl, rfl, same⟩
  | cons statement rest step =>
    have ended := ended_indented ends rest final
    have whole : input.rest = mark ++ '\t' :: (statement.text ++ (indented mark rest ++ last)) := by
      simp [same, indented]
    obtain ⟨start, next, begins⟩ := nextLine_indented ends statement whole
    have spacing : start.takeWhile isSpacing = ['\t'] := by
      obtain ⟨char, text, begun, visible⟩ := statement.begins
      rw [Input.takeWhile, begins, begun, List.takeWhile_cons_of_pos rfl, List.cons_append,
        List.takeWhile_cons_of_neg (Bool.eq_false_iff.mp (not_isSpacing visible))]
    obtain ⟨reached, line⟩ := Respelling.readBlock_line [] indent next
    have block : indent.getD (start.takeWhile isSpacing) = ['\t'] := by
      cases indent with
      | none => exact spacing
      | some block => exact tab block rfl
    generalize indent.getD (start.takeWhile isSpacing) = words at *
    subst block
    have text : (start.advanceBy ['\t'].length).rest = statement.text ++ (indented mark rest ++ last) := by
      rw [rest_advanceBy, begins]
      rfl
    have unspaced : (start.advanceBy ['\t'].length).skipSpacing.rest =
        statement.text ++ (following [] ++ (indented mark rest ++ last)) := by
      rw [(statement.begun text).1, text]
      rfl
    obtain ⟨statements, read, held, left⟩ :=
      readStatements_following (suits_continuedBy _) ended .codeBlock statement [] unspaced
    obtain ⟨more, goesOn, others, stops⟩ := step (some ['\t']) (by rintro _ ⟨⟩; rfl) left
    have deeper : (['\t'].isPrefixOf ['\t'] && isDeeper [] ['\t']) = true := by decide
    rw [line, spacing, if_pos deeper, read]
    refine ⟨_, congrArg (Except.map _) goesOn, ?_, stops⟩
    exact (List.map_append ..).trans (congrArg₂ (· ++ ·) held others)

/-- A dash and a block. -/
theorem read_indented (ends : Break mark []) (final : Final last) (statements : List Statement) {input : Input}
    (same : input.rest = '-' :: (indented mark statements ++ last)) :
    ∃ line, Line.read input input = .ok line ∧ IsCode statements line.value ∧ line.rest.rest = last := by
  have block : input.advance.rest = indented mark statements ++ last := by rw [rest_advance, same, List.tail_cons]
  have margin : Line.outerIndent input input = [] := by
    rw [Line.outerIndent, Input.textTo, same, Input.textFrom, if_neg (Nat.lt_irrefl _)]
    rfl
  obtain ⟨parsed, read, held, left⟩ := readBlock_indented ends final statements none
    (fun char member => absurd member (Option.not_mem_none char)) block
  rw [read_dash same, Line.readCode, if_pos ((ended_indented ends statements final).atLineEnd block), margin, read]
  exact ⟨_, rfl, ⟨_, rfl, rfl, .inr rfl, held⟩, left⟩

/-! Rows. -/

/-- A row that is a line of code by itself. -/
def IsRow (statements : List Statement) (row : Row) : Prop :=
  row.depth = 0 ∧ row.chained = [] ∧ IsCode statements row.line

/-- After a line, what follows its terminator. -/
theorem finishLine_rest {text : List Char} (ends : Break mark text ∨ mark ++ text = []) {input : Input}
    (rest : input.rest = mark ++ text) : (finishLine input).rest = text := by
  have stays : input.skipRestOfLine = input := by
    refine dropWhile_outside ?_
    rcases ends with ends | nothing
    · obtain ⟨char, more, rfl, lineEnd⟩ := ends.cons
      rw [isClass_eq rest, lineEnd, Bool.not_true]
    · rw [Input.isClass, rest, nothing]
  rw [finishLine, stays]
  rcases ends with ends | nothing
  · obtain ⟨next, eaten, left⟩ := eatNewline_break ends rest
    rw [eaten]
    exact left
  · obtain ⟨pos, _⟩ := input
    obtain rfl := rest
    obtain ⟨rfl, rfl⟩ := List.append_eq_nil_iff.mp nothing
    rfl

/-- A row of code, and what comes after its line. -/
theorem readRows_code {statements : List Statement} {text : List Char} (outline : Outline) {input : Input}
    (dash : input.rest = '-' :: text)
    (line : ∃ line, Line.read input input = .ok line ∧ IsCode statements line.value ∧ line.rest.rest = tail)
    (ended : Ended tail) (more : List Char)
    (finish : ∀ input : Input, input.rest = tail → (finishLine input).rest = more)
    {rows : List (List Statement)}
    (goesOn : ∀ (outline : Outline) (input : Input), input.rest = more →
      ∃ others, readRows outline input = .ok others ∧ List.Forall₂ IsRow rows others) :
    ∃ others, readRows outline input = .ok others ∧ List.Forall₂ IsRow (statements :: rows) others := by
  obtain ⟨line, read, code, left⟩ := line
  rw [readRows_unindented dash rfl, readRow_unchained read (ended.isAt rfl left)]
  obtain ⟨others, later, alike⟩ := goesOn _ _ (finish line.rest left)
  exact ⟨_, congrArg (Except.map _) later, .cons ⟨rfl, rfl, code⟩ alike⟩

/-- The last line of code. -/
theorem readRows_line {statements : List Statement} {text : List Char} (final : Final last) (outline : Outline)
    {input : Input} (dash : input.rest = '-' :: text)
    (line : ∃ line, Line.read input input = .ok line ∧ IsCode statements line.value ∧ line.rest.rest = last) :
    ∃ rows, readRows outline input = .ok rows ∧ List.Forall₂ IsRow [statements] rows := by
  have terminated : Break last [] ∨ last ++ [] = [] := final.symm.imp_right fun none => by rw [none, List.append_nil]
  refine readRows_code outline dash line final.ended [] ?_ ?_
  · exact fun input rest => finishLine_rest terminated (rest.trans (List.append_nil last).symm)
  · exact fun outline input none => ⟨[], readRows_end outline none, .nil⟩

/-- Statements on lines of their own, after the first one. -/
def dashed (mark : List Char) (statements : List Statement) : List Char :=
  statements.flatMap fun statement => mark ++ '-' :: ' ' :: statement.text

/-- A line for each statement. -/
theorem readRows_dashed (ends : Break mark []) (final : Final last) (first : Statement) (rest : List Statement)
    (outline : Outline) {input : Input}
    (same : input.rest = '-' :: ' ' :: (first.text ++ (dashed mark rest ++ last))) :
    ∃ rows, readRows outline input = .ok rows ∧
      List.Forall₂ IsRow ((first :: rest).map fun statement => [statement]) rows := by
  induction rest generalizing first outline input with
  | nil =>
    exact readRows_line final outline same (read_following final.ended first [] input same)
  | cons second rest step =>
    have after : dashed mark (second :: rest) ++ last =
        mark ++ '-' :: ' ' :: (second.text ++ (dashed mark rest ++ last)) := by
      simp [dashed]
    rw [after] at same
    have breaks : Break mark ('-' :: ' ' :: (second.text ++ (dashed mark rest ++ last))) :=
      break_before ends (by decide) _
    have ended := ended_break breaks ('-' :: ' ' :: (second.text ++ (dashed mark rest ++ last)))
    exact readRows_code outline same (read_following ended first [] input same) ended _
      (fun input rest => finishLine_rest (.inl breaks) rest) fun outline input same => step second outline same

/-- Lines that are not indented stand side by side. -/
theorem nest_code {lists : List (List Statement)} {rows : List Row} (alike : List.Forall₂ IsRow lists rows) :
    (∀ line ∈ Row.nest rows, line.1 = 0) ∧ List.Forall₂ IsCode lists ((Row.nest rows).map Prod.snd) := by
  induction alike with
  | nil => exact ⟨nofun, .nil⟩
  | @cons statements row lists rows first _ step =>
    obtain ⟨depth, chained, code⟩ := first
    obtain ⟨flat, others⟩ := step
    have beside (some : 0 < (Row.nest rows).length) : ¬ decide (row.depth < (Row.nest rows)[0].1) = true := by
      rw [depth, flat _ (List.getElem_mem some)]
      exact Bool.false_ne_true
    have none : ((Row.nest rows).takeWhile fun line => row.depth < line.1) = [] := List.takeWhile_eq_nil_iff.mpr beside
    have all : ((Row.nest rows).dropWhile fun line => row.depth < line.1) = Row.nest rows :=
      List.dropWhile_eq_self_iff.mpr beside
    rw [Row.nest, none, all, chained]
    refine ⟨List.forall_mem_cons.mpr ⟨depth, flat⟩, .cons ?_ others⟩
    exact (link_alone row.line).symm ▸ code

/-! The texts. -/

/-- A line of code for each statement. -/
def lines (mark last : List Char) (statements : List Statement) : List Char :=
  mark.intercalate (statements.map fun statement => ['-', ' '] ++ statement.text) ++ last

/-- One line of code with semicolons. -/
def line (last : List Char) (statements : List Statement) : List Char :=
  ['-', ' '] ++ [';', ' '].intercalate (statements.map Statement.text) ++ last

/-- A dash, and a line for each statement that is one tab deeper. -/
def block (mark last : List Char) (statements : List Statement) : List Char :=
  mark.intercalate (['-'] :: statements.map fun statement => '\t' :: statement.text) ++ last

/-! What is built. -/

theorem statements_held (fold : Expr → Option Value) {statements : List Statement} {tokens : List Token}
    (held : Holds statements tokens) :
    Compilation.statements fold tokens = (statements.map Statement.tree).forM (code fold) := by
  unfold Compilation.statements
  induction statements generalizing tokens with
  | nil =>
    obtain rfl := List.map_eq_nil_iff.mp held
    rfl
  | cons first rest step =>
    obtain ⟨token, tokens, rfl, same, held⟩ := List.map_eq_cons_iff.mp held
    change (token.expr.forM (code fold) >>= fun _ => tokens.forM _) = _
    rw [step held, same]
    rfl

theorem isTextLine_code {statements : List Statement} {line : Token} (code : IsCode statements line) :
    isTextLine line = false := by
  obtain ⟨data, is, children, code, -⟩ := code
  rw [isTextLine, is, children]
  rcases code with code | code <;> simp [code]

theorem statement_code (fold : Expr → Option Value) (layout : Layout) {statements : List Statement} {line : Token}
    (code : IsCode statements line) :
    statement fold layout line = (statements.map Statement.tree).forM (Compilation.code fold) := by
  obtain ⟨⟨kind, _, _, _, parts⟩, is, children, code, held⟩ := code
  obtain ⟨_, _, _, _, _⟩ := line
  obtain rfl := is
  obtain rfl := children
  have held : Holds statements parts := held
  rcases code with rfl | rfl <;>
    rw [statement, Compilation.line, statements_held fold held, block_nil, bind_pure_unit]

/-- Lines of code build their statements. -/
theorem block_code (fold : Expr → Option Value) (layout : Layout) {lists : List (List Statement)} {lines : List Token}
    (code : List.Forall₂ IsCode lists lines) (afterText : Bool) (previous : Option TokenKind) :
    Compilation.block fold layout afterText previous lines =
      (lists.flatten.map Statement.tree).forM (Compilation.code fold) := by
  induction code generalizing afterText previous with
  | nil => exact block_nil fold layout afterText previous
  | @cons statements line lists lines first _ step =>
    have placed : misplaced? previous line.kind = none := by
      obtain ⟨_, is, -⟩ := first
      rw [is]
      rfl
    rw [block_cons, placed, isTextLine_code first, List.flatten_cons, List.map_append]
    dsimp only
    rw [if_neg Bool.false_ne_true, statement_code fold layout first, step]
    exact List.forM_append.symm

/-- The chunks of some expressions in lines of code; those that have a value already are not needed. -/
def coded (fold : Expr → Option Value) (trees : List Expr) : List Chunk :=
  (trees.filter fun tree => (fold tree).isNone).map Chunk.code

theorem forM_code (fold : Expr → Option Value) (trees : List Expr) (builder : Builder) :
    ∃ after, trees.forM (code fold) builder = .ok ((), after) ∧ after.chunks = builder.chunks ++ coded fold trees ∧
      after.includes = builder.includes := by
  induction trees generalizing builder with
  | nil => exact ⟨builder, rfl, (List.append_nil _).symm, rfl⟩
  | cons tree rest step =>
    change ∃ after, (code fold tree >>= fun _ => rest.forM (code fold)) builder = _ ∧ _
    rw [build_bind_eq, code]
    by_cases unknown : (fold tree).isNone = true
    · obtain ⟨after, built, chunks, includes⟩ := step _
      rw [if_pos unknown, emit_eq]
      exact ⟨after, built, by simp [chunks, chunks_emit, coded, unknown], includes⟩
    · obtain ⟨after, built, chunks, includes⟩ := step builder
      rw [if_neg unknown]
      exact ⟨after, built, by simp [chunks, coded, unknown], includes⟩

/-- The template that consists of some statements. -/
def written (options : TemplateOptions) (statements : List Statement) : Template :=
  { chunks := coded Expr.constant? (statements.map Statement.tree), includes := [], pretty := options.pretty,
    stopOnError := options.stopOnError }

theorem ofSource_code (options : TemplateOptions) {source : List Char} {lists : List (List Statement)}
    {statements : List Statement} (whole : lists.flatten = statements)
    (read : ∃ rows, Document.readRows .start (.ofText source) = .ok rows ∧ List.Forall₂ IsRow lists rows) :
    Template.ofSource options source = .ok (written options statements) := by
  obtain ⟨rows, read, alike⟩ := read
  obtain rfl := whole
  have root : ∃ root, Token.ofSource source = .ok root ∧ root.children = (Row.nest rows).map Prod.snd := by
    rw [Token.ofSource, read]
    exact ⟨_, rfl, rfl⟩
  obtain ⟨root, parsed, children⟩ := root
  obtain ⟨after, built, chunks, includes⟩ :=
    forM_code Expr.constant? (lists.flatten.map Statement.tree) Builder.empty
  have compiled : compile Expr.constant? options.pretty root =
      .ok (coded Expr.constant? (lists.flatten.map Statement.tree), []) := by
    rw [compile_eq, children, block_code _ _ (nest_code alike).2, built]
    change Except.ok (after.chunks, after.includes) = _
    rw [chunks, includes]
    rfl
  rw [Template.ofSource, Template.ofSourceWith, parsed]
  dsimp only
  rw [compiled]
  rfl

/-! The spellings. -/

theorem lines_cons (first : Statement) (rest : List Statement) :
    lines mark last (first :: rest) = '-' :: ' ' :: (first.text ++ (dashed mark rest ++ last)) := by
  rw [lines, List.map_cons, intercalate_cons, List.flatMap_map]
  simp [dashed]

theorem line_cons (first : Statement) (rest : List Statement) :
    line last (first :: rest) = '-' :: ' ' :: (first.text ++ (following rest ++ last)) := by
  rw [line, List.map_cons, intercalate_cons, List.flatMap_map]
  simp [following]

theorem block_eq (statements : List Statement) :
    block mark last statements = '-' :: (indented mark statements ++ last) := by
  rw [block, intercalate_cons, List.flatMap_map]
  rfl

/-- Three spellings of one program. Statements on lines of their own, on one line with semicolons between them, and in
a block that is one tab deeper are compiled to the same template: the statements one after the other, but for those
that are known constants. -/
theorem spelled_alike (options : TemplateOptions) (ends : Break mark []) (final : Final last) (first : Statement)
    (rest : List Statement) :
    ∀ source ∈ [lines mark last (first :: rest), line last (first :: rest), block mark last (first :: rest)],
      Template.ofSource options source = .ok (written options (first :: rest)) := by
  have separate : (Input.ofText (lines mark last (first :: rest))).rest = _ := lines_cons first rest
  have joined : (Input.ofText (line last (first :: rest))).rest = _ := line_cons first rest
  have nested : (Input.ofText (block mark last (first :: rest))).rest = _ := block_eq (first :: rest)
  have single : ((first :: rest).map fun statement => [statement]).flatten = first :: rest := by
    rw [← List.flatMap_def, List.flatMap_singleton']
  have alone : [first :: rest].flatten = first :: rest := List.flatten_singleton
  have lined := read_following final.ended first rest (.ofText (line last (first :: rest))) joined
  have blocked := read_indented ends final (first :: rest) nested
  refine List.forall_mem_cons.mpr ⟨?_, List.forall_mem_cons.mpr ⟨?_, List.forall_mem_singleton.mpr ?_⟩⟩
  · exact ofSource_code options single (readRows_dashed ends final first rest .start separate)
  · exact ofSource_code options alone (readRows_line final .start joined lined)
  · exact ofSource_code options alone (readRows_line final .start nested blocked)

/-- A text as a statement, if it is one. -/
def Statement.ofText? (text : List Char) : Option Statement :=
  match single : Expr.parseAll .inline text with
  | .error _ => none
  | .ok tree =>
    if unbroken : text.all fun char => !CharClass.isLineEnd char then
      if unspaced : text.head?.all fun char => !CharClass.isSpacing char then
        match accepted : Token.ofSource ('-' :: ' ' :: text) with
        | .error _ => none
        | .ok root => some {
            text, tree, single
            unbroken := fun char member => (Bool.not_eq_true' _).mp (List.all_eq_true.mp unbroken char member)
            unspaced := fun char member => (Bool.not_eq_true' _).mp ((Option.all_eq_true ..).mp unspaced char member)
            accepted := ⟨root, accepted⟩ }
      else none
    else none

def declared : Statement := (Statement.ofText? "var items = [1, 2] ".toList).get (by decide +kernel)

def appended : Statement := (Statement.ofText? "items += 'a; b'".toList).get (by decide +kernel)

def known : Statement := (Statement.ofText? "(1; 2)".toList).get (by decide +kernel)

def counted : Statement := (Statement.ofText? "items[0]++".toList).get (by decide +kernel)

theorem samples_alike :
    lines ['\r', '\n'] ['\n'] [declared, appended, known, counted] =
        "- var items = [1, 2] \r\n- items += 'a; b'\r\n- (1; 2)\r\n- items[0]++\n".toList ∧
      line ['\n'] [declared, appended, known, counted] =
        "- var items = [1, 2] ; items += 'a; b'; (1; 2); items[0]++\n".toList ∧
      block ['\r', '\n'] ['\n'] [declared, appended, known, counted] =
        "-\r\n\tvar items = [1, 2] \r\n\titems += 'a; b'\r\n\t(1; 2)\r\n\titems[0]++\n".toList ∧
      (written { pretty := true, stopOnError := true } [declared, appended, known, counted]).chunks.length = 3 ∧
      ∀ source ∈ [lines ['\r', '\n'] ['\n'] [declared, appended, known, counted],
          line ['\n'] [declared, appended, known, counted],
          block ['\r', '\n'] ['\n'] [declared, appended, known, counted]],
        Template.ofSource { pretty := true, stopOnError := true } source =
          .ok (written { pretty := true, stopOnError := true } [declared, appended, known, counted]) :=
  ⟨by decide +kernel, by decide +kernel, by decide +kernel, by decide +kernel,
    spelled_alike { pretty := true, stopOnError := true } (.paired []) (.inr (.newline [])) declared
      [appended, known, counted]⟩

end HtmlTemplate.Statements
