import HtmlTemplate.Proofs.Elements.Brackets
import HtmlTemplate.Proofs.Reading.Lines
import HtmlTemplate.Proofs.Relocation.Expressions

/-! A statement on a line by itself, and the same statement where another one or the end of the line comes after it.
By itself it is read like any expression on a line of markup, and no gap in it holds a line end. So it is the same
in a block, whose statements may go on in the next line. -/

namespace HtmlTemplate

namespace Reading

open CharClass Elements

theorem dropWhile_outside {class? : Char → Bool} {input : Input} (outside : input.isClass class? = false) :
    input.dropWhile class? = input := by
  obtain ⟨pos, _ | ⟨char, rest⟩⟩ := input
  · rfl
  · exact if_neg (Bool.eq_false_iff.mp outside)

theorem skip_skipSpacing (options : ParseOptions) (complete : Bool) (input : Input) :
    Gap.skip options complete input.skipSpacing = Gap.skip options complete input := by
  unfold Gap.skip
  rw [skipContinued_eq _ _ _ input.skipSpacing, skipContinued_eq _ _ _ input, Input.skipSpacing_skipSpacing,
    Input.skipWhitespace_skipSpacing]

/-- Where an expression may end, nothing but spacing is skipped. -/
theorem skip_complete (options : ParseOptions) (input : Input) :
    (Gap.skip options true input).1 = input.skipSpacing := by
  unfold Gap.skip
  split
  · rw [skipContinued_complete]
    split <;> rfl
  · dsimp only
    rw [Bool.or_true, Bool.true_and]
    split
    · rfl
    · rename_i inside
      split
      · rfl
      · have spacing : input.skipSpacing.isClass isSpacing = false := isClass_dropWhile isSpacing input
        rw [← Input.skipWhitespace_skipSpacing]
        refine dropWhile_outside ?_
        unfold Input.isClass at *
        split
        · rfl
        · rename_i same
          rw [same] at inside spacing
          exact Bool.or_eq_false_iff.mpr ⟨spacing, Bool.eq_false_iff.mpr inside⟩

/-- On a line of markup, gaps are spacing. -/
theorem skip_inline (complete : Bool) (input : Input) : (Gap.skip .inline complete input).1 = input.skipSpacing := by
  change (if (true || complete) && input.skipSpacing.isClass isLineEnd then (input.skipSpacing, false)
    else (input.skipSpacing, !input.skipSpacing.atEnd)).1 = _
  split <;> rfl

/-- After any spacing, a visible part is found. -/
theorem skip_spaced (options : ParseOptions) {text : List Char} (visible : Visible text) (complete : Bool)
    {input : Input} (rest : input.skipSpacing.rest = text) :
    (Gap.skip options complete input).1.rest = text ∧ (Gap.skip options complete input).2 = true := by
  rw [← skip_skipSpacing]
  exact skip_visible options visible complete (.inl rest)

end Reading

namespace Statements

open CharClass Reading Elements

/-- Nothing comes next, or something that ends a statement. -/
def Follows (tail : List Char) : Prop := ∀ char ∈ tail.head?, char ∈ [';', '\n', '\r']

/-- Options for statements that semicolons may separate. -/
structure Suits (options : ParseOptions) : Prop where
  operators : options.operators = .all
  semicolon : options.stops.semicolon = true

theorem suits_inline : Suits .inline := ⟨rfl, rfl⟩

theorem suits_continuedBy (continuation : List Char) : Suits (.continuedBy continuation) := ⟨rfl, rfl⟩

variable {options : ParseOptions} {tail : List Char}

theorem Follows.closes (follows : Follows tail) : Closes tail :=
  fun char member => List.mem_append_right _ (follows char member)

theorem Follows.isClass (follows : Follows tail) {class? : Char → Bool}
    (outside : ∀ char ∈ [';', '\n', '\r'], class? char = false) {input : Input} (rest : input.rest = tail) :
    input.isClass class? = false := by
  cases tail with
  | nil => rw [Input.isClass, rest]
  | cons char more => rw [isClass_eq rest, outside char (follows char rfl)]

/-- No operator begins like something that ends a statement. -/
theorem Follows.read (follows : Follows tail) (suits : Suits options) {input : Input} (rest : input.rest = tail) :
    OperatorReading.read options false input = .ok none := by
  have silent : ∀ char ∈ [';', '\n', '\r'], ∀ symbol ∈ OperatorReading.symbols, char ≠ symbol.1 := by
    intro char among
    fin_cases among <;> decide
  cases tail with
  | nil =>
    have symbols : OperatorReading.readSymbol? input = none := by
      refine List.findSome?_eq_none_iff.mpr fun symbol _ => ?_
      simp [Input.eatWord?, Input.startsWith, rest]
    rw [OperatorReading.read, symbols, rest]
  | cons char more =>
    have among := follows char rfl
    have nothing : (OperatorReading.opening? char).isNone ∧ (OperatorReading.single? char).isNone := by
      fin_cases among <;> decide
    have separates : OperatorReading.separator? options.stops false char = none := by
      unfold OperatorReading.separator?
      rw [suits.semicolon]
      fin_cases among <;> rfl
    rw [OperatorReading.read, readSymbol_none rest (silent char among), rest]
    dsimp only
    rw [Option.isNone_iff_eq_none.mp nothing.1, Option.isNone_iff_eq_none.mp nothing.2, separates]
    rfl

theorem Follows.bridges (follows : Follows tail) (suits : Suits options) : Bridges tail .inline options where
  closes := follows.closes
  operators := suits.operators
  gap {first second} further goesOn := by
    have visible := visible_skip goesOn
    rw [skip_inline] at visible ⊢
    obtain ⟨rest, reached⟩ := skip_spaced options (visible.append tail) false further
    exact ⟨rest, reached⟩

/-- On a line of markup, separators end an expression outside of brackets. -/
theorem separator_inline (char : Char) : OperatorReading.separator? ParseOptions.inline.stops false char = none := by
  simp [OperatorReading.separator?, ParseOptions.inline, Stops.separators]

/-- A row of operators that ends with its text ends, too, where a statement may end after it. -/
theorem readOperators_followed (suits : Suits options) (follows : Follows tail) {tree : Expr} {first second : Input}
    (further : Extends tail first second) {parsed : Parsed Expr first}
    (read : Parser.readOperators .inline none tree first = .ok parsed) (done : parsed.rest.skipSpacing.rest = []) :
    ∃ final, Parser.readOperators options none tree second = .ok final ∧ final.value = parsed.value ∧
      final.rest.rest = tail := by
  have bridges := follows.bridges suits
  have spaced := further.skipSpacing bridges.closes
  have ends : (Gap.skip .inline false parsed.rest).1.rest = [] := by rw [skip_inline, done]
  obtain ⟨same, nothing⟩ | ⟨goesOn, op, next, found, applied, right, row, more, same, left⟩ :=
    @readOperators_cases .inline _ _ _ read ends
  · rw [skip_inline] at nothing
    have rest : (Gap.skip options true second).1.rest = tail := by
      rw [skip_complete, spaced, nothing, List.nil_append]
    rw [@readOperators_ended options none second tree (.inr ⟨rfl, follows.read suits rest⟩)]
    exact ⟨_, rfl, same.symm, rest⟩
  · have found : OperatorReading.read .inline false (Gap.skip .inline true first).1 = .ok (some (op, next)) := found
    have shorter := size_applied_lt found applied
    have visible : Visible (Gap.skip .inline true first).1.rest := visible_skip goesOn
    rw [skip_inline] at visible found
    obtain ⟨rest, reached⟩ := skip_spaced options (visible.append tail) true spaced
    have after : Extends tail first.skipSpacing (Gap.skip options true second).1 := rest
    have separates (char : Char) (op : Op)
        (separates : OperatorReading.separator? ParseOptions.inline.stops false char = some op) :
        OperatorReading.separator? options.stops false char = some op := by
      rw [separator_inline] at separates
      cases separates
    obtain ⟨follow, sought, later⟩ := read_extends bridges.operators separates after bridges.closes found
    have kept : Again (Kept tail id) (Parser.readApplied .inline tree op next)
        (Parser.readApplied options tree op follow) := readApplied_again bridges op (fun _ _ _ _ => rfl) tree later
    obtain ⟨y, again, twin, further⟩ := kept applied right
    obtain ⟨final, success, value, finished⟩ := readOperators_followed suits follows further more (left ▸ done)
    obtain ⟨reaches, whole⟩ := @readOperators_applied options none second tree reached rfl _ _ sought
    refine ⟨final.widen (reaches y), ?_, value.trans same, finished⟩
    rw [whole, again]
    change (Parser.readOperators options none y.value y.rest).map _ = _
    rw [twin]
    change (Parser.readOperators options none applied.value y.rest).map _ = _
    rw [success]
    rfl
termination_by first.size

/-- An expression is read in the middle of a source as it is read as a text. -/
theorem read_parsed {text : List Char} {input : Input} (same : input.rest = text) {parsed : Parsed Expr (.ofText text)}
    (read : Expr.parse options text = .ok parsed) (place : ExprPlace) :
    ∃ found, Embedded.read options place input = .ok found ∧ found.value.expr = parsed.value ∧
      found.rest.rest = parsed.rest.skipSpacing.rest := by
  obtain rfl := same
  have moves := Relocation.parseFrom_moves options input
  rw [read] at moves
  unfold Embedded.read
  generalize Expr.parseFrom options input = other at moves
  cases moves with
  | @ok _ twin alike =>
    refine ⟨_, rfl, alike.value, ?_⟩
    change twin.rest.skipSpacing.rest = _
    rw [alike.rest, Input.skipSpacing_moved, Input.rest_moved]

/-- A text that is read on a line by itself is found in front of what ends a statement. -/
theorem read_followed (suits : Suits options) (follows : Follows tail) {text : List Char}
    {parsed : Parsed Expr (.ofText text)} (read : Expr.parse .inline text = .ok parsed)
    (done : parsed.rest.skipSpacing.rest = []) (place : ExprPlace) {input : Input} (same : input.rest = text ++ tail) :
    ∃ found, Embedded.read options place input = .ok found ∧ found.value.expr = parsed.value ∧
      found.rest.rest = tail := by
  have bridges := follows.bridges suits
  have further : Extends tail (.ofText text) (.ofText input.rest) := same
  obtain ⟨first, operand, read⟩ := bind_eq_ok.mp read
  obtain ⟨row, operators, same⟩ := bind_eq_ok.mp read
  obtain rfl := Except.ok.inj same
  have kept : Again (Kept tail id) (Parser.readOperand .inline .group (.ofText text))
      (Parser.readOperand options .group (.ofText input.rest)) :=
    readOperand_again bridges (.refl .group) (bridges.approaches further)
  obtain ⟨twin, again, value, after⟩ := kept first operand
  obtain ⟨final, ended, whole, finished⟩ := readOperators_followed suits follows after operators done
  have parsed : Expr.parse options input.rest = .ok (final.widen twin.reached) := by
    rw [Expr.parse, Parser.readExpr, again]
    change Parser.readOperators options none twin.value twin.rest >>= _ = _
    rw [value]
    change Parser.readOperators options none first.value twin.rest >>= _ = _
    rw [ended]
    rfl
  have outside : ∀ char ∈ [';', '\n', '\r'], isSpacing char = false := by
    intro char among
    fin_cases among <;> rfl
  have unspaced : final.rest.skipSpacing = final.rest := dropWhile_outside (follows.isClass outside finished)
  obtain ⟨found, success, expr, left⟩ := read_parsed rfl parsed place
  exact ⟨found, success, expr.trans whole, left.trans ((congrArg Input.rest unspaced).trans finished)⟩

/-! Lines of code. -/

/-- A dash begins a line of code. -/
theorem read_dash {lineStart input : Input} {text : List Char} (rest : input.rest = '-' :: text) :
    Line.read lineStart input = Line.readCode lineStart input := by
  have other (char : Char) (apart : ('-' == char) = false) : input.isAt char = false := by
    rw [Input.isAt, isClass_eq rest, apart]
  have starts (char : Char) (word : List Char) (apart : char ≠ '-') : input.startsWith (char :: word) = false := by
    simp [Input.startsWith, rest, List.isPrefixOf, apart]
  have code : input.isAt '-' = true := isClass_eq rest _
  have word : input.isClass isLatin = false := isClass_eq rest _
  have nameless : input.isClass (fun char => char == '.' || char == '#' || char == '(' || char == '&') = false :=
    isClass_eq rest _
  unfold Line.read
  simp [starts '/' _ (by decide), starts '!' _ (by decide), other '.' rfl, other '|' rfl, other '=' rfl, code, word,
    nameless]

/-- A line of code that is not a block. -/
theorem read_code {lineStart input : Input} {text : List Char} (rest : input.rest = '-' :: ' ' :: text) :
    Line.read lineStart input = (Code.readStatements .inline .codeLine input.advance).map fun statements =>
      Line.complete .codeLine (statements.widen (Input.reaches_advance input)) := by
  have begun : ¬ input.advance.atLineEnd = true := by
    rw [Input.atLineEnd, Input.atEnd, Input.isClass, rest_advance, rest]
    exact Bool.false_ne_true
  rw [read_dash rest, Line.readCode, if_neg begun]
  cases Code.readStatements .inline .codeLine input.advance <;> rfl

/-- A statement, and those after it. -/
theorem readStatements_begun (options : ParseOptions) (place : ExprPlace) {input : Input}
    (begun : ¬ input.skipSpacing.atLineEnd = true) :
    Code.readStatements options place input =
      Embedded.read options place input.skipSpacing >>= fun statement =>
        if again : statement.rest.isAt ';' = true then
          (Code.readStatements options place statement.rest.advance).map fun more =>
            (more.map (statement.value.token .code :: ·)).widen ((Input.reaches_skipSpacing input).trans
              (statement.reached.trans (Input.passes_advance_of_isClass again).1))
        else if statement.rest.atLineEnd then
          .ok ((statement.map fun statement => [statement.token .code]).widen (Input.reaches_skipSpacing input))
        else .error ⟨.afterExpr place, statement.rest.pos⟩ := by
  rw [Code.readStatements, if_neg begun]
  refine congrArg _ (funext fun statement => ?_)
  split
  · cases Code.readStatements options place statement.rest.advance <;> rfl
  · rfl

end Statements

/-- A statement: a text that is one expression and that is accepted on a line of code by itself. -/
structure Statement where
  text : List Char
  tree : Expr
  single : Expr.parseAll .inline text = .ok tree
  unbroken : ∀ char ∈ text, CharClass.isLineEnd char = false
  unspaced : ∀ char ∈ text.head?, CharClass.isSpacing char = false
  accepted : ∃ root, Token.ofSource ('-' :: ' ' :: text) = .ok root

namespace Statement

open CharClass Reading Statements Elements

variable (statement : Statement)

theorem begins : ∃ char rest, statement.text = char :: rest ∧ isWhitespace char = false := by
  obtain ⟨text, tree, single, unbroken, unspaced, -⟩ := statement
  cases text with
  | nil =>
    obtain ⟨parsed, read, -⟩ := bind_eq_ok.mp single
    obtain ⟨first, operand, -⟩ := bind_eq_ok.mp read
    have goesOn := goesOn_of_readOperand operand
    rw [(skip_end .inline false rfl).2] at goesOn
    cases goesOn
  | cons char rest =>
    refine ⟨char, rest, rfl, ?_⟩
    rw [isWhitespace, unspaced char rfl, unbroken char List.mem_cons_self, Bool.or_false]

/-- A statement can be read where its text comes next. -/
theorem begun {input : Input} {tail : List Char} (rest : input.rest = statement.text ++ tail) :
    input.skipSpacing = input ∧ ¬ input.atLineEnd = true := by
  obtain ⟨char, text, same, visible⟩ := statement.begins
  rw [same, List.cons_append] at rest
  refine ⟨skipSpacing_unindented rest visible, ?_⟩
  rw [Input.atLineEnd, Input.atEnd, isClass_eq rest, rest, not_isLineEnd visible]
  exact Bool.false_ne_true

/-- On a line by itself, nothing but spacing is left of its text. -/
theorem read : ∃ parsed, Expr.parse .inline statement.text = .ok parsed ∧ parsed.value = statement.tree ∧
    parsed.rest.skipSpacing.rest = [] := by
  obtain ⟨parsed, read, whole⟩ := bind_eq_ok.mp statement.single
  split at whole
  · rename_i blank
    refine ⟨parsed, read, Except.ok.inj whole, ?_⟩
    obtain ⟨root, accepted⟩ := statement.accepted
    obtain ⟨rows, found, -⟩ := bind_eq_ok.mp accepted
    have dash : isWhitespace '-' = false := rfl
    rw [readRows_unindented rfl dash] at found
    obtain ⟨row, found, -⟩ := bind_eq_ok.mp found
    obtain ⟨line, found, -⟩ := bind_eq_ok.mp found
    rw [read_code rfl] at found
    obtain ⟨statements, found, -⟩ := map_eq_ok.mp found
    have rest : (Input.advance (.ofText ('-' :: ' ' :: statement.text))).skipSpacing.rest = statement.text := by
      change (Input.skipSpacing ⟨2, statement.text⟩).rest = _
      rw [(statement.begun (List.append_nil _).symm).1]
    rw [readStatements_begun _ _ (statement.begun (rest.trans (List.append_nil _).symm)).2] at found
    obtain ⟨embedded, found, ended⟩ := bind_eq_ok.mp found
    obtain ⟨twin, again, -, left⟩ := read_parsed rest read .codeLine
    obtain rfl := Except.ok.inj (found.symm.trans again)
    rw [← left]
    refine List.eq_nil_iff_forall_not_mem.mpr fun other among => ?_
    obtain ⟨char, more, begins⟩ := List.exists_cons_of_ne_nil (List.ne_nil_of_mem among)
    -- What is left begins with a blank of the statement, which neither separates statements nor ends a line.
    have member : char ∈ parsed.rest.rest := by
      refine List.IsSuffix.subset (List.dropWhile_suffix isSpacing) ?_
      rw [← Input.rest_dropWhile]
      exact (left.symm.trans begins) ▸ List.mem_cons_self
    have inside : char ∈ statement.text := by
      obtain ⟨before, whole, -⟩ := parsed.reached
      change statement.text = _ at whole
      rw [whole]
      exact List.mem_append_right _ member
    have separate : (char == ';') = false := by
      refine beq_eq_false_iff_ne.mpr ?_
      rintro rfl
      exact absurd (List.all_eq_true.mp blank _ member) (by decide)
    have further : ¬ embedded.rest.isAt ';' = true := by
      rw [Input.isAt, isClass_eq begins, separate]
      exact Bool.false_ne_true
    have within : ¬ embedded.rest.atLineEnd = true := by
      rw [Input.atLineEnd, Input.atEnd, isClass_eq begins, begins, statement.unbroken char inside]
      exact Bool.false_ne_true
    rw [dif_neg further, if_neg within] at ended
    cases ended
  · cases whole

/-- It is found where something that ends a statement follows. -/
theorem found {options : ParseOptions} (suits : Suits options) {tail : List Char} (follows : Follows tail)
    (place : ExprPlace) {input : Input} (rest : input.rest = statement.text ++ tail) :
    ∃ found, Embedded.read options place input = .ok found ∧ found.value.expr = statement.tree ∧
      found.rest.rest = tail := by
  obtain ⟨parsed, read, tree, done⟩ := statement.read
  rw [← tree]
  exact read_followed suits follows read done place rest

end Statement

end HtmlTemplate
