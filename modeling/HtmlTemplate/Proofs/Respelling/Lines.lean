import HtmlTemplate.Proofs.Respelling.Inline
import HtmlTemplate.Proofs.Respelling.Statements
import HtmlTemplate.Token.Line

/-! Lines of markup in two texts that differ in blanks: the readers of all kinds of lines go on side by side. -/

namespace HtmlTemplate

namespace Expr

/-- The name that an expression is. -/
def ownName? : Expr → Option String
  | name text => some text
  | _ => none

theorem definedName_eq (expr : Expr) :
    expr.definedName? = expr.ownName?.or (expr.call?.bind fun call => call.1.ownName?) := by
  unfold definedName?
  cases called : expr.call? with
  | none => cases expr <;> rfl
  | some call =>
    obtain ⟨callee, arguments⟩ := call
    cases expr with
    | name text => cases called
    | _ => cases callee <;> rfl

theorem ownName_muted (expr : Expr) : expr.muted.ownName? = expr.ownName? := by
  cases expr with
  | literal value => cases value <;> rfl
  | _ => rfl

theorem call_muted (expr : Expr) :
    expr.muted.call? = expr.call?.map fun call => (call.1.muted, call.2.muted) := by
  cases expr with
  | literal value => cases value <;> rfl
  | binary op => cases op <;> rfl
  | bracketed bracket inner =>
    cases inner with
    | literal value => cases value <;> rfl
    | binary op => cases op <;> rfl
    | _ => rfl
  | _ => rfl

/-- What an expression defines is not quoted. -/
theorem definedName_muted (expr : Expr) : expr.muted.definedName? = expr.definedName? := by
  rw [definedName_eq, definedName_eq, ownName_muted, call_muted]
  cases expr.call? with
  | none => rfl
  | some call => exact congrArg _ (ownName_muted call.1)

end Expr

namespace Respelling

open CharClass Line Quoting

variable {spelling : Spelling} {first second start stop : Input}

/-! The rest of a line. -/

theorem textTo_restOfLine (input : Input) :
    input.textTo input.skipRestOfLine.pos = input.takeWhile fun char => !isLineEnd char :=
  Input.textTo_dropWhile _ input

/-- The rest of a line is put out alike. -/
theorem restOfLine_agrees (beside : Beside spelling first second) :
    Agrees spelling.shows (String.ofList (first.textTo first.skipRestOfLine.pos))
      (String.ofList (second.textTo second.skipRestOfLine.pos)) := by
  rw [textTo_restOfLine, textTo_restOfLine]
  exact spelling.restOfLine beside

/-- The rest of a line after some spacing is the same. -/
theorem restOfLine_same (beside : Beside spelling first second) (begun : first.isClass isSpacing = false) :
    second.textTo second.skipRestOfLine.pos = first.textTo first.skipRestOfLine.pos := by
  rw [textTo_restOfLine, textTo_restOfLine]
  refine spelling.restOfLine_same ?_ beside
  unfold Input.isClass at begun
  cases rest : first.rest with
  | nil => nofun
  | cons char text =>
    rintro _ ⟨⟩
    rwa [rest] at begun

/-! Lines. -/

theorem wrap_akin {data twin : Token} {stop final : Input} (akin : Akin spelling data twin)
    (kept : spelling.keeps → String.ofList (second.textTo final.pos) = String.ofList (first.textTo stop.pos)) :
    Akin spelling (wrap data first stop) (wrap twin second final) :=
  .inert rfl kept (.cons akin .nil)

theorem complete_meets {kind : TokenKind} (inert : kind.isInert = true) (beside : Beside spelling first second)
    {x : Parsed (List Token) first} {y : Parsed (List Token) second}
    (parts : Meets spelling (List.Forall₂ (Akin spelling)) x y) :
    Meets spelling (Akin spelling) (complete kind x) (complete kind y) := by
  have kept := between_kept beside x.reached y.reached parts.beside
  exact ⟨parts.beside, wrap_akin (.inert inert kept parts.values) kept⟩

/-- A part in which nothing matters. -/
theorem between_akin {kind : TokenKind} (inert : kind.isInert = true) (beside : Beside spelling start stop)
    (reached : start.Reaches first) (arrived : stop.Reaches second) (after : Beside spelling first second) :
    Akin spelling (.between kind start first) (.between kind stop second) :=
  .inert inert (between_kept beside reached arrived after) .nil

/-- What has no pieces has no text. -/
theorem readPieces_none {bracketed : Bool} {input : Input} {pieces : Parsed (List Piece) input}
    (read : Inline.readPieces bracketed input = .ok pieces) (none : pieces.value = []) : pieces.rest = input := by
  have nonempty {next : Input} {rest : Except LexError (Parsed (List Piece) next)}
      {change : Parsed (List Piece) next → Parsed (List Piece) input}
      (adds : ∀ more, (change more).value ≠ []) : rest.map change ≠ .ok pieces := by
    intro read
    cases rest with
    | error => cases read
    | ok more =>
      cases read
      exact adds more none
  cases ended : Inline.ends bracketed input with
  | true =>
    rw [Inline.readPieces_ended ended] at read
    cases read
    rfl
  | false =>
    exfalso
    cases escapes : input.isAt '\\' with
    | true =>
      obtain ⟨reached, one⟩ := Inline.readPieces_escaped ended escapes
      exact nonempty (fun _ => List.cons_ne_nil _ _) (one.symm.trans read)
    | false =>
      cases mark : Inline.outputMark? input with
      | some kind =>
        obtain ⟨reached, one⟩ := Inline.readPieces_output ended escapes mark
        obtain ⟨output, -, read⟩ := Reading.bind_eq_ok.mp (one.symm.trans read)
        exact nonempty (fun _ => List.cons_ne_nil _ _) read
      | none =>
        cases opens : input.startsWith ['#', '['] with
        | true =>
          obtain ⟨reached, one⟩ := Inline.readPieces_tag ended escapes mark opens
          obtain ⟨tag, -, read⟩ := Reading.bind_eq_ok.mp (one.symm.trans read)
          exact nonempty (fun _ => List.cons_ne_nil _ _) read
        | false =>
          have one := Inline.readPieces_char ended escapes mark opens
          exact nonempty (fun _ => List.cons_ne_nil _ _) (one.symm.trans read)

/-- Pieces are joined, but not dropped. -/
theorem join_eq_nil {pieces : List Piece} (none : Piece.join pieces = []) : pieces = [] := by
  cases pieces with
  | nil => rfl
  | cons piece rest =>
    cases piece with
    | part token => cases none
    | literal pos chars =>
      rw [Piece.join] at none
      split at none
      · split at none <;> cases none
      · cases none

theorem readText_none {input : Input} {parts : Parsed (List Token) input}
    (read : Inline.readText input = .ok parts) (none : parts.value = []) : parts.rest = input := by
  unfold Inline.readText at read
  cases pieces : Inline.readPieces false input with
  | error error =>
    rw [pieces] at read
    cases read
  | ok found =>
    rw [pieces] at read
    cases read
    exact readPieces_none pieces (join_eq_nil (List.map_eq_nil_iff.mp none))

/-- There is no text between a place and itself. -/
theorem mark_text (kind : TokenKind) (input : Input) : (Token.mark kind input).text = "" :=
  congrArg String.ofList (Input.textTo_of_reaches (List.nil_append _).symm (.refl input))

theorem mark_akin {kind : TokenKind} (name : kind.isName = true) (first second : Input) :
    Akin spelling (.mark kind first) (.mark kind second) :=
  .name name ((mark_text kind second).trans (mark_text kind first).symm) .nil

/-- Blocks of code are read alike on two lines. -/
def Blocks (spelling : Spelling) (start stop : Input) : Prop :=
  ∀ {first second : Input}, start.Reaches first → stop.Reaches second → first.isAt '-' = true →
    Beside spelling first second → Lexes (Meets spelling (List.Forall₂ (Akin spelling)))
      (Code.readBlock (outerIndent start first) none first.advance)
      (Code.readBlock (outerIndent stop second) none second.advance)

/-! Lines without a word at their start. -/

section

variable (beside : Beside spelling first second)
include beside

theorem plain_reads : Lexes (Meets spelling (Akin spelling)) (readPlain first) (readPlain second) := by
  refine .map (text_reads beside).known fun x y known => ?_
  obtain ⟨parts, one, two⟩ := known
  have kept := between_kept beside x.reached y.reached parts.beside
  refine ⟨parts.beside, wrap_akin (.line kept parts.values fun none => ?_) kept⟩
  have others : y.value = [] := List.forall₂_nil_left_iff.mp (none ▸ parts.values)
  rw [readText_none one none, readText_none two others]
  change Agrees spelling.shows (Token.mark .textLine first).text (Token.mark .textLine second).text
  rw [mark_text, mark_text]
  exact .refl _ _

theorem raw_meets : Meets spelling (Akin spelling) (readRaw first) (readRaw second) :=
  have kept := between_kept beside (Input.reaches_skipRestOfLine _) (Input.reaches_skipRestOfLine _)
    beside.skipRestOfLine
  ⟨beside.skipRestOfLine, wrap_akin (.line kept .nil fun _ => restOfLine_agrees beside) kept⟩

theorem comment_reads (opens : first.startsWith ['/', '/'] = true) :
    Lexes (Meets spelling (Akin spelling)) (readComment first) (readComment second) := by
  have mark : Visible ['/', '/', '-'] := by decide
  unfold readComment
  rw [beside.startsWith mark]
  split
  · rename_i hidden
    have text : Beside spelling (first.advanceBy 3) (second.advanceBy 3) := beside.advanceBy hidden mark
    have opening : Akin spelling (.between .templateComment first (first.advanceBy 3))
        (.between .templateComment second (second.advanceBy 3)) :=
      between_akin rfl beside (Input.reaches_advanceBy ..) (Input.reaches_advanceBy ..) text
    refine .ok (complete_meets rfl beside ⟨text.skipRestOfLine, .cons opening ?_⟩)
    rw [text.atLineEnd]
    split
    · exact .nil
    · exact .cons (.written rfl (restOfLine_agrees text) .nil) .nil
  · have start : Beside spelling (first.advanceBy 2) (second.advanceBy 2) := beside.advanceBy opens (by decide)
    have opening : Akin spelling (.between .htmlComment first (first.advanceBy 2))
        (.between .htmlComment second (second.advanceBy 2)) :=
      between_akin rfl beside (Input.reaches_advanceBy ..) (Input.reaches_advanceBy ..) start
    refine .bind (text_reads start) fun x y text => .ok ?_
    exact complete_meets rfl beside ⟨text.beside, .cons opening text.values⟩

theorem piped_reads (found : first.isAt '|' = true) :
    Lexes (Meets spelling (Akin spelling)) (readPiped first) (readPiped second) := by
  have mark : Akin spelling (.mark .pipeMark first) (.mark .pipeMark second) :=
    between_akin rfl beside (.refl first) (.refl second) beside
  refine .bind (text_reads (beside.advance_isAt found rfl).skipSpacing) fun x y text => .ok ?_
  exact complete_meets rfl beside ⟨text.beside, .cons mark text.values⟩

theorem outputLine_reads {word : List Char} (starts : first.startsWith word = true) (visible : Visible word)
    {kind : TokenKind} (inert : kind.isInert = true) :
    Lexes (Meets spelling (Akin spelling)) (readOutput word.length kind first)
      (readOutput word.length kind second) := by
  have start := (beside.advanceBy starts visible).skipSpacing
  unfold readOutput
  dsimp only
  rw [start.atLineEnd]
  split
  · exact .ok (complete_meets rfl beside ⟨start, .nil⟩)
  · refine .bind (embedded_alike rfl rfl _ start) fun x y echo => ?_
    rw [echo.leads.beside.atLineEnd]
    split
    · exact .ok (complete_meets rfl beside ⟨echo.leads.beside, .cons (echo.token inert) .nil⟩)
    · exact .error rfl

theorem arguments_reads :
    Lexes (Meets spelling (List.Forall₂ (Akin spelling))) (readArguments first) (readArguments second) := by
  unfold readArguments
  rw [beside.isAt rfl]
  split
  · exact .map (embedded_alike rfl rfl _ beside) fun x y echo => ⟨echo.leads.beside, .cons (echo.token rfl) .nil⟩
  · exact .ok ⟨beside, .nil⟩

theorem mixinCall_reads (found : first.isAt '+' = true) :
    Lexes (Meets spelling (Akin spelling)) (readMixinCall first) (readMixinCall second) := by
  have name := (beside.advance_isAt found rfl).skipSpacing
  have named : Beside spelling (first.advance.skipSpacing.dropWhile isTagWord)
      (second.advance.skipSpacing.dropWhile isTagWord) := name.dropWhile ⟨rfl, rfl, rfl⟩
  unfold readMixinCall
  dsimp only
  rw [name.isClass ⟨rfl, rfl⟩]
  split
  · exact .error rfl
  · refine .bind (arguments_reads named) fun x y arguments => ?_
    have stop := arguments.beside.skipSpacing
    rw [stop.atLineEnd]
    split
    · refine .ok ⟨stop, wrap_akin (.name rfl (word_text name _) arguments.values) (between_kept beside ?_ ?_ stop)⟩
      · exact (Input.reaches_advance _).trans ((Input.reaches_skipSpacing _).trans
          ((Input.reaches_dropWhile ..).trans (x.reached.trans (Input.reaches_skipSpacing _))))
      · exact (Input.reaches_advance _).trans ((Input.reaches_skipSpacing _).trans
          ((Input.reaches_dropWhile ..).trans (y.reached.trans (Input.reaches_skipSpacing _))))
    · exact .error rfl

theorem nameless_reads : Lexes (Meets spelling (Akin spelling)) (readNameless first) (readNameless second) := by
  refine .bind (tagParts_reads false beside) fun x y parts => ?_
  have kept := between_kept beside x.reached y.reached parts.beside
  refine .ok ⟨parts.beside, wrap_akin ?_ kept⟩
  exact .tag kept (mark_akin rfl first second) ((mark_text _ second).trans (mark_text _ first).symm) parts.values

theorem dot_meets (found : first.isAt '.' = true) :
    Meets spelling (Akin spelling) (readDot first) (readDot second) :=
  have after := beside.advance_isAt found rfl
  complete_meets rfl beside
    ⟨after, .cons (between_akin rfl beside (Input.reaches_advance _) (Input.reaches_advance _) after) .nil⟩

theorem codeLine_reads (blocks : Blocks spelling start stop) (reached : start.Reaches first)
    (arrived : stop.Reaches second) (found : first.isAt '-' = true) :
    Lexes (Meets spelling (Akin spelling)) (readCode start first) (readCode stop second) := by
  have after := beside.advance_isAt found rfl
  unfold readCode
  rw [after.atLineEnd]
  split
  · refine .bind (blocks reached arrived found beside) fun x y block => .ok ?_
    exact complete_meets rfl beside ⟨block.beside, block.values⟩
  · refine .bind (statements_reads (.refl rfl rfl) _ after) fun x y statements => .ok ?_
    exact complete_meets rfl beside ⟨statements.beside, statements.values⟩

end

/-! Statements. -/

/-- Two statements that are the same but for what is quoted in them. -/
structure Stating (spelling : Spelling) (token twin : Token) : Prop where
  akin : Akin spelling token twin
  muted : twin.expr.map Expr.muted = token.expr.map Expr.muted

/-- Two statements that began side by side, with nothing quoted so far. -/
structure Onset (spelling : Spelling) (start stop first second : Input) : Prop where
  beside : Beside spelling start stop
  clear : Clear start first
  reached : start.Reaches first
  arrived : stop.Reaches second

theorem Onset.on {next follow : Input} (onset : Onset spelling start stop first second) (clear : Clear first next)
    (reached : first.Reaches next) (arrived : second.Reaches follow) : Onset spelling start stop next follow :=
  ⟨onset.beside, onset.clear.trans clear, onset.reached.trans reached, onset.arrived.trans arrived⟩

/-- A statement from its word to the end of its expression. -/
theorem statement_akin {kind : TokenKind} (inert : kind.isInert = true) {children others : List Token}
    (inner : List.Forall₂ (Akin spelling) children others) (onset : Onset spelling start stop first second)
    {x : Parsed Embedded first} {y : Parsed Embedded second} (echo : Echo spelling x y) :
    Stating spelling { Token.between kind start x.rest with expr := some x.value.expr, children }
      { Token.between kind stop y.rest with expr := some y.value.expr, children := others } := by
  have kept := between_kept onset.beside (onset.reached.trans x.reached) (onset.arrived.trans y.reached)
    echo.leads.beside
  refine ⟨.stating inert kept (fun spares => congrArg some ?_) inner, congrArg some echo.muted⟩
  rcases spares rfl with keeps | unbroken
  · exact echo.quoted (.inl keeps)
  · have text : Unbroken (start.textTo x.rest.pos) := by rwa [← String.toList_ofList (l := start.textTo x.rest.pos)]
    exact (echo.leads.after onset.clear).of_unbroken (onset.reached.trans x.reached) text

section

variable (beside : Beside spelling first second)
include beside

theorem endsStatement_same : endsStatement second = endsStatement first := by
  unfold endsStatement
  rw [beside.atLineEnd, beside.isAt rfl]

theorem statement_reads {kind : TokenKind} (inert : kind.isInert = true)
    (onset : Onset spelling start stop first second) :
    Lexes (Meets spelling (Stating spelling)) (readStatement kind start first) (readStatement kind stop second) := by
  refine .bind (embedded_alike rfl rfl _ beside) fun x y echo => ?_
  rw [endsStatement_same echo.leads.beside]
  split
  · exact .ok ⟨echo.leads.beside, statement_akin inert .nil onset echo⟩
  · exact .error rfl

theorem mixinDefinition_reads (onset : Onset spelling start stop first second) :
    Lexes (Meets spelling (Akin spelling)) (readMixinDefinition start first) (readMixinDefinition stop second) := by
  refine .bind (statement_reads beside rfl onset) fun x y definition => ?_
  have same : (y.value.expr.any fun expr => expr.definedName?.isSome) =
      x.value.expr.any fun expr => expr.definedName?.isSome := by
    have muted := definition.values.muted
    generalize x.value.expr = expr at muted
    generalize y.value.expr = copy at muted
    cases expr with
    | none =>
      rw [Option.map_eq_none_iff.mp muted]
    | some expr =>
      obtain ⟨copy, rfl, alike⟩ := Option.map_eq_some_iff.mp muted
      rw [Option.any_some, Option.any_some, ← Expr.definedName_muted copy, alike, Expr.definedName_muted]
  rw [same]
  split
  · exact .ok ⟨definition.beside, definition.values.akin⟩
  · exact .error rfl

/-! Loops. -/

omit beside in
theorem optional_akin {token twin : Option Token} (akin : Option.Rel (Akin spelling) token twin) :
    twin.isSome = token.isSome ∧ List.Forall₂ (Akin spelling) token.toList twin.toList := by
  cases akin with
  | none => exact ⟨rfl, .nil⟩
  | some akin => exact ⟨rfl, .cons akin .nil⟩

/-- The second variable of a loop, which is not quoted. -/
theorem secondVariable_reads : Lexes
    (fun x y => Meets spelling (Option.Rel (Akin spelling)) x y ∧ Clear first x.rest)
    (readSecondVariable first) (readSecondVariable second) := by
  have spaced := beside.skipSpacing
  unfold readSecondVariable
  dsimp only
  rw [spaced.isAt rfl]
  split
  · rename_i comma
    have word := (spaced.advance_isAt comma rfl).skipSpacing
    have after : Beside spelling (first.skipSpacing.advance.skipSpacing.dropWhile isTagWord)
        (second.skipSpacing.advance.skipSpacing.dropWhile isTagWord) := word.dropWhile ⟨rfl, rfl, rfl⟩
    rw [after.isClass ⟨rfl, rfl⟩, word.isClass ⟨rfl, rfl⟩]
    split
    · refine .ok ⟨⟨after.skipSpacing, ?_⟩, ?_⟩
      · dsimp only
        split
        · exact .some (word_akin word rfl)
        · exact .none
      · exact ((((Clear.skipSpacing first).trans (.advance_isAt comma rfl)).trans (.skipSpacing _)).trans
          (.dropWhile rfl rfl _)).trans (.skipSpacing _)
    · exact .error rfl
  · exact .ok ⟨⟨spaced, .none⟩, .skipSpacing first⟩

/-- What comes after a word is the same. -/
theorem startsWith_isClassAt {word : List Char} (visible : Visible word) {class? : Char → Bool}
    (blind : Blind class?) : (second.startsWith word && second.isClassAt class? word.length) =
      (first.startsWith word && first.isClassAt class? word.length) := by
  rw [beside.startsWith visible]
  cases starts : first.startsWith word with
  | false => rfl
  | true => rw [isClassAt_eq, isClassAt_eq, (beside.advanceBy starts visible).isClass blind]

theorem each_reads (onset : Onset spelling start stop first second) :
    Lexes (Meets spelling (Akin spelling)) (readEach start first) (readEach stop second) := by
  have named : Beside spelling (first.dropWhile isTagWord) (second.dropWhile isTagWord) :=
    beside.dropWhile ⟨rfl, rfl, rfl⟩
  unfold readEach
  dsimp only
  rw [named.isClass ⟨rfl, rfl⟩]
  split
  · exact .error rfl
  refine .bind (secondVariable_reads named) fun x y both => ?_
  obtain ⟨extra, passed⟩ := both
  have word := extra.beside
  have visible : Visible ['i', 'n'] := by decide
  have after : (y.rest.startsWith ['i', 'n'] && y.rest.isClassAt isSpacing 2) =
      (x.rest.startsWith ['i', 'n'] && x.rest.isClassAt isSpacing 2) :=
    startsWith_isClassAt word visible ⟨rfl, rfl⟩
  rw [Bool.and_assoc, Bool.and_assoc, beside.isClass ⟨rfl, rfl⟩, after]
  split
  · rename_i found
    have starts := (Bool.and_eq_true_iff.mp (Bool.and_eq_true_iff.mp found).2).1
    have source : Beside spelling (x.rest.advanceBy 2).skipSpacing (y.rest.advanceBy 2).skipSpacing :=
      (word.advanceBy starts visible).skipSpacing
    refine .bind (embedded_alike rfl rfl _ source) fun z w echo => .ok ⟨echo.leads.beside, ?_⟩
    obtain ⟨same, others⟩ := optional_akin extra.values
    have word := ((onset.on (.dropWhile rfl rfl first) (Input.reaches_dropWhile ..) (Input.reaches_dropWhile ..)).on
      passed x.reached y.reached).on (.advanceBy starts (by decide)) (Input.reaches_advanceBy 2 x.rest)
        (Input.reaches_advanceBy 2 y.rest)
    have begun := word.on (.skipSpacing _) (Input.reaches_skipSpacing _) (Input.reaches_skipSpacing _)
    dsimp only
    rw [same]
    refine (statement_akin ?_ (.cons (word_akin beside rfl) others) begun echo).akin
    split <;> rfl
  · exact .error rfl

end

/-! Targets. -/

/-- After spacing there is something else. -/
theorem begun_skipSpacing (input : Input) : input.skipSpacing.isClass isSpacing = false := by
  have first := List.head?_dropWhile_not isSpacing input.rest
  unfold Input.isClass
  rw [Input.skipSpacing, Input.rest_dropWhile]
  generalize input.rest.dropWhile isSpacing = text at first
  cases text with
  | nil => rfl
  | cons char text => exact first

/-- The rest of a line as a name. -/
theorem target_meets (kind : TokenKind) (name : kind.isName = true) (beside : Beside spelling first second)
    (begun : first.isClass isSpacing = false) :
    Meets spelling (Akin spelling) (readTarget kind first) (readTarget kind second) ∧
      (readTarget kind second).value.text = (readTarget kind first).value.text := by
  have same := congrArg (String.ofList <| Blank.stripEnd isSpacing ·) (restOfLine_same beside begun)
  exact ⟨⟨beside.skipRestOfLine, .name name same .nil⟩, same⟩

theorem inert_of_lookup {word : String} {kind : TokenKind}
    (found : Keyword.table.lookup word = some (.statement kind)) : kind.isInert = true := by
  obtain ⟨before, after, split, -⟩ := List.lookup_eq_some_iff.mp found
  have member : (word, Keyword.statement kind) ∈ Keyword.table := by
    rw [split]
    exact List.mem_append_right _ List.mem_cons_self
  simp only [Keyword.table, List.mem_cons, Prod.mk.injEq, Keyword.statement.injEq, reduceCtorEq, and_false,
    List.not_mem_nil, or_false, false_or] at member
  obtain ⟨-, rfl⟩ | ⟨-, rfl⟩ | ⟨-, rfl⟩ | ⟨-, rfl⟩ | ⟨-, rfl⟩ | ⟨-, rfl⟩ := member <;> rfl

section

variable (beside : Beside spelling first second)
include beside

theorem keyword_reads {word : String} {keyword : Keyword} (found : Keyword.table.lookup word = some keyword)
    (begun : first.isClass isSpacing = false) (onset : Onset spelling start stop first second) :
    Lexes (Meets spelling (Akin spelling)) (readKeyword keyword start first) (readKeyword keyword stop second) := by
  cases keyword with
  | includeTarget =>
    obtain ⟨target, same⟩ := target_meets .includeTarget rfl beside begun
    unfold readKeyword
    dsimp only
    rw [same]
    split
    · exact .error rfl
    · exact .ok target
  | doctype => exact .ok (target_meets .doctype rfl beside begun).1
  | mixin => exact mixinDefinition_reads beside onset
  | statement kind =>
    exact (statement_reads beside (inert_of_lookup found) onset).mono fun x y statement =>
      ⟨statement.beside, statement.values.akin⟩
  | each => exact each_reads beside onset

theorem elseIf_reads (starts : first.startsWith ['i', 'f'] = true) (onset : Onset spelling start stop first second) :
    Lexes (Meets spelling (Akin spelling)) (readElseIf start first) (readElseIf stop second) := by
  have after : Beside spelling (first.advanceBy 2) (second.advanceBy 2) := beside.advanceBy starts (by decide)
  have passed := (onset.on (.advanceBy starts (by decide)) (Input.reaches_advanceBy 2 first)
    (Input.reaches_advanceBy 2 second)).on (.skipSpacing _) (Input.reaches_skipSpacing _) (Input.reaches_skipSpacing _)
  unfold readElseIf
  dsimp only
  rw [after.isClass ⟨rfl, rfl⟩]
  split
  · exact .error rfl
  · exact .bind (statement_reads after.skipSpacing rfl passed) fun x y statement =>
      .ok ⟨statement.beside, statement.values.akin⟩

theorem alone_reads {kind : TokenKind} (fault : LexFault) {begin final ahead follow : Input}
    (alone : Akin spelling (.between kind begin final) (.between kind ahead follow)) :
    Lexes (Meets spelling (Akin spelling)) (readAlone kind fault begin final first)
      (readAlone kind fault ahead follow second) := by
  unfold readAlone
  rw [endsStatement_same beside]
  split
  · exact .ok ⟨beside, alone⟩
  · exact .error rfl

theorem afterName_reads :
    Lexes (Meets spelling (List.Forall₂ (Akin spelling))) (readAfterName first) (readAfterName second) := by
  unfold readAfterName
  rw [beside.isClass ⟨rfl, rfl⟩]
  split
  · exact .map (text_reads beside.skipSpacing) fun x y text => ⟨text.beside, text.values⟩
  · exact tagParts_reads false beside

/-! Lines. -/

theorem word_reads : Lexes (Meets spelling (Akin spelling)) (readWord first) (readWord second) := by
  have named : Beside spelling (first.dropWhile isTagWord) (second.dropWhile isTagWord) :=
    beside.dropWhile ⟨rfl, rfl, rfl⟩
  have after := named.skipSpacing
  have begun : (first.dropWhile isTagWord).skipSpacing.isClass isSpacing = false := begun_skipSpacing _
  have onset : Onset spelling first second (first.dropWhile isTagWord).skipSpacing
      (second.dropWhile isTagWord).skipSpacing :=
    ⟨beside, (Clear.dropWhile rfl rfl first).trans (.skipSpacing _),
      (Input.reaches_dropWhile ..).trans (Input.reaches_skipSpacing _),
      (Input.reaches_dropWhile ..).trans (Input.reaches_skipSpacing _)⟩
  have alone {kind : TokenKind} (inert : kind.isInert = true) :
      Akin spelling (.between kind first (first.dropWhile isTagWord))
        (.between kind second (second.dropWhile isTagWord)) :=
    between_akin inert beside (Input.reaches_dropWhile ..) (Input.reaches_dropWhile ..) named
  have starts : Visible ['i', 'f'] := by decide
  unfold readWord
  dsimp only
  rw [beside.takeWhile ⟨rfl, rfl, rfl, rfl⟩, named.isClass ⟨rfl, rfl⟩, after.startsWith starts, after.atLineEnd]
  generalize chosen : (if (first.dropWhile isTagWord).isClass isSpacing = true then
    Keyword.table.lookup (String.ofList (first.takeWhile isTagWord)) else none) = keyword
  cases keyword with
  | some keyword =>
    have found := (Option.ite_none_right_eq_some.mp chosen).2
    exact .bind (keyword_reads after found begun onset) fun x y statement =>
      .ok ⟨statement.beside, statement.values⟩
  | none =>
    refine .ite (fun condition => ?_) fun _ => .ite (fun _ => ?_) fun _ => .ite (fun _ => ?_) fun _ =>
      .ite (fun _ => .ok ⟨after, mark_akin rfl _ _⟩) fun _ => ?_
    · exact .bind (elseIf_reads after (Bool.and_eq_true_iff.mp condition).2 onset) fun x y statement =>
        .ok ⟨statement.beside, statement.values⟩
    · exact .bind (alone_reads after _ (alone rfl)) fun x y statement => .ok ⟨statement.beside, statement.values⟩
    · exact .bind (alone_reads after _ (alone rfl)) fun x y statement => .ok ⟨statement.beside, statement.values⟩
    · refine .bind (afterName_reads named) fun x y parts => ?_
      have kept := between_kept beside ((Input.reaches_dropWhile ..).trans x.reached)
        ((Input.reaches_dropWhile ..).trans y.reached) parts.beside
      refine .ok ⟨parts.beside, wrap_akin ?_ kept⟩
      exact .tag kept (word_akin beside rfl) (word_text beside _) parts.values

/-- What a note of a tag without a name begins with. -/
theorem notes_same {class? : Char → Bool} (solid : Solid class?) :
    (second.isClassAt isTagWord 1 && second.isClass class?) =
      (first.isClassAt isTagWord 1 && first.isClass class?) := by
  rw [beside.isClass solid.blind]
  cases note : first.isClass class? with
  | false => rw [Bool.and_false, Bool.and_false]
  | true =>
    have after : Beside spelling (first.advanceBy 1) (second.advanceBy 1) := beside.advance solid note
    rw [isClassAt_eq, isClassAt_eq, after.isClass ⟨rfl, rfl⟩]

theorem lone_same : (second.isAt '.' && (second.advance.atLineEnd || second.advance.isAt '\x00')) =
    (first.isAt '.' && (first.advance.atLineEnd || first.advance.isAt '\x00')) := by
  rw [beside.isAt rfl]
  cases dot : first.isAt '.' with
  | false => rfl
  | true =>
    have after := beside.advance_isAt dot rfl
    rw [after.atLineEnd, after.isAt rfl]

omit beside in
theorem startsWith_of_isAt {char : Char} {input : Input} (found : input.isAt char = true) :
    input.startsWith [char] = true := by
  obtain ⟨other, text, rest, same⟩ := cons_of_isClass found
  rw [Input.startsWith, rest, beq_iff_eq.mp same, List.isPrefixOf_cons_cons_self]
  rfl

/-- Two lines of markup begin at places side by side. -/
theorem line_reads (blocks : Blocks spelling start stop) (reached : start.Reaches first)
    (arrived : stop.Reaches second) :
    Lexes (Meets spelling (Akin spelling)) (Line.read start first) (Line.read stop second) := by
  have comment : Visible ['/', '/'] := by decide
  have output : Visible ['='] := by decide
  have raw : Visible ['!', '='] := by decide
  unfold Line.read
  dsimp only
  rw [beside.startsWith comment, beside.isClass ⟨rfl, rfl⟩, notes_same beside ⟨rfl, rfl, rfl, rfl⟩,
    lone_same beside, beside.isAt rfl, beside.isAt rfl, beside.startsWith raw, beside.isAt rfl,
    beside.isAt rfl, beside.isAt rfl]
  refine .ite (comment_reads beside) fun _ => .ite (fun _ => word_reads beside) fun _ =>
    .ite (fun _ => nameless_reads beside) fun _ => .ite (fun dot => ?_) fun _ =>
    .ite (piped_reads beside) fun _ => .ite (fun found => ?_) fun _ =>
    .ite (fun starts => outputLine_reads beside starts raw rfl) fun _ =>
    .ite (codeLine_reads beside blocks reached arrived) fun _ => .ite (mixinCall_reads beside) fun _ =>
    .ite (fun _ => .ok (raw_meets beside)) fun _ => .error rfl
  · exact .ok (dot_meets beside (Bool.and_eq_true_iff.mp dot).1)
  · exact outputLine_reads beside (startsWith_of_isAt found) output rfl

end

end Respelling

end HtmlTemplate
