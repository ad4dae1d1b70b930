import HtmlTemplate.Proofs.Reading.Inline
import HtmlTemplate.Token.Document

/-! The shapes of what is read of a source: which parts stand on a line of markup, and which lines can
be nested in which. -/

namespace HtmlTemplate

namespace TokenKind

/-- Whether parts of a kind are what a template is written for: its texts, outputs and code. -/
def isAuthored : TokenKind → Bool
  | plainText | escapedOutput | rawOutput | code => true
  | _ => false

/-- Whether a line that is no line of markup has the expression that its kind asks for. -/
def asks (kind : TokenKind) (expr : Option Expr) : Bool :=
  match kind with
  | ifControl | unlessControl | elseIfControl | caseControl | whenControl | eachControl
  | eachPairControl | whileControl | mixinControl => expr.isSome
  | elseControl | defaultControl | includeTarget | doctype => true
  | _ => false

end TokenKind

namespace Token

/-- A part that is, and has in it, nothing that a template is written for. The pieces of the name of
an attribute are texts only in form. -/
inductive Silent : Token → Prop where
  | name {token : Token} (is : token.kind = .attributeName) : Silent token
  | other {token : Token} (quiet : token.kind.isAuthored = false)
      (parts : ∀ part ∈ token.children, Silent part) : Silent token

structure IsPair (token : Token) : Prop where
  is : token.kind = .escapedPair ∨ token.kind = .rawPair
  silent : Silent token

structure IsOutput (token : Token) : Prop where
  is : token.kind = .escapedOutput ∨ token.kind = .rawOutput
  states : token.expr.isSome = true
  leaf : token.children = []

structure IsCode (token : Token) : Prop where
  is : token.kind = .code
  states : token.expr.isSome = true
  leaf : token.children = []

/-- A part of a line of markup. -/
inductive Inline : Token → Prop where
  | text {token : Token} (is : token.kind = .plainText) (leaf : token.children = []) : Inline token
  | output {token : Token} (output : IsOutput token) : Inline token
  | attributes {token : Token} (is : token.kind = .attributeList)
      (pairs : ∀ pair ∈ token.children, IsPair pair) : Inline token
  | silent {token : Token} (tag : token.kind ≠ .tagLine) (list : token.kind ≠ .attributeList)
      (none : Silent token) : Inline token
  /-- A tag: its name and its other parts. -/
  | tag {token name : Token} {parts : List Token} (is : token.kind = .tagLine)
      (all : token.children = name :: parts) (named : Silent name)
      (inner : ∀ part ∈ name :: parts, Inline part)
      (word : name.text.toList.all CharClass.isTagWord = true) : Inline token

/-- What a line of markup begins with. -/
inductive Data : Token → Prop where
  | tag {token : Token} (is : token.kind = .tagLine) (parts : Inline token) : Data token
  | text {token : Token} (is : token.kind = .textLine ∨ token.kind = .pipedLine)
      (parts : ∀ part ∈ token.children, Inline part) : Data token
  | comment {token mark : Token} {parts : List Token} (is : token.kind = .commentLine)
      (all : token.children = mark :: parts) (marked : Silent mark)
      (inner : ∀ part ∈ parts, Inline part) : Data token
  | output {token : Token} (is : token.kind = .outputLine)
      (parts : ∀ part ∈ token.children, IsOutput part) : Data token
  | code {token : Token} (is : token.kind = .codeLine ∨ token.kind = .codeBlock)
      (parts : ∀ part ∈ token.children, IsCode part) : Data token
  | silent {token : Token} (is : token.kind = .dotLine ∨ token.kind = .mixinCall) (none : Silent token) :
      Data token

/-- A line with the lines nested in it, or a variable of a loop. -/
inductive Formed : Token → Prop where
  | markup {token data : Token} {lines : List Token} (is : token.kind = .line)
      (all : token.children = data :: lines) (shape : Data data) (nested : ∀ line ∈ lines, Formed line) :
      Formed token
  | statement {token : Token} (asks : token.kind.asks token.expr = true)
      (nested : ∀ line ∈ token.children, Formed line) : Formed token
  | named {token : Token} (is : token.kind = .eachVariable) (leaf : token.children = []) : Formed token

/-- The lines nested in a token. What a line of markup consists of comes before them. -/
def nested (token : Token) : List Token :=
  if token.kind = .line then token.children.tail else token.children

theorem silent_leaf (kind : TokenKind) (quiet : kind.isAuthored = false) {span : Span} {text : String}
    {expr : Option Expr} : Silent ⟨kind, span, text, expr, []⟩ :=
  .other quiet (List.forall_mem_nil _)

/-- A mark, or another part without parts of its own, on a line of markup. -/
theorem inline_mark {kind : TokenKind} (quiet : kind.isAuthored = false) (tag : kind ≠ .tagLine)
    (list : kind ≠ .attributeList) {span : Span} {text : String} {expr : Option Expr} :
    Inline ⟨kind, span, text, expr, []⟩ :=
  .silent tag list (silent_leaf kind quiet)

theorem Formed.addChildren {token : Token} (formed : Formed token) (headed : token.kind ≠ .eachVariable)
    {lines : List Token} (more : ∀ line ∈ lines, Formed line) : Formed (token.addChildren lines) := by
  cases formed with
  | @markup _ data nested is all shape inner =>
    refine .markup is (congrArg (· ++ lines) all) shape fun line member => ?_
    rcases List.mem_append.mp member with member | member
    · exact inner line member
    · exact more line member
  | statement asks inner =>
    refine .statement asks fun line member => ?_
    rcases List.mem_append.mp member with member | member
    · exact inner line member
    · exact more line member
  | named is => exact absurd is headed

/-- A line as it is read, before other lines are nested in it. -/
structure Headed (token : Token) : Prop where
  formed : Formed token
  line : token.kind ≠ .eachVariable
  /-- Only the variables of a loop are in it. -/
  bare : ∀ part ∈ token.nested, part.kind = .eachVariable

theorem Headed.addChildren {token : Token} (headed : Headed token) {lines : List Token}
    (more : ∀ line ∈ lines, Formed line) : Formed (token.addChildren lines) :=
  headed.formed.addChildren headed.line more

end Token

namespace Line

open Token

variable {α : Type} {start : Input}

/-- What is read satisfies a predicate. -/
abbrev Yields (good : α → Prop) (read : Except LexError (Parsed α start)) : Prop :=
  Reading.Outcome (fun parsed => good parsed.value) (fun _ => True) read

namespace Yields

variable {good : α → Prop}

theorem bind {γ : Type} {program : Except LexError γ} {next : γ → Except LexError (Parsed α start)}
    (goesOn : ∀ value, program = .ok value → Yields good (next value)) :
    Yields good (program >>= next) := by
  cases program with
  | error error => trivial
  | ok value => exact goesOn value rfl

theorem of_eq {program : Except LexError (Parsed α start)} (yields : Yields good program)
    {parsed : Parsed α start} (read : program = .ok parsed) : good parsed.value := by
  rw [read] at yields
  exact yields

/-- What is read from a later place. -/
theorem widen {later : Input} (reached : start.Reaches later)
    {program : Except LexError (Parsed α later)} (yields : Yields good program) :
    Yields good (do return (← program).widen reached) :=
  .bind fun _ read => yields.of_eq read

end Yields

end Line

open Token Line

/-! Attributes. -/

namespace Attribute

theorem readName_silent (input : Input) : Yields Silent (readName input) := by
  unfold readName
  split
  · trivial
  · split
    · cases readQuoted _ input.pos input.advance with
      | error error => trivial
      | ok pieces => exact .name rfl
    · dsimp only
      split
      · trivial
      · exact .name rfl

theorem readValue_pair {kind : TokenKind} (is : kind = .escapedPair ∨ kind = .rawPair) (start : Input)
    {name : Token} (named : Silent name) (input : Input) :
    Yields IsPair (readValue kind start name input) := by
  apply Yields.bind
  intro value _
  have valued : Silent (value.value.token .attributeValue) := silent_leaf _ rfl
  have parts := List.forall_mem_cons.mpr ⟨named, List.forall_mem_singleton.mpr valued⟩
  rcases is with rfl | rfl
  · exact ⟨.inl rfl, .other rfl parts⟩
  · exact ⟨.inr rfl, .other rfl parts⟩

theorem readPair_pair (input : Input) : Yields IsPair (readPair input) := by
  apply Yields.bind
  intro name read
  have named := (readName_silent input).of_eq read
  dsimp only
  split
  · exact .widen _ (readValue_pair (.inr rfl) input named _)
  · split
    · exact .widen _ (readValue_pair (.inl rfl) input named _)
    · split
      · exact ⟨.inl rfl, .other rfl (List.forall_mem_singleton.mpr named)⟩
      · trivial

theorem readPairs_pairs (input : Input) :
    Yields (fun pairs => ∀ pair ∈ pairs, IsPair pair) (readPairs input) := by
  fun_induction readPairs input with
  | case1 => nofun
  | case2 input _ step =>
    apply Yields.bind
    intro pair read
    have first := (readPair_pair input).of_eq read
    apply Yields.bind
    intro more further
    exact List.forall_mem_cons.mpr ⟨first, (step pair).of_eq further⟩

theorem readList_inline (input : Input) : Yields Token.Inline (readList input) := by
  apply Yields.bind
  intro pairs read
  have each := (readPairs_pairs input.skipWhitespace).of_eq read
  split
  · exact .attributes rfl each
  · trivial

end Attribute

/-! Text and tags. -/

namespace Inline

/-- A piece of text of which a part of a line is made. -/
def Shaped (piece : Piece) : Prop := Token.Inline piece.token

theorem shaped_literal (pos : Nat) (chars : List Char) : Shaped (.literal pos chars) :=
  .text rfl rfl

/-- A tag of which the name and the other parts have been read. -/
theorem inline_tag {parts : List Token} (inner : ∀ part ∈ parts, Token.Inline part) {span named : Span}
    {text name : String} (word : name.toList.all CharClass.isTagWord = true) :
    Token.Inline ⟨.tagLine, span, text, none, ⟨.tag, named, name, none, []⟩ :: parts⟩ :=
  have silent : Silent ⟨.tag, named, name, none, []⟩ := silent_leaf _ rfl
  .tag rfl rfl silent (List.forall_mem_cons.mpr ⟨.silent nofun nofun silent, inner⟩) word

/-- The name of a tag is a word. -/
theorem name_isWord (input : Input) :
    (Token.between .tag input (input.dropWhile CharClass.isTagWord)).text.toList.all CharClass.isTagWord =
      true := by
  unfold Token.between
  rw [String.toList_ofList, Input.textTo_dropWhile]
  exact List.all_takeWhile

/-- A tag without a name. -/
theorem mark_isWord (input : Input) : (Token.mark .tag input).text.toList.all CharClass.isTagWord = true := by
  have none : input.textTo input.pos = [] := Input.textTo_of_reaches rfl (.refl input)
  unfold Token.mark Token.between
  rw [String.toList_ofList, none]
  rfl

theorem readOutput_leaf {kind : TokenKind} (output : kind = .escapedOutput ∨ kind = .rawOutput)
    (input : Input) : Yields Token.Inline (readOutput kind input) := by
  apply Yields.bind
  intro output _
  split
  · exact .output ⟨‹_›, rfl, rfl⟩
  · trivial

theorem readAfterMark_inline (bracketed : Bool) (kind : TokenKind) (input : Input) :
    Yields (fun parts => ∀ part ∈ parts, Token.Inline part) (readAfterMark bracketed kind input) := by
  unfold readAfterMark
  split
  · nofun
  · split
    · trivial
    · apply Yields.bind
      intro output _
      split
      · refine List.forall_mem_singleton.mpr (.output ⟨?_, rfl, rfl⟩)
        change (if kind = .trailingOutput then _ else _) = _ ∨ (if kind = .trailingOutput then _ else _) = _
        split
        · exact .inl rfl
        · exact .inr rfl
      · trivial

theorem readAttributeExpr_inline (input : Input) : Yields Token.Inline (readAttributeExpr input) := by
  unfold readAttributeExpr
  split
  · trivial
  · apply Yields.bind
    intro expr _
    split
    · exact inline_mark rfl (by decide) (by decide)
    · trivial

theorem quiet_of_tagMarks : ∀ kind ∈ tagMarks,
    kind.isAuthored = false ∧ kind ≠ .tagLine ∧ kind ≠ .attributeList := by
  decide

theorem leaves_inline : Leaves (fun _ => True) (fun _ => True) Shaped Token.Inline where
  later _ _ := trivial
  fault _ _ := trivial
  escaped _ _ := by
    unfold escapePiece
    split
    · exact shaped_literal _ _
    · exact shaped_literal _ _
  char _ _ := shaped_literal _ _
  touching _ _ := shaped_literal _ _
  nested inline := inline
  token shaped := shaped
  output _ output := readOutput_leaf output _
  tag _ _ _ inner := inline_tag inner (name_isWord _)
  mark _ _ mark := by
    obtain ⟨quiet, tag, listed⟩ := quiet_of_tagMarks _ mark
    exact inline_mark quiet tag listed
  list _ := Attribute.readList_inline _
  expr _ := readAttributeExpr_inline _
  afterMark _ := readAfterMark_inline _ _ _

theorem readTagParts_inline (bracketed : Bool) (input : Input) :
    Yields (fun parts => ∀ part ∈ parts, Token.Inline part) (readTagParts bracketed input) :=
  leaves_inline.readTagParts bracketed trivial

theorem readText_inline (input : Input) :
    Yields (fun parts => ∀ part ∈ parts, Token.Inline part) (readText input) :=
  leaves_inline.readText trivial

end Inline

/-! Code. -/

namespace Code

/-- Statements of code. -/
def Coded (parts : List Token) : Prop := ∀ part ∈ parts, IsCode part

theorem readStatements_coded (options : ParseOptions) (place : ExprPlace) (input : Input) :
    Yields Coded (readStatements options place input) := by
  fun_induction readStatements options place input with
  | case1 => nofun
  | case2 input start _ blank step =>
    apply Yields.bind
    intro statement _
    split
    · apply Yields.bind
      intro more read
      exact List.forall_mem_cons.mpr ⟨⟨rfl, rfl, rfl⟩, (step statement ‹_›).of_eq read⟩
    · split
      · exact List.forall_mem_singleton.mpr ⟨rfl, rfl, rfl⟩
      · trivial

theorem readBlock_coded (outer : List Char) (indent : Option (List Char)) (input : Input) :
    Yields Coded (readBlock outer indent input) := by
  fun_induction readBlock outer indent input with
  | case1 => nofun
  | case2 indent input start _ spacing block _ continuation step =>
    apply Yields.bind
    intro line read
    have first := (readStatements_coded _ _ _).of_eq read
    apply Yields.bind
    intro more further
    exact List.forall_mem_append.mpr ⟨first, (step line).of_eq further⟩
  | case3 => nofun

end Code

/-! Lines. -/

namespace Line

variable {start : Input}

theorem headed_markup {data : Token} (shape : Data data) (start stop : Input) : Headed (wrap data start stop) :=
  ⟨.markup rfl rfl shape (List.forall_mem_nil _), show TokenKind.line ≠ .eachVariable by decide,
    List.forall_mem_nil _⟩

/-- A line that consists of the parts that are read. -/
theorem headed_complete {kind : TokenKind} {parts : Parsed (List Token) start}
    (shape : ∀ span text, Data ⟨kind, span, text, none, parts.value⟩) : Headed (complete kind parts).value :=
  headed_markup (shape _ _) _ _

theorem headed_statement {kind : TokenKind} {expr : Option Expr} (asks : kind.asks expr = true)
    {span : Span} {text : String} : Headed ⟨kind, span, text, expr, []⟩ := by
  refine ⟨.statement asks (List.forall_mem_nil _), ?_, ?_⟩
  · rintro rfl
    cases asks
  · unfold Token.nested
    split <;> exact List.forall_mem_nil _

theorem readPlain_headed (input : Input) : Yields Headed (readPlain input) := by
  unfold readPlain
  cases read : Inline.readText input with
  | error error => trivial
  | ok parts =>
    exact headed_complete fun _ _ => .text (.inl rfl) ((Inline.readText_inline input).of_eq read)

theorem readComment_headed (input : Input) : Yields Headed (readComment input) := by
  unfold readComment
  split
  · refine headed_complete fun _ _ => .comment rfl rfl (silent_leaf _ rfl) ?_
    split
    · nofun
    · exact List.forall_mem_singleton.mpr (.text rfl rfl)
  · apply Yields.bind
    intro text read
    exact headed_complete fun _ _ =>
      .comment rfl rfl (silent_leaf _ rfl) ((Inline.readText_inline _).of_eq read)

theorem readPiped_headed (input : Input) : Yields Headed (readPiped input) := by
  apply Yields.bind
  intro text read
  exact headed_complete fun _ _ => .text (.inr rfl) (List.forall_mem_cons.mpr
    ⟨inline_mark rfl (by decide) (by decide), (Inline.readText_inline _).of_eq read⟩)

theorem readOutput_headed (markLength : Nat) {kind : TokenKind}
    (output : kind = .escapedOutput ∨ kind = .rawOutput) (input : Input) :
    Yields Headed (readOutput markLength kind input) := by
  unfold readOutput
  dsimp only
  split
  · exact headed_complete fun _ _ => .output rfl nofun
  · apply Yields.bind
    intro parsed _
    split
    · exact headed_complete fun _ _ => .output rfl (List.forall_mem_singleton.mpr ⟨output, rfl, rfl⟩)
    · trivial

theorem readCode_headed (lineStart input : Input) : Yields Headed (readCode lineStart input) := by
  unfold readCode
  split
  · apply Yields.bind
    intro block read
    have coded := (Code.readBlock_coded _ _ _).of_eq read
    exact headed_complete fun _ _ => .code (.inr rfl) coded
  · apply Yields.bind
    intro statements read
    have coded := (Code.readStatements_coded _ _ _).of_eq read
    exact headed_complete fun _ _ => .code (.inl rfl) coded

theorem readArguments_silent (input : Input) :
    Yields (fun parts => ∀ part ∈ parts, Silent part) (readArguments input) := by
  unfold readArguments
  split
  · cases Embedded.read .inline .mixinCall input with
    | error error => trivial
    | ok arguments => exact List.forall_mem_singleton.mpr (silent_leaf _ rfl)
  · nofun

theorem readMixinCall_headed (input : Input) : Yields Headed (readMixinCall input) := by
  unfold readMixinCall
  dsimp only
  split
  · trivial
  · apply Yields.bind
    intro arguments read
    split
    · exact headed_markup (.silent (.inr rfl) (.other rfl ((readArguments_silent _).of_eq read))) _ _
    · trivial

theorem readStatement_headed {kind : TokenKind} (asks : ∀ expr, kind.asks (some expr) = true)
    (start input : Input) : Yields Headed (readStatement kind start input) := by
  unfold readStatement
  apply Yields.bind
  intro expr _
  split
  · exact headed_statement (asks _)
  · trivial

theorem readMixinDefinition_headed (start input : Input) :
    Yields Headed (readMixinDefinition start input) := by
  unfold readMixinDefinition
  apply Yields.bind
  intro definition read
  have headed := (readStatement_headed (fun _ => rfl) start input).of_eq read
  split
  · exact headed
  · trivial

theorem readSecondVariable_named (input : Input) :
    Yields (fun second => ∀ named ∈ second.toList, named.kind = .eachVariable ∧ named.children = [])
      (readSecondVariable input) := by
  unfold readSecondVariable
  dsimp only
  split
  · split
    · split
      · exact List.forall_mem_singleton.mpr ⟨rfl, rfl⟩
      · nofun
    · trivial
  · nofun

theorem readEach_headed (start input : Input) : Yields Headed (readEach start input) := by
  unfold readEach
  dsimp only
  split
  · trivial
  · apply Yields.bind
    intro second read
    have further := (readSecondVariable_named _).of_eq read
    split
    · apply Yields.bind
      intro source _
      let first := Token.between .eachVariable input (input.dropWhile CharClass.isTagWord)
      have named : ∀ part ∈ first :: second.value.toList,
          part.kind = .eachVariable ∧ part.children = [] :=
        List.forall_mem_cons.mpr ⟨⟨rfl, rfl⟩, further⟩
      have inner : ∀ part ∈ first :: second.value.toList, Formed part :=
        fun part member => .named (named part member).1 (named part member).2
      have bare : ∀ part ∈ first :: second.value.toList, part.kind = .eachVariable :=
        fun part member => (named part member).1
      cases second.value.isSome with
      | true => exact ⟨.statement rfl inner, show TokenKind.eachPairControl ≠ _ by decide, bare⟩
      | false => exact ⟨.statement rfl inner, show TokenKind.eachControl ≠ _ by decide, bare⟩
    · trivial

/-- The words that begin a statement begin one that asks for an expression. -/
theorem asks_of_lookup {word : String} {kind : TokenKind}
    (found : Keyword.table.lookup word = some (.statement kind)) (expr : Expr) :
    kind.asks (some expr) = true := by
  obtain ⟨before, after, split, -⟩ := List.lookup_eq_some_iff.mp found
  have member : (word, Keyword.statement kind) ∈ Keyword.table := by simp [split]
  simp only [Keyword.table, List.mem_cons, Prod.mk.injEq, Keyword.statement.injEq, reduceCtorEq, and_false,
    List.not_mem_nil, or_false, false_or] at member
  obtain ⟨-, rfl⟩ | ⟨-, rfl⟩ | ⟨-, rfl⟩ | ⟨-, rfl⟩ | ⟨-, rfl⟩ | ⟨-, rfl⟩ := member <;> rfl

theorem readKeyword_headed {word : String} {keyword : Keyword}
    (found : Keyword.table.lookup word = some keyword) (start input : Input) :
    Yields Headed (readKeyword keyword start input) := by
  cases keyword with
  | includeTarget =>
    unfold readKeyword
    dsimp only
    split
    · trivial
    · exact headed_statement rfl
  | doctype => exact headed_statement rfl
  | mixin => exact readMixinDefinition_headed start input
  | statement kind => exact readStatement_headed (asks_of_lookup found) start input
  | each => exact readEach_headed start input

theorem readElseIf_headed (start input : Input) : Yields Headed (readElseIf start input) := by
  unfold readElseIf
  dsimp only
  split
  · trivial
  · exact .widen _ (readStatement_headed (fun _ => rfl) _ _)

theorem readAlone_headed {kind : TokenKind} (asks : kind.asks none = true) (fault : LexFault)
    (start stop input : Input) : Yields Headed (readAlone kind fault start stop input) := by
  unfold readAlone
  split
  · exact headed_statement asks
  · trivial

theorem readAfterName_inline (input : Input) :
    Yields (fun parts => ∀ part ∈ parts, Token.Inline part) (readAfterName input) := by
  unfold readAfterName
  split
  · cases read : Inline.readText input.skipSpacing with
    | error error => trivial
    | ok parts => exact (Inline.readText_inline input.skipSpacing).of_eq read
  · exact Inline.readTagParts_inline false input

theorem readWord_headed (input : Input) : Yields Headed (readWord input) := by
  unfold readWord
  dsimp only
  split
  · rename_i keyword found
    split at found
    · exact .widen _ (readKeyword_headed found _ _)
    · cases found
  · split
    · exact .widen _ (readElseIf_headed _ _)
    · split
      · exact .widen _ (readAlone_headed rfl _ _ _ _)
      · split
        · exact .widen _ (readAlone_headed rfl _ _ _ _)
        · split
          · exact headed_statement rfl
          · apply Yields.bind
            intro parts read
            exact headed_complete fun _ _ =>
              .tag rfl (Inline.inline_tag ((readAfterName_inline _).of_eq read) (Inline.name_isWord input))

theorem readNameless_headed (input : Input) : Yields Headed (readNameless input) := by
  apply Yields.bind
  intro parts read
  exact headed_complete fun _ _ =>
    .tag rfl (Inline.inline_tag ((Inline.readTagParts_inline false input).of_eq read) (Inline.mark_isWord input))

theorem read_headed (lineStart input : Input) : Yields Headed (Line.read lineStart input) := by
  unfold Line.read
  dsimp only
  split
  · exact readComment_headed input
  · split
    · exact readWord_headed input
    · split
      · exact readNameless_headed input
      · split
        · exact headed_complete fun _ _ => .silent (.inl rfl)
            (.other rfl (List.forall_mem_singleton.mpr (silent_leaf _ rfl)))
        · split
          · exact readPiped_headed input
          · split
            · exact readOutput_headed 1 (.inl rfl) input
            · split
              · exact readOutput_headed 2 (.inr rfl) input
              · split
                · exact readCode_headed lineStart input
                · split
                  · exact readMixinCall_headed input
                  · split
                    · exact headed_complete fun _ _ => .text (.inl rfl) nofun
                    · trivial

end Line

/-! Lines in their places. -/

namespace Row

/-- A row of lines as they are read. -/
structure Headed (row : Row) : Prop where
  line : row.line.Headed
  chained : ∀ line ∈ row.chained, line.Headed

theorem link_formed {line : Token} (headed : line.Headed) {nested chained : List Token}
    (formed : ∀ token ∈ nested, token.Formed) (heads : ∀ token ∈ chained, token.Headed) :
    (link line nested chained).Formed := by
  induction chained generalizing line with
  | nil => exact headed.addChildren formed
  | cons next chained step =>
    obtain ⟨first, rest⟩ := List.forall_mem_cons.mp heads
    exact headed.addChildren (List.forall_mem_singleton.mpr (step first rest))

theorem nest_formed {rows : List Row} (headed : ∀ row ∈ rows, row.Headed) :
    ∀ line ∈ nest rows, line.2.Formed := by
  induction rows with
  | nil => nofun
  | cons row rows step =>
    obtain ⟨first, rest⟩ := List.forall_mem_cons.mp headed
    have formed := step rest
    have nested : ∀ token ∈ ((nest rows).takeWhile fun line => row.depth < line.1).map Prod.snd,
        token.Formed := by
      intro token member
      obtain ⟨line, taken, rfl⟩ := List.mem_map.mp member
      exact formed line ((List.takeWhile_prefix _).subset taken)
    intro line member
    rcases List.mem_cons.mp member with rfl | member
    · exact link_formed first.line nested first.chained
    · exact formed line ((List.dropWhile_suffix _).subset member)

end Row

namespace Document

theorem readChained_headed (lineStart input : Input) :
    Yields (fun chained => ∀ line ∈ chained, line.Headed) (readChained lineStart input) := by
  fun_induction readChained lineStart input with
  | case1 => nofun
  | case2 input colon start later more step =>
    apply Yields.bind
    intro line read
    have headed := (Line.read_headed lineStart start).of_eq read
    apply Yields.bind
    intro chained further
    exact List.forall_mem_cons.mpr ⟨headed, (step line).of_eq further⟩
  | case3 => nofun

theorem readRow_headed (outline : Outline) (lineStart input : Input) :
    Yields Row.Headed (readRow outline lineStart input) := by
  unfold readRow
  split
  · apply Yields.bind
    intro line read
    exact ⟨(Line.readPlain_headed input).of_eq read, nofun⟩
  · apply Yields.bind
    intro line read
    apply Yields.bind
    intro chained further
    exact ⟨(Line.read_headed lineStart input).of_eq read,
      (readChained_headed lineStart line.rest).of_eq further⟩

theorem readRows_headed (outline : Outline) (input : Input) {rows : List Row}
    (read : readRows outline input = .ok rows) : ∀ row ∈ rows, row.Headed := by
  fun_induction readRows outline input generalizing rows with
  | case1 =>
    cases read
    nofun
  | case2 =>
    rename_i step
    exact step read
  | case3 => cases read
  | case4 =>
    rename_i outline input _ _ _ _ entered _ step
    cases first : readRow entered input input.skipSpacing with
    | error error =>
      rw [first] at read
      cases read
    | ok row =>
      rw [first] at read
      simp only [bind, Except.bind] at read
      split at read
      · cases read
      · rename_i others further
        cases read
        exact List.forall_mem_cons.mpr
          ⟨(readRow_headed entered input input.skipSpacing).of_eq first, step row further⟩

end Document

namespace Token

theorem kind_ofSource {source : List Char} {root : Token} (read : ofSource source = .ok root) :
    root.kind = .root := by
  unfold ofSource at read
  cases rows : Document.readRows .start (.ofText source) with
  | error error =>
    rw [rows] at read
    cases read
  | ok found =>
    rw [rows] at read
    cases read
    rfl

/-- The lines of a source are formed as lines are. -/
theorem ofSource_formed {source : List Char} {root : Token} (read : ofSource source = .ok root) :
    ∀ line ∈ root.children, line.Formed := by
  unfold ofSource at read
  cases rows : Document.readRows .start (.ofText source) with
  | error error =>
    rw [rows] at read
    cases read
  | ok found =>
    rw [rows] at read
    cases read
    intro line member
    obtain ⟨placed, inside, rfl⟩ := List.mem_map.mp member
    exact Row.nest_formed (Document.readRows_headed .start _ rows) placed inside

end Token

end HtmlTemplate
