import HtmlTemplate.Proofs.Content.Shapes
import HtmlTemplate.Proofs.Offsets.Templates

/-! How far texts go. A text is read up to the end of its line, with one exception: a backslash takes the
character after it along, and if that character ends the line, the text goes on in the next one. -/

namespace HtmlTemplate

open CharClass

/-- Every character of a text that ends a line has a backslash directly before it. -/
def EndsEscaped (text : List Char) : Prop :=
  ∀ before char after, text = before ++ char :: after → isLineEnd char = true → before.getLast? = some '\\'

namespace Token

/-- A part of a tree that is not a piece of the name of an attribute. -/
inductive Shown (root : Token) : Token → Prop where
  | root : Shown root root
  | part {token part : Token} (shown : Shown root token) (other : token.kind ≠ .attributeName)
      (member : part ∈ token.children) : Shown root part

theorem Shown.trans {root token part : Token} (shown : root.Shown token) (inner : token.Shown part) :
    root.Shown part := by
  induction inner with
  | root => exact shown
  | part _ other member step => exact step.part other member

/-- A part in which every text, apart from the names of attributes, has only escaped line ends. -/
inductive Confined : Token → Prop where
  | name {token : Token} (is : token.kind = .attributeName) : Confined token
  | other {token : Token} (text : token.kind = .plainText → EndsEscaped token.text.toList)
      (parts : ∀ part ∈ token.children, Confined part) : Confined token

namespace Confined

variable {token : Token}

theorem leaf {kind : TokenKind} (other : kind ≠ .plainText) {span : Span} {text : String} {expr : Option Expr} :
    Confined ⟨kind, span, text, expr, []⟩ :=
  .other (fun plain => absurd plain other) (List.forall_mem_nil _)

/-- A part that is no text itself, with some parts in it. -/
theorem holder {kind : TokenKind} (other : kind ≠ .plainText) {parts : List Token}
    (confined : ∀ part ∈ parts, Confined part) {span : Span} {text : String} {expr : Option Expr} :
    Confined ⟨kind, span, text, expr, parts⟩ :=
  .other (fun plain => absurd plain other) confined

theorem of_silent (silent : Silent token) : Confined token := by
  induction silent with
  | name is => exact .name is
  | other quiet _ step =>
    refine .other (fun plain => ?_) step
    rw [plain] at quiet
    cases quiet

theorem addChildren (confined : Confined token) {lines : List Token} (more : ∀ line ∈ lines, Confined line) :
    Confined (token.addChildren lines) := by
  cases confined with
  | name is => exact .name is
  | other text parts => exact .other text (List.forall_mem_append.mpr ⟨parts, more⟩)

theorem shown (confined : Confined token) {part : Token} (shown : token.Shown part) : Confined part := by
  induction shown with
  | root => exact confined
  | part _ other member step =>
    cases step with
    | name is => exact absurd is other
    | other _ parts => exact parts _ member

theorem escaped (confined : Confined token) (plain : token.kind = .plainText) :
    EndsEscaped token.text.toList := by
  cases confined with
  | name is => cases plain.symm.trans is
  | other text => exact text plain

end Confined

end Token

namespace Confinement

open Token Line

section

variable {text more : List Char}

theorem endsEscaped_of_none (none : ∀ char ∈ text, isLineEnd char = false) : EndsEscaped text := by
  rintro before char after rfl ends
  have other := none char (List.mem_append_right _ (List.mem_cons_self ..))
  cases ends.symm.trans other

theorem endsEscaped_of_any (none : text.any isLineEnd = false) : EndsEscaped text :=
  endsEscaped_of_none fun char member => Bool.eq_false_iff.mpr (List.any_eq_false.mp none char member)

/-- Texts can be put together: the second one does not begin with the end of a line. -/
theorem endsEscaped_append (first : EndsEscaped text) (second : EndsEscaped more) : EndsEscaped (text ++ more) := by
  intro before char after split ends
  rcases List.append_eq_append_iff.mp split with ⟨between, rfl, later⟩ | ⟨between, rfl, later⟩
  · have last := second between char after later ends
    rw [List.getLast?_append, last]
    rfl
  · cases between with
    | nil => exact absurd (second [] char after later.symm ends) nofun
    | cons found between =>
      obtain ⟨rfl, rfl⟩ := List.cons.inj later
      exact first before char between rfl ends

end

/-! Text and tags. -/

theorem confined_literal {pos : Nat} {chars : List Char} :
    Confined (Piece.literal pos chars).token ↔ EndsEscaped chars := by
  have same : (Piece.literal pos chars).token.text.toList = chars := String.toList_ofList
  constructor
  · intro confined
    rw [← same]
    exact confined.escaped rfl
  · intro escaped
    exact .other (fun _ => same.symm ▸ escaped) (List.forall_mem_nil _)

/-- A mark that is escaped is on one line. -/
theorem mark_escaped {input : Input} (marked : Inline.startsMark input = true) :
    EndsEscaped (input.rest.take 2) := by
  have taken {word : List Char} (length : word.length = 2) (starts : input.startsWith word = true) :
      input.rest.take 2 = word := by
    have begins := List.prefix_iff_eq_take.mp (List.isPrefixOf_iff_prefix.mp starts)
    rw [length] at begins
    exact begins.symm
  apply endsEscaped_of_any
  simp only [Inline.startsMark, Bool.or_eq_true] at marked
  rcases marked with (marked | marked) | marked <;> rw [taken rfl marked] <;> rfl

/-- Any character may be escaped, also one that ends the line. -/
theorem backslash_escaped {input : Input} (escape : input.isAt '\\' = true) : EndsEscaped (input.rest.take 2) := by
  obtain ⟨pos, _ | ⟨char, rest⟩⟩ := input
  · cases escape
  · obtain rfl : char = '\\' := eq_of_beq escape
    have first : EndsEscaped ['\\'] := endsEscaped_of_any rfl
    cases rest with
    | nil => exact first
    | cons next rest =>
      rintro (_ | ⟨found, _ | ⟨other, before⟩⟩) char after split ends
      · obtain ⟨rfl, -⟩ := List.cons.inj split
        cases ends
      · obtain ⟨rfl, -⟩ := List.cons.inj split
        rfl
      · cases before <;> cases split

theorem char_escaped {bracketed : Bool} {input : Input} (goesOn : Inline.ends bracketed input = false) :
    EndsEscaped (input.rest.take 1) := by
  obtain ⟨pos, _ | ⟨char, rest⟩⟩ := input
  · exact endsEscaped_of_any rfl
  · refine endsEscaped_of_none (List.forall_mem_singleton.mpr ?_)
    simp only [Inline.ends, Input.atLineEnd, Input.isClass, Bool.or_eq_false_iff] at goesOn
    exact goesOn.1.2

theorem readOutput_confined {kind : TokenKind} (other : kind ≠ .plainText) (input : Input) :
    Yields Confined (Inline.readOutput kind input) := by
  apply Yields.bind
  intro output _
  split
  · exact .leaf other
  · trivial

theorem readAfterMark_confined (bracketed : Bool) (kind : TokenKind) (input : Input) :
    Yields (fun parts => ∀ part ∈ parts, Confined part) (Inline.readAfterMark bracketed kind input) := by
  unfold Inline.readAfterMark
  split
  · exact List.forall_mem_nil _
  · split
    · trivial
    · apply Yields.bind
      intro output _
      split
      · refine List.forall_mem_singleton.mpr (.leaf ?_)
        split <;> decide
      · trivial

theorem readAttributeExpr_confined (input : Input) : Yields Confined (Inline.readAttributeExpr input) := by
  unfold Inline.readAttributeExpr
  split
  · trivial
  · apply Yields.bind
    intro expr _
    split
    · exact .leaf (by decide)
    · trivial

theorem readList_confined (input : Input) : Yields Confined (Attribute.readList input) := by
  apply Yields.bind
  intro pairs read
  have each := (Attribute.readPairs_pairs input.skipWhitespace).of_eq read
  split
  · exact .holder (of_decide_eq_true rfl) fun pair member => .of_silent (each pair member).silent
  · trivial

theorem text_of_tagMarks : ∀ kind ∈ Inline.tagMarks, kind ≠ .plainText := by decide

theorem leaves_confined :
    Inline.Leaves (fun _ => True) (fun _ => True) (fun piece => Confined piece.token) Confined where
  later _ _ := trivial
  fault _ _ := trivial
  -- This step alone does not look for the end of the line.
  escaped _ escape := by
    unfold Inline.escapePiece
    split
    · exact confined_literal.mpr (mark_escaped ‹_›)
    · exact confined_literal.mpr (backslash_escaped escape)
  char _ goesOn := confined_literal.mpr (char_escaped goesOn)
  touching first second :=
    confined_literal.mpr (endsEscaped_append (confined_literal.mp first) (confined_literal.mp second))
  nested confined := confined
  token confined := confined
  output _ output := readOutput_confined (by rcases output with rfl | rfl <;> decide) _
  tag _ _ _ confined :=
    .holder (of_decide_eq_true rfl) (List.forall_mem_cons.mpr ⟨.leaf (by decide), confined⟩)
  mark _ _ mark := .leaf (text_of_tagMarks _ mark)
  list _ := readList_confined _
  expr _ := readAttributeExpr_confined _
  afterMark _ := readAfterMark_confined _ _ _

theorem readTagParts_confined (bracketed : Bool) (input : Input) :
    Yields (fun parts => ∀ part ∈ parts, Confined part) (Inline.readTagParts bracketed input) :=
  leaves_confined.readTagParts bracketed trivial

theorem readText_confined (input : Input) :
    Yields (fun parts => ∀ part ∈ parts, Confined part) (Inline.readText input) :=
  leaves_confined.readText trivial

/-! Lines. -/

theorem complete_confined {start : Input} {kind : TokenKind} (other : kind ≠ .plainText)
    {parts : Parsed (List Token) start} (confined : ∀ part ∈ parts.value, Confined part) :
    Confined (complete kind parts).value :=
  .holder (of_decide_eq_true rfl) (List.forall_mem_singleton.mpr (.holder other confined))

theorem readPlain_confined (input : Input) : Yields Confined (readPlain input) := by
  unfold readPlain
  cases read : Inline.readText input with
  | error error => trivial
  | ok parts => exact complete_confined (by decide) ((readText_confined input).of_eq read)

theorem readComment_confined (input : Input) : Yields Confined (readComment input) := by
  unfold readComment
  split
  · refine complete_confined (by decide) (List.forall_mem_cons.mpr ⟨.leaf (by decide), ?_⟩)
    split
    · exact List.forall_mem_nil _
    · -- The text that only the template shows is the rest of the line.
      refine List.forall_mem_singleton.mpr (.other (fun _ => endsEscaped_of_none ?_) (List.forall_mem_nil _))
      unfold Token.between Input.skipRestOfLine Input.dropUntil
      rw [String.toList_ofList, Input.textTo_dropWhile]
      intro char member
      simpa using List.all_eq_true.mp List.all_takeWhile char member
  · apply Yields.bind
    intro text read
    exact complete_confined (by decide) (List.forall_mem_cons.mpr ⟨.leaf (by decide), (readText_confined _).of_eq read⟩)

theorem readPiped_confined (input : Input) : Yields Confined (readPiped input) := by
  apply Yields.bind
  intro text read
  exact complete_confined (by decide) (List.forall_mem_cons.mpr ⟨.leaf (by decide), (readText_confined _).of_eq read⟩)

theorem readOutput_line_confined (markLength : Nat) {kind : TokenKind} (other : kind ≠ .plainText) (input : Input) :
    Yields Confined (Line.readOutput markLength kind input) := by
  unfold Line.readOutput
  dsimp only
  split
  · exact complete_confined (by decide) (List.forall_mem_nil _)
  · apply Yields.bind
    intro output _
    split
    · exact complete_confined (by decide) (List.forall_mem_singleton.mpr (.leaf other))
    · trivial

theorem confined_of_isCode {token : Token} (code : IsCode token) : Confined token := by
  refine .other (fun plain => ?_) (code.leaf ▸ List.forall_mem_nil _)
  cases plain.symm.trans code.is

theorem readCode_confined (lineStart input : Input) : Yields Confined (readCode lineStart input) := by
  unfold readCode
  split
  · apply Yields.bind
    intro block read
    have coded := (Code.readBlock_coded _ _ _).of_eq read
    exact complete_confined (by decide) fun part member => confined_of_isCode (coded part member)
  · apply Yields.bind
    intro statements read
    have coded := (Code.readStatements_coded _ _ _).of_eq read
    exact complete_confined (by decide) fun part member => confined_of_isCode (coded part member)

theorem readMixinCall_confined (input : Input) : Yields Confined (readMixinCall input) := by
  unfold readMixinCall
  dsimp only
  split
  · trivial
  · apply Yields.bind
    intro arguments read
    have silent := (readArguments_silent _).of_eq read
    split
    · exact .holder (of_decide_eq_true rfl) (List.forall_mem_singleton.mpr
        (.holder (of_decide_eq_true rfl) fun part member => .of_silent (silent part member)))
    · trivial

/-! Lines that begin with a word. -/

theorem readStatement_confined {kind : TokenKind} (other : kind ≠ .plainText) (start input : Input) :
    Yields Confined (readStatement kind start input) := by
  unfold readStatement
  apply Yields.bind
  intro expr _
  split
  · exact .leaf other
  · trivial

theorem readMixinDefinition_confined (start input : Input) : Yields Confined (readMixinDefinition start input) := by
  unfold readMixinDefinition
  apply Yields.bind
  intro definition read
  have confined := (readStatement_confined (by decide) start input).of_eq read
  split
  · exact confined
  · trivial

theorem readEach_confined (start input : Input) : Yields Confined (readEach start input) := by
  unfold readEach
  dsimp only
  split
  · trivial
  · apply Yields.bind
    intro second read
    have named := (readSecondVariable_named _).of_eq read
    have further : ∀ part ∈ second.value.toList, Confined part := by
      intro part member
      obtain ⟨is, leaf⟩ := named part member
      refine .other (fun plain => ?_) (leaf ▸ List.forall_mem_nil _)
      cases is.symm.trans plain
    split
    · apply Yields.bind
      intro source _
      refine .holder ?_ (List.forall_mem_cons.mpr ⟨.leaf (by decide), further⟩)
      split <;> exact nofun
    · trivial

theorem readKeyword_confined {word : String} {keyword : Keyword}
    (found : Keyword.table.lookup word = some keyword) (start input : Input) :
    Yields Confined (readKeyword keyword start input) := by
  cases keyword with
  | includeTarget =>
    unfold readKeyword
    dsimp only
    split
    · trivial
    · exact .leaf (by decide)
  | doctype => exact .leaf (by decide)
  | mixin => exact readMixinDefinition_confined start input
  | statement kind =>
    refine readStatement_confined (fun plain => ?_) start input
    have asks := asks_of_lookup found .noArguments
    rw [plain] at asks
    cases asks
  | each => exact readEach_confined start input

theorem readElseIf_confined (start input : Input) : Yields Confined (readElseIf start input) := by
  unfold readElseIf
  dsimp only
  split
  · trivial
  · exact .widen _ (readStatement_confined (by decide) _ _)

theorem readAlone_confined {kind : TokenKind} (other : kind ≠ .plainText) (fault : LexFault)
    (start stop input : Input) : Yields Confined (readAlone kind fault start stop input) := by
  unfold readAlone
  split
  · exact .leaf other
  · trivial

theorem readAfterName_confined (input : Input) :
    Yields (fun parts => ∀ part ∈ parts, Confined part) (readAfterName input) := by
  unfold readAfterName
  split
  · cases read : Inline.readText input.skipSpacing with
    | error error => trivial
    | ok parts => exact (readText_confined input.skipSpacing).of_eq read
  · exact readTagParts_confined false input

theorem readWord_confined (input : Input) : Yields Confined (readWord input) := by
  unfold readWord
  dsimp only
  split
  · rename_i keyword found
    split at found
    · exact .widen _ (readKeyword_confined found _ _)
    · cases found
  · split
    · exact .widen _ (readElseIf_confined _ _)
    · split
      · exact .widen _ (readAlone_confined (by decide) _ _ _ _)
      · split
        · exact .widen _ (readAlone_confined (by decide) _ _ _ _)
        · split
          · exact .leaf (by decide)
          · apply Yields.bind
            intro parts read
            exact complete_confined (by decide)
              (List.forall_mem_cons.mpr ⟨.leaf (by decide), (readAfterName_confined _).of_eq read⟩)

theorem readNameless_confined (input : Input) : Yields Confined (readNameless input) := by
  apply Yields.bind
  intro parts read
  exact complete_confined (by decide)
    (List.forall_mem_cons.mpr ⟨.leaf (by decide), (readTagParts_confined false input).of_eq read⟩)

theorem readLine_confined (lineStart input : Input) : Yields Confined (Line.read lineStart input) := by
  unfold Line.read
  dsimp only
  split
  · exact readComment_confined input
  · split
    · exact readWord_confined input
    · split
      · exact readNameless_confined input
      · split
        · exact complete_confined (by decide) (List.forall_mem_singleton.mpr (.leaf (by decide)))
        · split
          · exact readPiped_confined input
          · split
            · exact readOutput_line_confined 1 (by decide) input
            · split
              · exact readOutput_line_confined 2 (by decide) input
              · split
                · exact readCode_confined lineStart input
                · split
                  · exact readMixinCall_confined input
                  · split
                    · exact complete_confined (by decide) (List.forall_mem_nil _)
                    · trivial

/-! Rows of lines. -/

theorem readChained_confined (lineStart input : Input) :
    Yields (fun chained => ∀ line ∈ chained, Confined line) (Document.readChained lineStart input) := by
  fun_induction Document.readChained lineStart input with
  | case1 => exact List.forall_mem_nil _
  | case2 input colon start later more step =>
    apply Yields.bind
    intro line read
    have first := (readLine_confined lineStart start).of_eq read
    apply Yields.bind
    intro chained further
    exact List.forall_mem_cons.mpr ⟨first, (step line).of_eq further⟩
  | case3 => exact List.forall_mem_nil _

/-- The lines of a row are confined. -/
structure RowConfined (row : Row) : Prop where
  line : Confined row.line
  chained : ∀ line ∈ row.chained, Confined line

theorem readRow_confined (outline : Outline) (lineStart input : Input) :
    Yields RowConfined (Document.readRow outline lineStart input) := by
  unfold Document.readRow
  split
  · apply Yields.bind
    intro line read
    exact ⟨(readPlain_confined input).of_eq read, List.forall_mem_nil _⟩
  · apply Yields.bind
    intro line read
    apply Yields.bind
    intro chained further
    exact ⟨(readLine_confined lineStart input).of_eq read,
      (readChained_confined lineStart line.rest).of_eq further⟩

theorem readRows_confined (outline : Outline) (input : Input) {rows : List Row}
    (read : Document.readRows outline input = .ok rows) : ∀ row ∈ rows, RowConfined row := by
  fun_induction Document.readRows outline input generalizing rows with
  | case1 =>
    cases read
    exact List.forall_mem_nil _
  | case2 =>
    rename_i step
    exact step read
  | case3 => cases read
  | case4 =>
    rename_i entered _ step
    obtain ⟨row, first, read⟩ := Reading.bind_eq_ok.mp read
    obtain ⟨others, further, read⟩ := Reading.bind_eq_ok.mp read
    cases read
    exact List.forall_mem_cons.mpr ⟨(readRow_confined entered _ _).of_eq first, step row further⟩

theorem link_confined {line : Token} (confined : Confined line) {nested chained : List Token}
    (inner : ∀ line ∈ nested, Confined line) (others : ∀ line ∈ chained, Confined line) :
    Confined (Row.link line nested chained) := by
  induction chained generalizing line with
  | nil => exact confined.addChildren inner
  | cons next chained step =>
    obtain ⟨first, further⟩ := List.forall_mem_cons.mp others
    exact confined.addChildren (List.forall_mem_singleton.mpr (step first further))

theorem nest_confined {rows : List Row} (confined : ∀ row ∈ rows, RowConfined row) :
    ∀ line ∈ Row.nest rows, Confined line.2 := by
  induction rows with
  | nil => exact List.forall_mem_nil _
  | cons row rows step =>
    obtain ⟨first, others⟩ := List.forall_mem_cons.mp confined
    have lines := step others
    refine List.forall_mem_cons.mpr ⟨link_confined first.line ?_ first.chained, ?_⟩
    · exact List.forall_mem_map.mpr fun line member => lines line (List.takeWhile_subset _ member)
    · exact fun line member => lines line ((List.dropWhile_suffix _).subset member)

theorem ofSource_confined {source : List Char} {root : Token} (read : Token.ofSource source = .ok root) :
    Confined root := by
  obtain ⟨rows, found, read⟩ := Reading.bind_eq_ok.mp read
  cases read
  exact .holder (by decide) (List.forall_mem_map.mpr (nest_confined (readRows_confined .start _ found)))

/-! Texts stay on their lines. -/

/-- A line end in a text is one in the source, and so is the backslash before it. -/
theorem none_of_endsEscaped {source text : List Char} (escaped : EndsEscaped text) (inside : text <:+: source)
    (apart : ∀ char, isLineEnd char = true → ¬['\\', char] <:+: source) :
    ∀ char ∈ text, isLineEnd char = false := by
  intro char member
  obtain ⟨before, after, split⟩ := List.append_of_mem member
  rw [← Bool.not_eq_true]
  intro ends
  obtain ⟨shorter, rfl⟩ := List.getLast?_eq_some_iff.mp (escaped before char after split ends)
  have pair : ['\\', char] <:+: text := ⟨shorter, after, by simp [split]⟩
  exact apart char ends (pair.trans inside)

/-- What is written in a part of a template is in its source. -/
theorem text_stands {source : List Char} {root : Token} (read : Token.ofSource source = .ok root) {part : Token}
    (shown : root.Shown part) : part.text.toList <:+: source := by
  have fits : Fits (.ofText source) part := by
    induction shown with
    | root => exact (Offsets.ofSource_settles source).of_ok read
    | part _ _ member step => exact step.inner _ member
  obtain ⟨first, last, ⟨passed, source_eq, -⟩, later, -, text⟩ := fits.stands
  have begins := (Input.textTo_prefix later).isInfix
  rw [text, String.toList_ofList]
  exact begins.trans ⟨passed, [], by rw [List.append_nil]; exact source_eq.symm⟩

/-- A text goes on in another line only after a backslash at the end of the line. Where no line of the source
ends in a backslash, every text stays on its line. -/
theorem texts_stay {source : List Char} {root : Token} (read : Token.ofSource source = .ok root) {text : Token}
    (shown : root.Shown text) (plain : text.kind = .plainText) :
    EndsEscaped text.text.toList ∧
      ((∀ char, isLineEnd char = true → ¬['\\', char] <:+: source) →
        ∀ char ∈ text.text.toList, isLineEnd char = false) := by
  have escaped := ((ofSource_confined read).shown shown).escaped plain
  exact ⟨escaped, none_of_endsEscaped escaped (text_stands read shown)⟩

/-- A part that is found by going down from a tree, at each step to the part in some place. -/
def down? (root : Token) : List Nat → Option Token
  | [] => some root
  | index :: path => do
    let part ← root.children[index]?
    if root.kind = .attributeName then none else down? part path

theorem shown_of_down? {root token part : Token} {path : List Nat} (shown : root.Shown token)
    (found : down? token path = some part) : root.Shown part := by
  induction path generalizing token with
  | nil =>
    cases found
    exact shown
  | cons index path step =>
    obtain ⟨next, inside, found⟩ := Option.bind_eq_some_iff.mp found
    split at found
    · cases found
    · exact step (shown.part ‹_› (List.mem_of_getElem? inside)) found

/-- The first line of a source and the text that it has after a bar. -/
def barred? (source : List Char) : Option (TokenKind × TokenKind × String) := do
  let root ← (Token.ofSource source).toOption
  let line ← down? root [0, 0]
  let text ← down? line [1]
  return (line.kind, text.kind, text.text)

theorem shown_of_barred? {source : List Char} {content : String}
    (found : barred? source = some (.pipedLine, .plainText, content)) :
    ∃ root line text, Token.ofSource source = .ok root ∧ root.Shown line ∧ line.kind = .pipedLine ∧
      line.Shown text ∧ text.kind = .plainText ∧ text.text = content := by
  unfold barred? at found
  cases read : Token.ofSource source with
  | error error =>
    rw [read] at found
    cases found
  | ok root =>
    rw [read] at found
    obtain ⟨_, ⟨⟩, found⟩ := Option.bind_eq_some_iff.mp found
    obtain ⟨line, lineFound, found⟩ := Option.bind_eq_some_iff.mp found
    obtain ⟨text, textFound, found⟩ := Option.bind_eq_some_iff.mp found
    have same := Option.some.inj found
    exact ⟨root, line, text, rfl, shown_of_down? .root lineFound, congrArg Prod.fst same,
      shown_of_down? .root textFound, congrArg (·.2.1) same, congrArg (·.2.2) same⟩

/-- A line of text that ends in a backslash, and a tag on the next line. -/
def continued : List Char := "| a\\\nb".toList

theorem continued_text : barred? continued = some (.pipedLine, .plainText, "a\\\nb") := by
  decide +kernel

/-- A line of text with a backslash in it, and a tag on the next line. -/
def settled : List Char := "| a\\b\nc".toList

theorem settled_text : barred? settled = some (.pipedLine, .plainText, "a\\b") := by
  decide +kernel

theorem settled_apart (char : Char) (ends : isLineEnd char = true) : ¬['\\', char] <:+: settled := by
  unfold isLineEnd at ends
  rw [Bool.or_eq_true, beq_iff_eq, beq_iff_eq] at ends
  rcases ends with rfl | rfl
  · decide +kernel
  · decide +kernel

theorem continued_stays :
    (∃ root text, Token.ofSource continued = .ok root ∧ root.Shown text ∧ text.kind = .plainText ∧
      EndsEscaped text.text.toList ∧
        ((∀ char, isLineEnd char = true → ¬['\\', char] <:+: continued) →
          ∀ char ∈ text.text.toList, isLineEnd char = false)) ∧
    ∃ root text, Token.ofSource settled = .ok root ∧ root.Shown text ∧ text.kind = .plainText ∧
      EndsEscaped text.text.toList ∧ (∀ char, isLineEnd char = true → ¬['\\', char] <:+: settled) ∧
        ∀ char ∈ text.text.toList, isLineEnd char = false := by
  constructor
  · obtain ⟨root, line, text, read, lineShown, -, textShown, plain, -⟩ := shown_of_barred? continued_text
    have shown := lineShown.trans textShown
    exact ⟨root, text, read, shown, plain, texts_stay read shown plain⟩
  · obtain ⟨root, line, text, read, lineShown, -, textShown, plain, -⟩ := shown_of_barred? settled_text
    have shown := lineShown.trans textShown
    obtain ⟨escaped, stays⟩ := texts_stay read shown plain
    exact ⟨root, text, read, shown, plain, escaped, settled_apart, stays settled_apart⟩

/-- Not every text stays on its line: the one after the bar takes the next line along. -/
theorem continued_goes_on : ¬∀ root line text, Token.ofSource continued = .ok root → root.Shown line →
    line.kind = .textLine ∨ line.kind = .pipedLine ∨ line.kind = .commentLine ∨ line.kind = .tagLine →
    line.Shown text → text.kind = .plainText → ∀ char ∈ text.text.toList, isLineEnd char = false := by
  intro stays
  obtain ⟨root, line, text, read, lineShown, piped, textShown, plain, written⟩ :=
    shown_of_barred? continued_text
  have none := stays root line text read lineShown (.inr (.inl piped)) textShown plain '\n'
  rw [written] at none
  exact absurd (none (by decide)) (by decide)

end Confinement

end HtmlTemplate
