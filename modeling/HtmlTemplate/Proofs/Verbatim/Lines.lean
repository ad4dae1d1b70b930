import HtmlTemplate.Proofs.Building.Weaving
import HtmlTemplate.Proofs.Reading.Lines
import HtmlTemplate.Proofs.Respelling.Inline
import HtmlTemplate.Template.Source

/-! Text that is read as it stands. A backslash before each mark that would begin an output or a tag takes the
meaning from the mark, and nothing else in a line needs one. -/

namespace HtmlTemplate

/-- A text as it is written to be read literally: with a backslash before every mark. -/
def escapeMarks : List Char → List Char
  | [] => []
  | char :: rest =>
    if Inline.startsMark (.ofText (char :: rest)) then '\\' :: char :: escapeMarks rest
    else char :: escapeMarks rest

/-- A text that stands on one line, without backslashes. -/
def Lettered (text : List Char) : Prop := ∀ char ∈ text, CharClass.isLineEnd char = false ∧ char ≠ '\\'

instance (text : List Char) : Decidable (Lettered text) :=
  List.decidableBAll (fun char => CharClass.isLineEnd char = false ∧ char ≠ '\\') text

namespace Verbatim

open Inline Reading Respelling

/-- The pieces are characters of the source, and together they are a text. -/
inductive Spells : List Piece → List Char → Prop where
  | nil : Spells [] []
  | cons {pieces : List Piece} {text : List Char} (pos : Nat) (chars : List Char) (spells : Spells pieces text) :
      Spells (.literal pos chars :: pieces) (chars ++ text)

theorem Spells.join {pieces : List Piece} {text : List Char} (spells : Spells pieces text) :
    Spells (Piece.join pieces) text := by
  induction spells with
  | nil => exact .nil
  | cons pos chars spells step =>
    rw [Piece.join]
    generalize Piece.join _ = joined at step
    cases step with
    | nil => exact .cons pos chars .nil
    | cons next more rest =>
      dsimp only
      split
      · rw [← List.append_assoc]
        exact .cons pos (chars ++ more) rest
      · exact .cons pos chars (.cons next more rest)

/-! Marks. -/

/-- Whether two characters are a mark. -/
def isMark (first second : Char) : Bool :=
  '#' == first && ('\x7b' == second || '[' == second) || '!' == first && '\x7b' == second

theorem startsMark_eq (char : Char) (rest : List Char) (pos : Nat) :
    startsMark ⟨pos, char :: rest⟩ = rest.head?.any (isMark char) := by
  cases rest with
  | nil => simp [startsMark, Input.startsWith, List.isPrefixOf]
  | cons second rest =>
    simp only [startsMark, Input.startsWith, List.isPrefixOf, isMark, List.head?_cons, Option.any_some,
      Bool.and_true, Bool.and_or_distrib_left]

/-- What completes a mark begins none. -/
theorem isMark_completed {first second : Char} (mark : isMark first second = true) (third : Char) :
    isMark second third = false := by
  simp only [isMark, Bool.or_eq_true, Bool.and_eq_true, beq_iff_eq] at mark
  rcases mark with ⟨-, rfl | rfl⟩ | ⟨-, rfl⟩ <;> rfl

/-- What begins a mark completes none. -/
theorem isMark_begun {second : Char} {rest : List Char} (mark : rest.head?.any (isMark second) = true)
    (first : Char) : isMark first second = false := by
  cases rest with
  | nil => cases mark
  | cons third rest =>
    by_contra completed
    have begun : isMark second third = true := mark
    rw [isMark_completed (Bool.eq_true_of_not_eq_false completed)] at begun
    cases begun

theorem escapeMarks_marked {char : Char} {rest : List Char} (mark : rest.head?.any (isMark char) = true) :
    escapeMarks (char :: rest) = '\\' :: char :: escapeMarks rest := by
  rw [escapeMarks, Input.ofText, startsMark_eq, if_pos mark]

theorem escapeMarks_unmarked {char : Char} {rest : List Char} (plain : rest.head?.any (isMark char) = false) :
    escapeMarks (char :: rest) = char :: escapeMarks rest := by
  rw [escapeMarks, Input.ofText, startsMark_eq, if_neg (Bool.eq_false_iff.mp plain)]

/-- No mark comes about or is lost by what is done to the text after its first character. -/
theorem any_escapeMarks (char : Char) (rest : List Char) :
    (escapeMarks rest).head?.any (isMark char) = rest.head?.any (isMark char) := by
  cases rest with
  | nil => rfl
  | cons second rest =>
    cases mark : rest.head?.any (isMark second) with
    | false => rw [escapeMarks_unmarked mark, List.head?_cons, List.head?_cons]
    | true =>
      rw [escapeMarks_marked mark, List.head?_cons, List.head?_cons, Option.any_some, Option.any_some,
        isMark_begun mark]
      simp [isMark]

/-! Lines. -/

theorem ends_eq_false {input : Input} {char : Char} {text : List Char} (rest : input.rest = char :: text)
    (inside : CharClass.isLineEnd char = false) : ends false input = false := by
  rw [ends, Input.atLineEnd, Input.atEnd, rest, isClass_eq rest, inside]
  rfl

theorem outputMark?_eq_none {input : Input} (plain : startsMark input = false) :
    outputMark? input = none ∧ input.startsWith ['#', '['] = false := by
  simp only [startsMark, Bool.or_eq_false_iff] at plain
  obtain ⟨⟨escaped, tag⟩, raw⟩ := plain
  refine ⟨?_, tag⟩
  rw [outputMark?, escaped, raw]
  rfl

/-- A line that has been escaped is read as its text. -/
theorem readPieces_escapeMarks (text : List Char) (lettered : Lettered text) (input : Input)
    (rest : input.rest = escapeMarks text) :
    ∃ parsed, readPieces false input = .ok parsed ∧ Spells parsed.value text ∧ parsed.rest.rest = [] := by
  match text with
  | [] =>
    have ended : ends false input = true := by rw [ends, Input.atLineEnd, Input.atEnd, rest]; rfl
    exact ⟨.here input [], readPieces_ended ended, .nil, rest⟩
  | char :: text =>
    obtain ⟨⟨inside, noEscape⟩, others⟩ := List.forall_mem_cons.mp lettered
    cases mark : text.head?.any (isMark char) with
    | false =>
      rw [escapeMarks_unmarked mark] at rest
      have unescaped : input.isAt '\\' = false := by rw [Input.isAt, isClass_eq rest, beq_false_of_ne noEscape]
      have unmarked : startsMark input = false := by
        obtain ⟨pos, _⟩ := input
        obtain rfl := rest
        rw [startsMark_eq, any_escapeMarks, mark]
      obtain ⟨noOutput, untagged⟩ := outputMark?_eq_none unmarked
      obtain ⟨more, read, spells, finished⟩ := readPieces_escapeMarks text others input.advance
        (by rw [rest_advance, rest, List.tail_cons])
      have char := readPieces_char (ends_eq_false rest inside) unescaped noOutput untagged
      rw [read, rest] at char
      exact ⟨_, char, .cons input.pos [_] spells, finished⟩
    | true =>
      cases text with
      | nil => cases mark
      | cons second text =>
        have plain : text.head?.any (isMark second) = false := by
          cases text with
          | nil => rfl
          | cons third text => exact isMark_completed mark third
        rw [escapeMarks_marked mark, escapeMarks_unmarked plain] at rest
        obtain ⟨pos, _⟩ := input
        obtain rfl := rest
        have marked : startsMark (Input.advance ⟨pos, '\\' :: char :: second :: escapeMarks text⟩) = true := by
          rw [Input.advance, startsMark_eq]
          exact mark
        have goesOn : ends false ⟨pos, '\\' :: char :: second :: escapeMarks text⟩ = false := rfl
        obtain ⟨reached, escaped⟩ := readPieces_escaped goesOn rfl
        have after : (afterEscape ⟨pos, '\\' :: char :: second :: escapeMarks text⟩).rest = escapeMarks text := by
          rw [afterEscape, if_pos marked]
          rfl
        have piece : ∃ begun, escapePiece ⟨pos, '\\' :: char :: second :: escapeMarks text⟩ =
            .literal begun [char, second] := by
          rw [escapePiece, if_pos marked]
          exact ⟨_, rfl⟩
        obtain ⟨begun, piece⟩ := piece
        obtain ⟨-, others⟩ := List.forall_mem_cons.mp others
        obtain ⟨more, read, spells, finished⟩ := readPieces_escapeMarks text others _ after
        rw [read, piece] at escaped
        exact ⟨_, escaped, .cons begun [char, second] spells, finished⟩
termination_by text.length

/-- Such a line has no other parts than text. -/
theorem readText_escapeMarks {text : List Char} (lettered : Lettered text) {input : Input}
    (rest : input.rest = escapeMarks text) :
    ∃ parsed pieces, readText input = .ok parsed ∧ parsed.value = pieces.map Piece.token ∧ Spells pieces text ∧
      parsed.rest.rest = [] := by
  obtain ⟨pieces, read, spells, finished⟩ := readPieces_escapeMarks text lettered input rest
  rw [readText, read]
  exact ⟨_, _, rfl, rfl, spells.join, finished⟩

end Verbatim

/-! Templates of one line of text, after a bar or in a tag. They are compiled to the text alone. -/

namespace Verbatim

open Builder Building Compilation Inline Reading

variable {text : List Char}

/-! The two lines. -/

/-- A bar and a text. -/
def piped (text : List Char) : List Char := '|' :: ' ' :: escapeMarks text

/-- A tag and a text. -/
def tagged (text : List Char) : List Char := 'p' :: ' ' :: escapeMarks text

/-- A line of markup that consists of a first part and text. -/
def Holds (kind first : TokenKind) (name : String) (text : List Char) (line : Token) : Prop :=
  ∃ data mark parts, line.kind = .line ∧ line.children = [data] ∧ data.kind = kind ∧
    data.children = mark :: parts.map Piece.token ∧ mark.kind = first ∧ mark.text = name ∧ Spells parts text

theorem Holds.is {kind first : TokenKind} {name : String} {line : Token} (holds : Holds kind first name text line) :
    line.kind = .line := by
  obtain ⟨_, _, _, is, _⟩ := holds
  exact is

theorem head?_escapeMarks (begins : ∀ char ∈ text.head?, CharClass.isSpacing char = false) :
    ∀ char ∈ (escapeMarks text).head?, CharClass.isSpacing char = false := by
  cases text with
  | nil => exact nofun
  | cons char rest =>
    rw [escapeMarks]
    split
    · rintro _ ⟨⟩
      rfl
    · exact begins

/-- The spacing before a text is skipped. -/
theorem rest_skipSpacing {rest : List Char} (begins : ∀ char ∈ rest.head?, CharClass.isSpacing char = false)
    {input : Input} (same : input.rest = ' ' :: rest) : input.skipSpacing.rest = rest := by
  rw [Input.skipSpacing, Input.rest_dropWhile, same, List.dropWhile_cons_of_pos rfl]
  cases rest with
  | nil => rfl
  | cons char rest => exact List.dropWhile_cons_of_neg (Bool.eq_false_iff.mp (begins char rfl))

/-- A word that is no keyword is the name of a tag. -/
theorem readWord_tagged (rest : List Char) : ∃ reached, Line.readWord (.ofText ('p' :: ' ' :: rest)) =
    (Line.readAfterName ⟨1, ' ' :: rest⟩).map fun parts => Line.complete .tagLine ((parts.map
      (Token.between .tag (.ofText ('p' :: ' ' :: rest)) ⟨1, ' ' :: rest⟩ :: ·)).widen reached) := by
  refine ⟨Input.reaches_advance (.ofText ('p' :: ' ' :: rest)), ?_⟩
  have name : Input.takeWhile CharClass.isTagWord (.ofText ('p' :: ' ' :: rest)) = ['p'] := rfl
  have spaced : Input.isClass CharClass.isSpacing
      (Input.dropWhile CharClass.isTagWord (.ofText ('p' :: ' ' :: rest))) = true := rfl
  have unknown : Line.Keyword.table.lookup (String.ofList ['p']) = none := by decide +kernel
  unfold Line.readWord
  dsimp only
  rw [name, if_pos spaced, unknown]
  dsimp only
  rw [if_neg (by simp), if_neg (by decide), if_neg (by decide), if_neg (by simp)]
  change Line.readAfterName ⟨1, ' ' :: rest⟩ >>= _ = _
  cases Line.readAfterName ⟨1, ' ' :: rest⟩ <;> rfl

section

variable (lettered : Lettered text) (begins : ∀ char ∈ text.head?, CharClass.isSpacing char = false)
include lettered begins

theorem read_piped (start : Input) : ∃ line, Line.read start (.ofText (piped text)) = .ok line ∧
    line.rest.rest = [] ∧ Holds .pipedLine .pipeMark "" text line.value := by
  have content : (Input.advance (.ofText (piped text))).skipSpacing.rest = escapeMarks text :=
    rest_skipSpacing (head?_escapeMarks begins) rfl
  obtain ⟨parsed, parts, read, same, spells, finished⟩ := readText_escapeMarks lettered content
  have line : Line.read start (.ofText (piped text)) = Line.readPiped (.ofText (piped text)) := rfl
  rw [Line.readPiped, read] at line
  refine ⟨_, line, finished, _, Token.mark .pipeMark (.ofText (piped text)), parts, rfl, rfl, rfl, ?_, rfl, rfl, spells⟩
  rw [← same]
  rfl

theorem read_tagged (start : Input) : ∃ line, Line.read start (.ofText (tagged text)) = .ok line ∧
    line.rest.rest = [] ∧ Holds .tagLine .tag "p" text line.value := by
  have content : (Input.skipSpacing ⟨1, ' ' :: escapeMarks text⟩).rest = escapeMarks text :=
    rest_skipSpacing (head?_escapeMarks begins) rfl
  obtain ⟨parsed, parts, read, same, spells, finished⟩ := readText_escapeMarks lettered content
  obtain ⟨reached, line⟩ := readWord_tagged (escapeMarks text)
  have after : Line.readAfterName ⟨1, ' ' :: escapeMarks text⟩ = .ok (parsed.widen (Input.reaches_skipSpacing _)) := by
    have spaced : Input.isClass CharClass.isSpacing ⟨1, ' ' :: escapeMarks text⟩ = true := rfl
    rw [Line.readAfterName, if_pos spaced, read]
    rfl
  rw [after] at line
  have named : Token.text (Token.between .tag (.ofText ('p' :: ' ' :: escapeMarks text)) ⟨1, ' ' :: escapeMarks text⟩) =
      "p" := rfl
  refine ⟨_, line, finished, _, _, parts, rfl, rfl, rfl, ?_, rfl, named, spells⟩
  rw [← same]
  rfl

end

/-! What is built. -/

theorem push_push (first second : String) :
    (do
      push first
      push second) = push (first ++ second) := by
  funext builder
  rw [build_bind_eq, push_eq, push_eq]
  dsimp only
  rw [push_eq]
  dsimp only
  rw [String.append_assoc, Bool.and_assoc]
  have none : (first == "" && second == "") = (first ++ second == "") := by
    rw [Bool.eq_iff_iff]
    simp
  rw [none]

theorem push_none : push "" = return := if_pos rfl

theorem pieces_spelled (fold : Expr → Option Value) (layout : Layout) {parts : List Piece}
    (spells : Spells parts text) :
    pieces fold layout (parts.map Piece.token) = push (String.ofList text) := by
  induction spells with
  | nil =>
    rw [List.map_nil, pieces]
    exact push_none.symm
  | cons pos chars spells step =>
    rw [List.map_cons, Piece.token, pieces, step, push_push, String.ofList_append]

/-- A line that nothing comes before. -/
theorem block_line (fold : Expr → Option Value) {line : Token} (is : line.kind = .line) :
    block fold { pretty := false, depth := 0 } false none [line] =
      statement fold { pretty := false, depth := 0 } line := by
  have placed : misplaced? none line.kind = none := by rw [is]; rfl
  have apart : parting { pretty := false, depth := 0 } false = return := rfl
  rw [block_cons, placed]
  dsimp only
  rw [apart, pure_bind, ite_self, block_nil, bind_pure_unit]

theorem statement_piped (fold : Expr → Option Value) {line : Token}
    (holds : Holds .pipedLine .pipeMark "" text line) :
    statement fold { pretty := false, depth := 0 } line = push (String.ofList text) := by
  obtain ⟨⟨_, _, _, _, _⟩, ⟨_, _, _, _, _⟩, parts, is, children, rfl, rfl, kind, -, spells⟩ := holds
  obtain ⟨_, _, _, _, _⟩ := line
  obtain rfl := is
  obtain rfl := children
  obtain rfl := kind
  have marked (span : Span) (text : String) (expr : Option Expr) (children rest : List Token) (layout : Layout) :
      pieces fold layout (⟨.pipeMark, span, text, expr, children⟩ :: rest) = pieces fold layout rest := by
    rw [pieces]
    · rfl
    all_goals rintro _ _ _ _ ⟨⟩
  rw [statement, Compilation.line, block_nil, bind_pure_unit, marked, pieces_spelled fold _ spells]

/-- A tag with nothing but text in it. -/
def Unadorned (parts : List Token) : Prop := ∀ part ∈ parts, part.kind = .tag ∨ part.kind = .plainText

theorem unadorned_spelled {parts : List Piece} (spells : Spells parts text) :
    Unadorned (parts.map Piece.token) := by
  induction spells with
  | nil => exact nofun
  | cons pos chars spells step =>
    rw [List.map_cons]
    exact List.forall_mem_cons.mpr ⟨.inr rfl, step⟩

section

variable {parts : List Token} (unadorned : Unadorned parts)
include unadorned

theorem kind_unadorned {kind : TokenKind} (other : kind ≠ .tag ∧ kind ≠ .plainText) :
    ∀ part ∈ parts, ¬(part.kind == kind) = true := by
  intro part member is
  obtain rfl := beq_iff_eq.mp is
  rcases unadorned part member with is | is
  · exact other.1 is
  · exact other.2 is

theorem shorthand_unadorned : shorthand parts = "" := by
  have none (kind : TokenKind) (other : kind ≠ .tag ∧ kind ≠ .plainText) : parts.filter (·.kind == kind) = [] :=
    List.filter_eq_nil_iff.mpr (kind_unadorned unadorned other)
  simp [shorthand, none .idNote (by decide), none .classNote (by decide)]

theorem attributes_unadorned (fold : Expr → Option Value) : parts.forM (attributes fold) = return := by
  induction parts with
  | nil => rfl
  | cons part rest step =>
    obtain ⟨first, rest⟩ := List.forall_mem_cons.mp unadorned
    have skipped : attributes fold part = return := by
      rw [attributes]
      rcases first with is | is <;> rw [is]
    change (attributes fold part >>= fun _ => List.forM _ (attributes fold)) = _
    rw [skipped, pure_bind]
    exact step rest

theorem unended_unadorned : parts.any (·.kind == .trailingSlash) = false :=
  List.any_eq_false.mpr (kind_unadorned unadorned (by decide))

end

theorem statement_tagged (fold : Expr → Option Value) {line : Token}
    (holds : Holds .tagLine .tag "p" text line) :
    statement fold { pretty := false, depth := 0 } line = push ("<p>" ++ String.ofList text ++ "</p>") := by
  obtain ⟨⟨_, _, _, _, _⟩, mark, parts, is, children, rfl, rfl, kind, name, spells⟩ := holds
  obtain ⟨_, _, _, _, _⟩ := line
  obtain rfl := is
  obtain rfl := children
  have unadorned : Unadorned (mark :: parts.map Piece.token) :=
    List.forall_mem_cons.mpr ⟨.inl kind, unadorned_spelled spells⟩
  have named : tagName (mark :: parts.map Piece.token) = "p" := by
    rw [tagName, List.head?_cons, Option.map_some, name]
    rfl
  have filled : Markup.isVoid "p" = false := by decide +kernel
  rw [statement, Compilation.line, tag_eq, named, shorthand_unadorned unadorned, attributes_unadorned unadorned,
    unended_unadorned unadorned, filled, List.tail_cons, pieces_spelled fold _ spells, block_nil, push_none]
  have level : opening true { pretty := false, depth := 0 } "p" = return := rfl
  have nested : nesting (breaking true { pretty := false, depth := 0 } "p") { pretty := false, depth := 0 } (return)
      ("</" ++ "p" ++ ">") = push "</p>" := rfl
  rw [level, nested, pure_bind, pure_bind, pure_bind, Bool.or_self, if_neg Bool.false_ne_true, push_push]
  have joined (next : BuildM Unit) (first second : String) :
      (do
        push first
        push second
        next) = (do
        push (first ++ second)
        next) := by
    rw [← push_push, bind_assoc]
  rw [joined, push_push, String.append_assoc, String.append_assoc]
  rfl

/-! Templates. -/

/-- The template of a text that is known. -/
def ofText (stopOnError : Bool) (content : String) : Template :=
  { chunks := Folding.written content, includes := [], pretty := false, stopOnError }

/-- A source of one line that pushes a text. -/
theorem ofSource_pushes {char : Char} {rest : List Char} {content : String}
    (visible : CharClass.isWhitespace char = false) {line : Parsed Token (.ofText (char :: rest))}
    (read : Line.read (.ofText (char :: rest)) (.ofText (char :: rest)) = .ok line) (ended : line.rest.rest = [])
    (is : line.value.kind = .line)
    (pushes : statement Expr.constant? { pretty := false, depth := 0 } line.value = push content)
    (stopOnError : Bool) :
    Template.ofSource { pretty := false, stopOnError } (char :: rest) = .ok (ofText stopOnError content) := by
  obtain ⟨root, parsed, lines⟩ := ofSource_line visible read ended
  have compiled : compile Expr.constant? false root = .ok (Folding.written content, []) := by
    rw [compile_eq, lines, block_line Expr.constant? is, pushes, push_eq]
    change Except.ok (Folding.written ("" ++ content), []) = _
    rw [String.empty_append]
  rw [Template.ofSource, Template.ofSourceWith, parsed]
  dsimp only
  rw [compiled]
  rfl

theorem ofSource_piped (lettered : Lettered text) (begins : ∀ char ∈ text.head?, CharClass.isSpacing char = false)
    (stopOnError : Bool) :
    Template.ofSource { pretty := false, stopOnError } (piped text) = .ok (ofText stopOnError (String.ofList text)) := by
  obtain ⟨line, read, ended, holds⟩ := read_piped lettered begins (.ofText (piped text))
  exact ofSource_pushes rfl read ended holds.is (statement_piped _ holds) stopOnError

theorem ofSource_tagged (lettered : Lettered text) (begins : ∀ char ∈ text.head?, CharClass.isSpacing char = false)
    (stopOnError : Bool) :
    Template.ofSource { pretty := false, stopOnError } (tagged text) =
      .ok (ofText stopOnError ("<p>" ++ String.ofList text ++ "</p>")) := by
  obtain ⟨line, read, ended, holds⟩ := read_tagged lettered begins (.ofText (tagged text))
  exact ofSource_pushes rfl read ended holds.is (statement_tagged _ holds) stopOnError

end Verbatim

end HtmlTemplate
