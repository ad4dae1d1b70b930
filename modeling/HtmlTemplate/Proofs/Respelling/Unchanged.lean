import HtmlTemplate.Proofs.Respelling.Nesting

/-! Two texts that go on the same from two places. From there on the parts of both are the same, wherever the
places are. -/

namespace HtmlTemplate

namespace Token

variable (shown : TokenKind → Bool)

mutual

/-- A part wherever it stands, with what is written in the kinds of parts that are shown. -/
def unplaced : Token → Token
  | ⟨kind, _, text, expr, children⟩ =>
    ⟨kind, ⟨0, 0⟩, if shown kind then text else "", expr, allUnplaced children⟩

def allUnplaced : List Token → List Token
  | [] => []
  | token :: rest => unplaced token :: allUnplaced rest

end

theorem allUnplaced_eq (tokens : List Token) : allUnplaced shown tokens = tokens.map (unplaced shown) := by
  induction tokens with
  | nil => rfl
  | cons token rest step => rw [allUnplaced, step, List.map_cons]

theorem unplaced_eq (token : Token) : token.unplaced shown =
    ⟨token.kind, ⟨0, 0⟩, if shown token.kind then token.text else "", token.expr,
      token.children.map (unplaced shown)⟩ := by
  obtain ⟨kind, span, text, expr, children⟩ := token
  rw [unplaced, allUnplaced_eq]

theorem unplaced_addChildren (token : Token) (children : List Token) :
    (token.addChildren children).unplaced shown =
      (token.unplaced shown).addChildren (children.map (unplaced shown)) := by
  rw [unplaced_eq, unplaced_eq]
  simp only [addChildren, List.map_append]
  rfl

/-- What is nested in a line is text wherever the line stands. -/
theorem nestsText_unplaced (token : Token) : (token.unplaced shown).nestsText = token.nestsText := by
  have last (parts : List Token) : ((parts.map (unplaced shown)).getLast?.any fun part => part.kind == .trailingDot) =
      parts.getLast?.any fun part => part.kind == .trailingDot := by
    rw [List.getLast?_map, Option.any_map]
    refine congrArg (fun holds => Option.any holds parts.getLast?) (funext fun part => ?_)
    exact congrArg (· == .trailingDot) (congrArg kind (unplaced_eq shown part))
  rw [unplaced_eq]
  unfold nestsText
  obtain ⟨kind, span, text, expr, children⟩ := token
  dsimp only
  cases kind <;> try rfl
  cases children with
  | nil => rfl
  | cons data children =>
    rw [List.map_cons, unplaced_eq]
    dsimp only
    rw [last]

end Token

namespace Row

variable (shown : TokenKind → Bool)

/-- A row of lines wherever they stand. -/
def unplaced (row : Row) : Row :=
  ⟨row.depth, row.line.unplaced shown, row.chained.map (Token.unplaced shown)⟩

theorem innermost_unplaced (row : Row) : (row.unplaced shown).innermost = row.innermost.unplaced shown := by
  unfold innermost unplaced
  dsimp only
  rw [List.getLast?_map]
  cases row.chained.getLast? <;> rfl

theorem link_unplaced (line : Token) (nested chained : List Token) : (link line nested chained).unplaced shown =
    link (line.unplaced shown) (nested.map (Token.unplaced shown)) (chained.map (Token.unplaced shown)) := by
  induction chained generalizing line with
  | nil => exact Token.unplaced_addChildren shown line nested
  | cons next chained step =>
    rw [link, Token.unplaced_addChildren, List.map_singleton, step]
    rfl

/-- Where lines stand has nothing to do with how they are nested. -/
theorem nest_unplaced (rows : List Row) : (nest rows).map (fun line => (line.1, line.2.unplaced shown)) =
    nest (rows.map (unplaced shown)) := by
  induction rows with
  | nil => rfl
  | cons row rows step =>
    rw [List.map_cons, nest, nest, ← step, List.takeWhile_map, List.dropWhile_map]
    rw [List.map_cons, link_unplaced, List.map_map, List.map_map]
    rfl

end Row

namespace Respelling

open CharClass Code Document

/-- The same text. -/
def Spelling.unchanged : Spelling where
  shows := true
  keeps := True
  beside text other := other = text
  inside text other := other = text
  weaken := id
  heads := by
    rintro _ text rfl
    cases text with
    | nil => exact .nil
    | cons => exact .cons rfl
  shown _ := rfl
  same _ same := same
  visible _ same := ⟨_, same, rfl⟩
  within _ same := ⟨_, same, rfl⟩
  escaped same := ⟨_, same, rfl, fun _ => rfl⟩
  spacing {char _ _} spacing same :=
    ⟨[char], _, same, List.forall_mem_singleton.mpr spacing, .refl (List.cons_ne_nil _ _), rfl⟩
  lineEnd {char _ _} ends same :=
    ⟨[], _, [char], _, rfl, same, List.forall_mem_nil _,
      List.forall_mem_singleton.mpr (by rw [isWhitespace, ends, Bool.or_true]), rfl⟩

variable {first second start stop : Input}

/-- Lines begin at the same places. -/
def Margins.unchanged : Margins .unchanged where
  starting text other := other = text
  beside same := same
  after := by
    rintro _ text rfl
    cases afterBreak? text with
    | none => exact .none
    | some => exact .some rfl
  taken same := congrArg (List.takeWhile isSpacing) same
  begins := by
    rintro _ _ _ _ rfl rfl
    exact ⟨Iff.rfl, fun _ => rfl⟩
  continued := by
    rintro first second start stop _ _ beside reached arrived starting ends plain rfl
    have before := textTo_kept trivial beside reached arrived starting
    have marks : Plain (lastLineBreak (first.textTo start.pos)) := by
      obtain ⟨char, rest, same, ends⟩ := lastLineBreak_cases (first.textTo start.pos)
      rw [same]
      exact plain_of_blanks fun mark member => by rw [isWhitespace, ends mark member, Bool.or_true]
    rw [before]
    refine ⟨Iff.rfl, marks.append plain, fun _ => rfl, fun {first second} beside => ?_⟩
    have same : second.rest = first.rest := beside
    unfold Input.eatWord? Input.startsWith
    rw [same]
    split
    · refine .some ?_
      unfold Beside
      rw [Reading.rest_advanceBy, Reading.rest_advanceBy, same]
      rfl
    · exact .none

/-- Where two lines go on the same, blocks are read alike. -/
theorem blocks_unchanged (starts : Beside .unchanged start stop) : Blocks .unchanged start stop := by
  intro first second reached arrived found beside
  have outer : Line.outerIndent stop second = Line.outerIndent start first := by
    unfold Line.outerIndent
    rw [textTo_kept trivial starts reached arrived beside]
  exact block_reads .unchanged outer .none nofun (beside.advance_isAt found rfl)

/-- Rows that begin with the same text are read alike. -/
theorem paced_unchanged : Paced .unchanged (Beside .unchanged) where
  beside := id
  spacing same := congrArg (List.takeWhile isSpacing) same
  blocks := blocks_unchanged
  finish {_ second} beside := ⟨finishLine second, finishLine_starts .unchanged beside rfl, fun _ => rfl⟩

mutual

/-- Parts of the same text are the same, wherever they stand. -/
theorem Akin.unplaced_eq (shown : TokenKind → Bool) {token twin : Token} (akin : Akin .unchanged token twin) :
    twin.unplaced shown = token.unplaced shown := by
  cases akin with
  | intro kept _ _ quoted _ _ inner =>
    obtain rfl := kept trivial
    obtain rfl := quoted fun _ => .inl trivial
    rw [Token.unplaced, Token.unplaced, allUnplaced_of_akin shown (inner fun _ => .inl trivial)]
termination_by sizeOf token

theorem allUnplaced_of_akin (shown : TokenKind → Bool) {tokens twins : List Token}
    (akin : List.Forall₂ (Akin .unchanged) tokens twins) :
    Token.allUnplaced shown twins = Token.allUnplaced shown tokens := by
  cases akin with
  | nil => rfl
  | cons first more => rw [Token.allUnplaced, Token.allUnplaced, first.unplaced_eq shown,
      allUnplaced_of_akin shown more]
termination_by sizeOf tokens

end

end Respelling

end HtmlTemplate
