import HtmlTemplate.Proofs.Content.Shapes
import HtmlTemplate.Proofs.Respelling.Lines

/-! Rows of lines in two texts that differ in blanks: the same lines, and the same trees of them. -/

namespace HtmlTemplate

/-! Lines that are measured. -/

namespace Document

open CharClass

/-- The spacing of each line that is measured to place it. Lines that are blank, and lines in which a list or
an expression goes on, are not among them. -/
def measured (outline : Outline) (input : Input) : List (List Char) :=
  if _atEnd : input.atEnd then []
  else
    let content := input.skipSpacing
    have _contentReached : input.Reaches content := Input.reaches_skipSpacing _
    if content.atLineEnd then measured outline (finishLine content)
    else
      input.takeWhile isSpacing ::
        match outline.enter (input.takeWhile isSpacing) with
        | .error _ => []
        | .ok entered =>
          match readRow entered input content with
          | .error _ => []
          | .ok row =>
            have _rowReached := row.reached
            measured { entered with last := some row.value.innermost.nestsText } (finishLine row.rest)
termination_by input.size
decreasing_by
  · rw [Input.atEnd_iff] at _atEnd
    exact size_finishLine_lt_of_reaches (by omega) _contentReached
  · rw [Input.atEnd_iff] at _atEnd
    exact size_finishLine_lt_of_reaches (by omega) (_contentReached.trans _rowReached)

theorem size_pos_of_atEnd {input : Input} (more : ¬ input.atEnd = true) : 0 < input.size := by
  rw [Input.atEnd_iff] at more
  exact Nat.pos_of_ne_zero more

theorem readRows_eq (outline : Outline) (input : Input) : readRows outline input =
    if input.atEnd then .ok []
    else if input.skipSpacing.atLineEnd then readRows outline (finishLine input.skipSpacing)
    else match outline.enter (input.takeWhile isSpacing) with
      | .error fault => .error ⟨fault, input.pos⟩
      | .ok entered => readRow entered input input.skipSpacing >>= fun row =>
        readRows { entered with last := some row.value.innermost.nestsText } (finishLine row.rest) >>= fun rows =>
          .ok (row.value :: rows) := by
  rw [readRows]
  rfl

theorem measured_eq (outline : Outline) (input : Input) : measured outline input =
    if input.atEnd then []
    else if input.skipSpacing.atLineEnd then measured outline (finishLine input.skipSpacing)
    else input.takeWhile isSpacing ::
      match outline.enter (input.takeWhile isSpacing) with
      | .error _ => []
      | .ok entered =>
        match readRow entered input input.skipSpacing with
        | .error _ => []
        | .ok row =>
          measured { entered with last := some row.value.innermost.nestsText } (finishLine row.rest) := by
  rw [measured]
  refine if_congr Iff.rfl rfl (if_congr Iff.rfl rfl (congrArg _ ?_))
  cases outline.enter (input.takeWhile isSpacing) with
  | error => rfl
  | ok entered =>
    cases row : readRow entered input input.skipSpacing with
    | error error => simp only [row]
    | ok found => simp only [row]

/-- As long as no line is indented, no unit is fixed. -/
theorem bare_of_enter {outline entered : Outline} {spacing : List Char}
    (enters : outline.enter spacing = .ok entered) (none : entered.unit = none) :
    outline.unit = Option.none ∧ spacing = [] := by
  obtain ⟨⟨depth, unit⟩, measures, opens⟩ := Reading.bind_eq_ok.mp enters
  have stays : entered.unit = unit := by
    dsimp only at opens
    split at opens
    · rename_i opened found
      cases opens
      unfold Outline.open? at found
      split at found
      · cases found
        rfl
      · split at found
        · obtain ⟨last, -, rfl⟩ := Option.map_eq_some_iff.mp found
          rfl
        · cases found
    · cases opens
  rw [none] at stays
  subst stays
  unfold Outline.measure at measures
  split at measures
  · rename_i bare
    exact ⟨(Prod.mk.inj (Except.ok.inj measures)).2, List.isEmpty_iff.mp bare⟩
  · split at measures
    · split at measures <;> cases measures
    · split at measures <;> cases measures

end Document

namespace Respelling

open CharClass Document

variable {spelling : Spelling} {first second start stop : Input}

/-! Lines that are nested in others. -/

theorem isText_of_append {kind : TokenKind} {children more : List Token}
    (text : kind.isText (children ++ more) = true) : kind.isText children = true := by
  cases kind with
  | plainText => rfl
  | textLine =>
    cases children with
    | nil => rfl
    | cons => exact text
  | _ => cases text

/-- More lines in a line that is no tag. -/
theorem Akin.addChildren {token twin : Token} (akin : Akin spelling token twin) (tag : token.kind ≠ .tagLine)
    (list : token.kind ≠ .attributeList) {lines others : List Token}
    (more : List.Forall₂ (Akin spelling) lines others) :
    Akin spelling (token.addChildren lines) (twin.addChildren others) := by
  cases akin with
  | intro kept named written quoted tagged listed inner =>
    exact .intro kept named (fun text => written (isText_of_append text)) quoted (absurd · tag) (absurd · list)
      fun flat => List.rel_append (inner flat) more

/-- What begins a row is no part of a line. -/
theorem outer_of_headed {token : Token} (headed : token.Headed) :
    token.kind ≠ .tagLine ∧ token.kind ≠ .attributeList := by
  cases headed.formed with
  | markup is => rw [is]; exact ⟨nofun, nofun⟩
  | statement asks =>
    constructor <;>
    · intro same
      rw [same] at asks
      cases asks
  | named is => exact absurd is headed.line

/-- Two rows that have the same lines. -/
structure Matches (spelling : Spelling) (row twin : Row) : Prop where
  depth : twin.depth = row.depth
  line : Akin spelling row.line twin.line
  chained : List.Forall₂ (Akin spelling) row.chained twin.chained

theorem link_akin {line twin : Token} (akin : Akin spelling line twin) {nested others : List Token}
    (inner : List.Forall₂ (Akin spelling) nested others) {chained lines : List Token}
    (alike : List.Forall₂ (Akin spelling) chained lines) (headed : line.Headed)
    (heads : ∀ token ∈ chained, token.Headed) :
    Akin spelling (Row.link line nested chained) (Row.link twin others lines) := by
  obtain ⟨tag, list⟩ := outer_of_headed headed
  induction alike generalizing line twin with
  | nil => exact akin.addChildren tag list inner
  | cons next _ step =>
    obtain ⟨here, rest⟩ := List.forall_mem_cons.mp heads
    obtain ⟨other, lists⟩ := outer_of_headed here
    exact akin.addChildren tag list (.cons (step next here rest other lists) .nil)

theorem forall₂_span {α β : Type} {related : α → β → Prop} {holds : α → Bool} {meets : β → Bool}
    (same : ∀ item other, related item other → meets other = holds item) {items : List α} {others : List β}
    (alike : List.Forall₂ related items others) :
    List.Forall₂ related (items.takeWhile holds) (others.takeWhile meets) ∧
      List.Forall₂ related (items.dropWhile holds) (others.dropWhile meets) := by
  induction alike with
  | nil => exact ⟨.nil, .nil⟩
  | cons first rest step =>
    rw [List.takeWhile_cons, List.takeWhile_cons, List.dropWhile_cons, List.dropWhile_cons, same _ _ first]
    split
    · exact ⟨.cons first step.1, step.2⟩
    · exact ⟨.nil, .cons first rest⟩

/-- The same rows make the same trees. -/
theorem nest_akin {rows twins : List Row} (alike : List.Forall₂ (Matches spelling) rows twins)
    (headed : ∀ row ∈ rows, row.Headed) :
    List.Forall₂ (fun line other => other.1 = line.1 ∧ Akin spelling line.2 other.2) (Row.nest rows)
      (Row.nest twins) := by
  induction alike with
  | nil => exact .nil
  | @cons row twin _ _ first _ step =>
    obtain ⟨here, rest⟩ := List.forall_mem_cons.mp headed
    obtain ⟨nested, others⟩ : List.Forall₂ _ ((Row.nest _).takeWhile fun line => row.depth < line.1)
          ((Row.nest _).takeWhile fun line => twin.depth < line.1) ∧
        List.Forall₂ _ ((Row.nest _).dropWhile fun line => row.depth < line.1)
          ((Row.nest _).dropWhile fun line => twin.depth < line.1) :=
      forall₂_span (fun line other related => by rw [first.depth, related.1]) (step rest)
    refine .cons ⟨first.depth, link_akin first.line ?_ first.chained here.line here.chained⟩ others
    exact List.forall₂_map_left_iff.mpr (List.forall₂_map_right_iff.mpr (nested.imp fun _ _ both => both.2))

theorem innermost_akin {row twin : Row} (alike : Matches spelling row twin) :
    Akin spelling row.innermost twin.innermost := by
  obtain ⟨-, akin, chained⟩ := alike
  unfold Row.innermost
  generalize row.line = line at akin
  generalize twin.line = other at akin
  generalize row.chained = lines at chained
  generalize twin.chained = others at chained
  induction chained generalizing line other with
  | nil => exact akin
  | cons first _ step =>
    rw [List.getLast?_cons, List.getLast?_cons]
    exact step _ _ first

theorem any_last {parts others : List Token} (alike : List.Forall₂ (Akin spelling) parts others)
    (holds : TokenKind → Bool) :
    (others.getLast?.any fun part => holds part.kind) = parts.getLast?.any fun part => holds part.kind := by
  induction alike with
  | nil => rfl
  | cons first rest step =>
    cases rest with
    | nil => exact congrArg holds first.kind_eq
    | cons second more => exact step

/-- Lines in which text is nested. -/
theorem nestsText_same {token twin : Token} (akin : Akin spelling token twin) : twin.nestsText = token.nestsText := by
  have kind := akin.kind_eq
  by_cases line : token.kind = .line
  · have inner := akin.children_akin (by rw [line]; nofun)
    unfold Token.nestsText
    rw [kind, line]
    generalize token.children = parts at inner
    generalize twin.children = others at inner
    cases inner with
    | nil => rfl
    | @cons data other _ _ first _ =>
      dsimp only
      rw [first.kind_eq]
      by_cases tag : data.kind = .tagLine
      · rw [any_last (first.children_akin (by rw [tag]; nofun)) (· == .trailingDot)]
      · rw [beq_false_of_ne tag, Bool.false_and, Bool.false_and]
  · have none {token : Token} (other : token.kind ≠ .line) : token.nestsText = false := by
      unfold Token.nestsText
      split
      · exact absurd ‹_› other
      · rfl
    rw [none line, none (kind ▸ line)]

/-! Rows. -/

theorem chained_reads {start stop : Input} (blocks : Blocks spelling start stop) {first second : Input}
    (beside : Beside spelling first second) (reached : start.Reaches first) (arrived : stop.Reaches second) :
    Lexes (Meets spelling (List.Forall₂ (Akin spelling))) (readChained start first) (readChained stop second) := by
  rw [readChained, readChained]
  by_cases colon : first.isAt ':' = true
  · have content := (beside.advance_isAt colon rfl).skipSpacing
    have passed : first.Passes first.advance.skipSpacing :=
      (Input.passes_advance_of_isClass colon).of_reaches (Input.reaches_skipSpacing _)
    have followed : second.Reaches second.advance.skipSpacing :=
      (Input.reaches_advance _).trans (Input.reaches_skipSpacing _)
    rw [dif_pos colon, dif_pos ((beside.isAt rfl).trans colon)]
    dsimp only
    rw [content.atLineEnd]
    split
    · exact .ok ⟨content, .nil⟩
    · refine .bind (line_reads content blocks (reached.trans passed.1) (arrived.trans followed)) fun x y line => ?_
      have shorter := (passed.of_reaches x.reached).2
      refine .bind (chained_reads blocks line.beside (reached.trans (passed.1.trans x.reached))
        (arrived.trans (followed.trans y.reached))) fun z w more => ?_
      exact .ok ⟨more.beside, .cons line.values more.values⟩
  · rw [dif_neg colon, dif_neg (by rw [beside.isAt rfl]; exact colon)]
    exact .ok ⟨beside, .nil⟩
termination_by first.size
decreasing_by all_goals omega

theorem row_reads {outline twin : Outline} (parents : twin.parents = outline.parents)
    (blocks : Blocks spelling start stop) (beside : Beside spelling first second) (reached : start.Reaches first)
    (arrived : stop.Reaches second) :
    Lexes (Meets spelling (Matches spelling)) (readRow outline start first) (readRow twin stop second) := by
  have depth : twin.depth = outline.depth := congrArg List.length parents
  unfold readRow
  rw [show twin.isText = outline.isText from congrArg (List.headD · false) parents]
  split
  · refine .bind (plain_reads beside) fun x y line => .ok ⟨line.beside, depth, line.values, .nil⟩
  · refine .bind (line_reads beside blocks reached arrived) fun x y line => ?_
    refine .bind (chained_reads blocks line.beside (reached.trans x.reached) (arrived.trans y.reached))
      fun z w chained => .ok ⟨chained.beside, depth, line.values, chained.values⟩

/-! Rows that are measured. -/

/-- After a line without a line end there is nothing. -/
theorem rest_of_uneaten {input : Input} (uneaten : input.skipRestOfLine.eatNewline? = none) :
    input.skipRestOfLine.rest = [] := by
  have after := rest_eatNewline? input.skipRestOfLine
  have ends := List.head?_dropWhile_not (fun char => !isLineEnd char) input.rest
  rw [uneaten, Input.skipRestOfLine, Input.dropUntil, Input.rest_dropWhile] at after
  rw [Input.skipRestOfLine, Input.dropUntil, Input.rest_dropWhile]
  generalize input.rest.dropWhile (fun char => !isLineEnd char) = text at after ends
  unfold afterBreak? at after
  split at after
  · cases after
  · cases after
  · cases after
  · rename_i newline carriage
    cases text with
    | nil => rfl
    | cons char text =>
      rcases Bool.or_eq_true_iff.mp (Bool.not_eq_false' .. |>.mp ends) with same | same
      · exact absurd (by rw [beq_iff_eq.mp same]) (newline text)
      · exact absurd (by rw [beq_iff_eq.mp same]) (carriage text)

/-- After the end of a line another one begins in both texts. -/
theorem finishLine_starts {spelling : Spelling} (margins : Margins spelling) {first second : Input}
    (beside : Beside spelling first second) (ended : margins.starting [] []) :
    margins.Starts (Document.finishLine first) (Document.finishLine second) := by
  have stop := beside.skipRestOfLine
  have after := @eatNewline_starts _ margins _ _ stop
  unfold Document.finishLine
  dsimp only
  cases eaten : first.skipRestOfLine.eatNewline? with
  | some next =>
    rw [eaten] at after
    generalize second.skipRestOfLine.eatNewline? = other at after
    cases after with
    | some starts => exact starts
  | none =>
    rw [eaten] at after
    generalize second.skipRestOfLine.eatNewline? = other at after
    cases after
    have none := rest_of_uneaten eaten
    unfold Beside at stop
    rw [none] at stop
    change margins.starting first.skipRestOfLine.rest second.skipRestOfLine.rest
    rwa [none, spelling.nil_iff stop |>.mpr rfl]

/-- Places at the starts of lines with the same spacing before them, from which rows are read alike. -/
structure Paced (spelling : Spelling) (starts : Input → Input → Prop) : Prop where
  beside {first second : Input} : starts first second → Beside spelling first second
  spacing {first second : Input} : starts first second → second.takeWhile isSpacing = first.takeWhile isSpacing
  blocks {first second : Input} : starts first second → Blocks spelling first second
  finish {first second : Input} : Beside spelling first second → ∃ next, starts (Document.finishLine first) next ∧
    ∀ outline, Document.readRows outline (Document.finishLine second) = Document.readRows outline next

/-- Both texts have the same rows. -/
theorem Paced.rows {spelling : Spelling} {starts : Input → Input → Prop} (paced : Paced spelling starts)
    (outline : Outline) {first second : Input} (starting : starts first second) :
    Both (fun error other => other.fault = error.fault) (List.Forall₂ (Matches spelling))
      (Document.readRows outline first) (Document.readRows outline second) := by
  have beside := paced.beside starting
  have content := beside.skipSpacing
  rw [Document.readRows_eq outline first, Document.readRows_eq outline second, beside.atEnd, content.atLineEnd,
    paced.spacing starting]
  by_cases ended : first.atEnd = true
  · rw [if_pos ended, if_pos ended]
    exact .ok .nil
  rw [if_neg ended, if_neg ended]
  have nonempty := Document.size_pos_of_atEnd ended
  by_cases blank : first.skipSpacing.atLineEnd = true
  · rw [if_pos blank, if_pos blank]
    have := Document.size_finishLine_lt_of_reaches nonempty (Input.reaches_skipSpacing first)
    obtain ⟨next, further, same⟩ := paced.finish content
    rw [same]
    exact paced.rows outline further
  rw [if_neg blank, if_neg blank]
  cases outline.enter (first.takeWhile isSpacing) with
  | error fault => exact .error rfl
  | ok entered =>
    dsimp only
    refine .bind (row_reads rfl (paced.blocks starting) content (Input.reaches_skipSpacing first)
      (Input.reaches_skipSpacing second)) fun x y row => ?_
    have := Document.size_finishLine_lt_of_reaches nonempty ((Input.reaches_skipSpacing first).trans x.reached)
    obtain ⟨next, further, same⟩ := paced.finish row.beside
    rw [same, nestsText_same (innermost_akin row.values)]
    exact .bind (paced.rows _ further) fun rows others more => .ok (.cons row.values more)
termination_by first.size
decreasing_by all_goals omega

end Respelling

end HtmlTemplate
