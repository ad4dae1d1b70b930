import HtmlTemplate.Proofs.Naming.Templates
import HtmlTemplate.Proofs.Prolonging.Inline

/-! Lines of text below a tag: bare below a tag that ends in a dot, or each after a bar. Either way the same parts are
read of them, wherever they stand. -/

namespace HtmlTemplate.TextBlocks

open CharClass Document Inline Reading Relining Respelling Statements

/-- A text that may stand on a line of its own after a bar. -/
structure Text where
  chars : List Char
  filled : chars ≠ []
  unbroken : ∀ char ∈ chars, isLineEnd char = false
  unspaced : ∀ char ∈ chars.head?, isSpacing char = false
  /-- No backslash takes the end of the line with it. -/
  unescaped : chars.getLast? ≠ some '\\'
  accepted : ∃ root, Token.ofSource ('|' :: ' ' :: chars) = .ok root

/-- A bar begins a line of text. -/
theorem read_bar {lineStart input : Input} {text : List Char} (rest : input.rest = '|' :: text) :
    Line.read lineStart input = Line.readPiped input := by
  have other (char : Char) (apart : ('|' == char) = false) : input.isAt char = false := by
    rw [Input.isAt, isClass_eq rest, apart]
  have starts (word : List Char) : input.startsWith ('/' :: word) = false := by
    simp [Input.startsWith, rest, List.isPrefixOf]
  have bar : input.isAt '|' = true := isClass_eq rest _
  have word : input.isClass isLatin = false := isClass_eq rest _
  have nameless : input.isClass (fun char => char == '.' || char == '#' || char == '(' || char == '&') = false :=
    isClass_eq rest _
  unfold Line.read
  simp [starts, other '.' rfl, bar, word, nameless]

namespace Text

variable (text : Text)

theorem begins : ∃ char rest, text.chars = char :: rest ∧ isWhitespace char = false := by
  obtain ⟨char, rest, same⟩ := List.exists_cons_of_ne_nil text.filled
  have spacing := text.unspaced char (by rw [same]; rfl)
  have lineEnd := text.unbroken char (by rw [same]; exact List.mem_cons_self)
  exact ⟨char, rest, same, by rw [isWhitespace, spacing, lineEnd, Bool.or_false]⟩

/-- A text begins where it stands. -/
theorem begun {input : Input} {tail : List Char} (rest : input.rest = text.chars ++ tail) :
    input.skipSpacing = input ∧ input.atLineEnd = false := by
  obtain ⟨char, more, same, visible⟩ := text.begins
  rw [same, List.cons_append] at rest
  refine ⟨skipSpacing_unindented rest visible, ?_⟩
  rw [Input.atLineEnd, Input.atEnd, isClass_eq rest, rest, not_isLineEnd visible]
  rfl

/-- The text after a bar. -/
def barred : List Char := '|' :: ' ' :: text.chars

theorem rest_barred {input : Input} {tail : List Char} (rest : input.rest = text.barred ++ tail) :
    input.advance.skipSpacing.rest = text.chars ++ tail := by
  have space : input.advance.rest = ' ' :: (text.chars ++ tail) := by
    rw [rest_advance, rest]
    rfl
  have past : input.advance.advance.rest = text.chars ++ tail := by rw [rest_advance, space, List.tail_cons]
  rw [Elements.rest_skipSpacing_space space, (text.begun past).1, past]

/-- By itself, a text is read. -/
theorem read : ∃ input parsed, input.rest = text.chars ∧ readText input = .ok parsed := by
  obtain ⟨root, accepted⟩ := text.accepted
  obtain ⟨rows, found, -⟩ := bind_eq_ok.mp accepted
  have bar : isWhitespace '|' = false := rfl
  rw [readRows_unindented rfl bar] at found
  obtain ⟨row, found, -⟩ := bind_eq_ok.mp found
  obtain ⟨line, found, -⟩ := bind_eq_ok.mp found
  rw [read_bar rfl] at found
  obtain ⟨parts, found, -⟩ := bind_eq_ok.mp found
  have begins : (Input.ofText text.barred).advance.skipSpacing.rest = text.chars ++ [] :=
    text.rest_barred (List.append_nil _).symm
  exact ⟨_, parts, begins.trans (List.append_nil _), found⟩

/-- Nothing is left of a text. -/
theorem done {input : Input} {parsed : Parsed (List Token) input} (rest : input.rest = text.chars)
    (read : readText input = .ok parsed) : parsed.rest.rest = [] := by
  have stops := Prolonging.readText_stops read
  obtain ⟨taken, whole, -⟩ := parsed.reached
  refine List.eq_nil_iff_forall_not_mem.mpr fun other among => ?_
  obtain ⟨char, more, left⟩ := List.exists_cons_of_ne_nil (List.ne_nil_of_mem among)
  have member : char ∈ text.chars := by
    rw [← rest, whole, left]
    exact List.mem_append_right _ List.mem_cons_self
  rw [Input.atLineEnd, Input.atEnd, isClass_eq left, left, text.unbroken char member] at stops
  cases stops

/-- At any two places the same is read of a text. -/
theorem alike {first second : Input} (here : first.rest = text.chars) (there : second.rest = text.chars) :
    ∃ x y, readText first = .ok x ∧ readText second = .ok y ∧ List.Forall₂ (Akin .unchanged) x.value y.value := by
  obtain ⟨input, parsed, rest, read⟩ := text.read
  have beside (input other : Input) (same : other.rest = input.rest) : Beside .unchanged input other := same
  have alone := text_reads (beside input first (here.trans rest.symm))
  have both := text_reads (beside first second (there.trans here.symm))
  rw [read] at alone
  generalize readText first = one at alone both
  cases alone with
  | @ok _ x =>
    generalize readText second = two at both
    cases both with
    | @ok _ y meets => exact ⟨x, y, rfl, rfl, meets.values⟩

/-- Where a line ends after it, the same is read of a text in any two sources. -/
theorem reads {tail more : List Char} (ended : Ended tail) (other : Ended more) {first second : Input}
    (here : first.rest = text.chars ++ tail) (there : second.rest = text.chars ++ more) :
    ∃ x y, readText first = .ok x ∧ readText second = .ok y ∧ List.Forall₂ (Akin .unchanged) x.value y.value ∧
      x.value ≠ [] ∧ x.rest.rest = tail ∧ y.rest.rest = more := by
  obtain ⟨x, y, one, two, akin⟩ := @alike text ⟨first.pos, text.chars⟩ ⟨second.pos, text.chars⟩ rfl rfl
  have near : first = Input.prolonged tail ⟨first.pos, text.chars⟩ := by
    rw [Input.prolonged, ← here]
  have far : second = Input.prolonged more ⟨second.pos, text.chars⟩ := by
    rw [Input.prolonged, ← there]
  obtain ⟨_, here⟩ := Prolonging.readText_prolongs ended near text.unescaped x one
  obtain ⟨_, there⟩ := Prolonging.readText_prolongs other far text.unescaped y two
  have filled : x.value ≠ [] := fun none => text.filled <| by
    have nothing := congrArg Input.rest (readText_none one none)
    rwa [text.done rfl one, eq_comm] at nothing
  refine ⟨_, _, here, there, akin, filled, ?_, ?_⟩
  · change x.rest.rest ++ tail = tail
    rw [text.done rfl one, List.nil_append]
  · change y.rest.rest ++ more = more
    rw [text.done rfl two, List.nil_append]

end Text

/-! Lines. -/

/-- A line of text, and a line with the same parts after a bar. -/
inductive Barred : Token → Token → Prop where
  | intro {span twin place site : Span} {text other content copy : String} {mark : Token} {parts others : List Token}
      (filled : parts ≠ []) (barred : mark.kind = .pipeMark) (akin : List.Forall₂ (Akin .unchanged) parts others) :
      Barred ⟨.line, span, text, none, [⟨.textLine, place, content, none, parts⟩]⟩
        ⟨.line, twin, other, none, [⟨.pipedLine, site, copy, none, mark :: others⟩]⟩

/-- The row of a line that is one step deeper than a tag. -/
def below (line : Token) : Row := { depth := 1, line, chained := [] }

theorem readRow_bare {outline : Outline} (bare : outline.isText = true) (lineStart : Input) {input : Input}
    {parts : Parsed (List Token) input} (read : readText input = .ok parts) :
    readRow outline lineStart input =
      .ok ((Line.complete .textLine parts).map fun line => { depth := outline.depth, line, chained := [] }) := by
  unfold readRow Line.readPlain
  rw [if_pos bare, read]
  rfl

theorem readRow_barred {outline : Outline} (marked : outline.isText = false) (lineStart : Input) {input : Input}
    {text : List Char} (rest : input.rest = '|' :: text) {parts : Parsed (List Token) input.advance.skipSpacing}
    (read : readText input.advance.skipSpacing = .ok parts) (unchained : parts.rest.isAt ':' = false) :
    ∃ reached, readRow outline lineStart input =
      .ok ((Line.complete .pipedLine ((parts.map (Token.mark .pipeMark input :: ·)).widen reached)).map fun line =>
        { depth := outline.depth, line, chained := [] }) := by
  refine ⟨(Input.reaches_advance _).trans (Input.reaches_skipSpacing _), ?_⟩
  have alone : readChained lineStart parts.rest = .ok (.here parts.rest []) := by
    rw [readChained, dif_neg (Bool.eq_false_iff.mp unchained)]
  unfold readRow
  rw [marked, if_neg Bool.false_ne_true, read_bar rest, Line.readPiped, read]
  change readChained lineStart parts.rest >>= _ = _
  rw [alone]
  rfl

/-! Rows. -/

/-- Lines that are indented by a tab, each after the end of the line before it. -/
def beneath (mark : List Char) (lines : List (List Char)) : List Char :=
  lines.flatMap fun line => mark ++ '\t' :: line

variable {mark last : List Char}

theorem beneath_cons (line : List Char) (lines : List (List Char)) :
    beneath mark (line :: lines) ++ last = mark ++ '\t' :: (line ++ (beneath mark lines ++ last)) := by
  simp only [beneath, List.flatMap_cons, List.append_assoc, List.cons_append]

theorem ended_beneath (ends : Break mark []) (lines : List (List Char)) (final : Final last) :
    Ended (beneath mark lines ++ last) := by
  cases lines with
  | nil => exact final.ended
  | cons line lines =>
    rw [beneath, List.flatMap_cons, List.append_assoc, List.append_assoc]
    exact ended_break ends _

/-- A tab opens the line before, or leads to the line after another one that is nested in the same line. -/
def Opens (bare : Bool) (outline : Outline) : Prop := outline.enter ['\t'] = .ok ⟨some .tab, [bare], outline.last⟩

theorem opens_first (bare : Bool) : Opens bare ⟨none, [], some bare⟩ := rfl

theorem opens_next (bare : Bool) (last : Option Bool) : Opens bare ⟨some .tab, [bare], last⟩ := rfl

/-- A line that is indented by a tab, and the rows after it. -/
theorem readRows_tab {bare : Bool} {outline : Outline} (opens : Opens bare outline) {input : Input} {char : Char}
    {text : List Char} (rest : input.rest = '\t' :: char :: text) (visible : isWhitespace char = false)
    {row : Parsed Row input.advance}
    (read : readRow ⟨some .tab, [bare], outline.last⟩ input input.advance = .ok row) {rows : List Row}
    (goesOn : readRows ⟨some .tab, [bare], some row.value.innermost.nestsText⟩ (finishLine row.rest) = .ok rows) :
    readRows outline input = .ok (row.value :: rows) := by
  have after : input.advance.rest = char :: text := by rw [rest_advance, rest, List.tail_cons]
  have filled : ¬ input.atEnd = true := by
    rw [Input.atEnd, rest]
    exact Bool.false_ne_true
  have spaced : input.skipSpacing = input.advance := by
    obtain ⟨pos, _⟩ := input
    obtain rfl := rest
    have inside : isSpacing char = false := not_isSpacing visible
    simp only [Input.skipSpacing, Input.dropWhile, Input.dropFrom, Input.advance, inside]
    rfl
  have within : ¬ input.advance.atLineEnd = true := by
    rw [Input.atLineEnd, Input.atEnd, isClass_eq after, after, not_isLineEnd visible]
    exact Bool.false_ne_true
  have spacing : input.takeWhile isSpacing = ['\t'] := by
    rw [Input.takeWhile, rest, List.takeWhile_cons_of_pos rfl,
      List.takeWhile_cons_of_neg (Bool.eq_false_iff.mp (not_isSpacing visible))]
  rw [readRows_eq, if_neg filled, spaced, if_neg within, spacing, opens]
  dsimp only
  rw [read]
  change readRows _ (finishLine row.rest) >>= _ = _
  rw [goesOn]
  rfl

theorem rows_read (ends : Break mark []) (final : Final last) (texts : List Text) {outline other : Outline}
    (bare : Opens true outline) (barred : Opens false other) {first second : Input}
    (here : first.rest = beneath mark (texts.map Text.chars) ++ last)
    (there : second.rest = beneath mark (texts.map Text.barred) ++ last) :
    ∃ lines others, readRows outline (finishLine first) = .ok (lines.map below) ∧
      readRows other (finishLine second) = .ok (others.map below) ∧ List.Forall₂ Barred lines others := by
  -- Each line leaves the next one at the same depth, whether it was the first one below the tag or not.
  induction texts generalizing outline other first second with
  | nil =>
    have none {input : Input} (rest : input.rest = last) : (finishLine input).rest = [] := by
      refine finishLine_rest ?_ (rest.trans (List.append_nil last).symm)
      exact final.symm.imp_right fun none => by rw [none, List.append_nil]
    exact ⟨[], [], readRows_end _ (none here), readRows_end _ (none there), .nil⟩
  | cons text texts step =>
    have ended := ended_beneath ends (texts.map Text.chars) final
    have others := ended_beneath ends (texts.map Text.barred) final
    have line {input : Input} {chars tail : List Char} (rest : input.rest = mark ++ '\t' :: (chars ++ tail)) :
        (finishLine input).rest = '\t' :: (chars ++ tail) ∧ (finishLine input).advance.rest = chars ++ tail := by
      have next := finishLine_rest (.inl (break_before ends (by decide) _)) rest
      exact ⟨next, by rw [rest_advance, next, List.tail_cons]⟩
    obtain ⟨start, inner⟩ := line (here.trans (beneath_cons ..))
    obtain ⟨begin, bar⟩ := line (there.trans (beneath_cons ..))
    obtain ⟨x, y, one, two, akin, filled, left, right⟩ := text.reads ended others inner (text.rest_barred bar)
    obtain ⟨lines, twins, found, sought, alike⟩ :=
      step (opens_next true (some true)) (opens_next false (some false)) left right
    obtain ⟨char, more, same, visible⟩ := text.begins
    rw [same, List.cons_append] at start
    have marked : Outline.isText ⟨some .tab, [false], other.last⟩ = false := rfl
    obtain ⟨_, row⟩ := readRow_barred marked (finishLine second) bar two (others.isAt rfl right)
    exact ⟨_ :: lines, _ :: twins, readRows_tab bare start visible (readRow_bare rfl _ one) found,
      readRows_tab barred begin rfl row sought, .cons (.intro filled rfl akin) alike⟩

end HtmlTemplate.TextBlocks
