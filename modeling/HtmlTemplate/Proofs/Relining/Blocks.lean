import HtmlTemplate.Proofs.Elements.Gaps
import HtmlTemplate.Proofs.Relining.Texts

/-! Lines of code in two texts of which the second has more blank lines. A statement goes on in the same lines, and
a block consists of the same ones. -/

namespace HtmlTemplate.Relining

open CharClass Code Respelling

variable {lining : Lining} {first second : Input} {mark text other gap : List Char}

/-! The end of a line before blank lines. -/

theorem skipSpacing_break {input : Input} (ends : Break mark text) (rest : input.rest = mark ++ text) :
    input.skipSpacing.rest = mark ++ text :=
  rest_skipSpacing_break (List.forall_mem_nil _) ends rest

/-- From the end of a blank line to the end of the next one. -/
theorem blankLine_gap {input : Input} {spacing : List Char} (blank : ∀ char ∈ spacing, isSpacing char = true)
    (ends : Break mark text) (rest : input.rest = mark ++ (spacing ++ (mark ++ text))) :
    ∃ next, Gap.blankLine? input = some next ∧ next.rest = mark ++ text := by
  obtain ⟨start, eaten, begins⟩ := eatNewline_break ((ends.before_mark text).before_spacing blank) rest
  have spaced := rest_skipSpacing_break blank ends begins
  refine ⟨start.skipSpacing, ?_, spaced⟩
  unfold Gap.blankLine?
  rw [eaten]
  exact if_pos (isClass_break ends spaced)

/-! Statements that go on in other lines. -/

/-- What lines start with that continue an expression: the terminator of the line before, and the spacing that the
lines of a block start with. -/
inductive Continues (lining : Lining) : List Char → List Char → Prop where
  | block {mark indent text : List Char} (ends : Break mark text) (filled : indent ≠ [])
      (blank : ∀ char ∈ indent, isSpacing char = true) :
      Continues lining (mark ++ indent) (mark ++ (lining.extra ++ indent))

/-- A line terminator and spacing, at the end of a line. -/
theorem begins_break {twin indent : List Char} (ends : Break mark text) (filled : indent ≠ [])
    (blank : ∀ char ∈ indent, isSpacing char = true) (others : Break twin other) :
    mark ++ indent <+: twin ++ other ↔ mark = twin ∧ indent <+: other := by
  constructor
  · rintro ⟨more, whole⟩
    have before : Break mark (indent ++ more) := by
      refine ends.moved fun _ newline => ?_
      obtain ⟨char, rest, rfl⟩ := List.exists_cons_of_ne_nil filled
      have first := blank char List.mem_cons_self
      rw [Option.some.inj newline] at first
      cases first
    rw [List.append_assoc] at whole
    obtain ⟨rfl, rfl⟩ := others.unique before whole.symm
    exact ⟨rfl, List.prefix_append _ _⟩
  · rintro ⟨rfl, begins⟩
    exact (List.prefix_append_right_inj mark).mpr begins

/-- Both texts begin with the same spacing. -/
theorem begins_spacing {indent : List Char} (blank : ∀ char ∈ indent, isSpacing char = true)
    (texts : Relined lining.extra text other) : (indent <+: other ↔ indent <+: text) ∧
      (indent <+: text → Relined lining.extra (text.drop indent.length) (other.drop indent.length)) := by
  induction indent generalizing text other with
  | nil => exact ⟨iff_of_true List.nil_prefix List.nil_prefix, fun _ => texts⟩
  | cons char indent step =>
    obtain ⟨first, rest⟩ := List.forall_mem_cons.mp blank
    have same := texts.head?_eq
    cases text with
    | nil =>
      rw [List.head?_nil, List.head?_eq_none_iff] at same
      subst same
      exact ⟨Iff.rfl, fun begins => absurd (List.prefix_nil.mp begins) (List.cons_ne_nil _ _)⟩
    | cons other text =>
      obtain ⟨more, rfl⟩ := List.head?_eq_some_iff.mp same
      rw [List.cons_prefix_cons, List.cons_prefix_cons]
      by_cases here : char = other
      · subst here
        obtain ⟨_, written, further, -⟩ := texts.uncons (isLineEnd_of_isSpacing first)
        obtain ⟨-, rfl⟩ := List.cons.inj written
        obtain ⟨alike, goesOn⟩ := step rest further
        exact ⟨and_congr_right fun _ => alike, fun begins => goesOn begins.2⟩
      · exact ⟨iff_of_false (here ·.1) (here ·.1), fun begins => absurd begins.1 here⟩

namespace Continues

variable {continuation continued : List Char}

theorem filled (continues : Continues lining continuation continued) : continuation ≠ [] ∧ continued ≠ [] := by
  cases continues with
  | block ends =>
    obtain ⟨char, rest, rfl, -⟩ := ends.cons
    exact ⟨List.cons_ne_nil _ _, List.cons_ne_nil _ _⟩

theorem plain (continues : Continues lining continuation continued) : Plain continuation := by
  cases continues with
  | block ends _ blank =>
    refine plain_of_blanks (List.forall_mem_append.mpr ⟨fun char member => ?_, fun char member => ?_⟩)
    · rw [isWhitespace, ends.lineEnds char member, Bool.or_true]
    · rw [isWhitespace, blank char member, Bool.true_or]

/-- A line goes on in one text if it does in the other. -/
theorem eatWord? (continues : Continues lining continuation continued) (ends : Break mark text)
    (rest : first.rest = mark ++ text) (others : second.rest = mark ++ (lining.extra ++ other))
    (texts : Relined lining.extra text other) :
    Option.Rel (Beside lining.spelling) (first.eatWord? continuation) (second.eatWord? continued) := by
  have again : Break mark (lining.extra ++ other) := (ends.of_head texts.head?_eq).before_spacing lining.spacing
  cases continues with
  | @block twin indent _ breaks filled blank =>
    obtain ⟨alike, goesOn⟩ := begins_spacing blank texts
    have one := begins_break breaks filled blank ends
    have extended : lining.extra ++ indent ≠ [] := List.append_ne_nil_of_right_ne_nil _ filled
    have two := begins_break breaks extended (List.forall_mem_append.mpr ⟨lining.spacing, blank⟩) again
    rw [List.prefix_append_right_inj, alike, ← one] at two
    unfold Input.eatWord? Input.startsWith
    rw [rest, others]
    by_cases begins : twin ++ indent <+: mark ++ text
    · rw [if_pos (List.isPrefixOf_iff_prefix.mpr begins), if_pos (List.isPrefixOf_iff_prefix.mpr (two.mpr begins))]
      obtain ⟨rfl, inside⟩ := one.mp begins
      refine .some ?_
      unfold Beside
      rw [Reading.rest_advanceBy, Reading.rest_advanceBy, rest, others, List.length_append, ← List.drop_drop,
        List.drop_left, List.length_append, List.length_append, ← List.drop_drop, List.drop_left, ← List.drop_drop,
        List.drop_left]
      exact goesOn inside
    · rw [if_neg fun here => begins (List.isPrefixOf_iff_prefix.mp here),
        if_neg fun here => begins (two.mp (List.isPrefixOf_iff_prefix.mp here))]
      exact .none

end Continues

theorem skipContinued_skipSpacing (continuation : List Char) (complete : Bool) (lineEnd : Option Input)
    (input : Input) : Gap.skipContinued continuation complete lineEnd input.skipSpacing =
      Gap.skipContinued continuation complete lineEnd input := by
  rw [Reading.skipContinued_eq, Reading.skipContinued_eq continuation complete lineEnd input,
    Input.skipSpacing_skipSpacing]

/-- Blank lines are skipped, and where they began is kept. -/
theorem skipContinued_gap (continuation : List Char) (complete : Bool) (lineEnd : Option Input) {input : Input}
    (blank : Blanks mark gap) (ends : Break mark text) (rest : input.rest = mark ++ (gap ++ text)) :
    ∃ stop next, Gap.skipContinued continuation complete lineEnd input =
        Gap.skipContinued continuation complete stop next ∧ next.rest = mark ++ text ∧
      (stop.getD next.skipSpacing).rest = (lineEnd.getD input.skipSpacing).rest := by
  induction blank generalizing lineEnd input with
  | nil => exact ⟨lineEnd, input, rfl, rest, rfl⟩
  | @line spacing gap blank lines step =>
    rw [List.append_assoc, List.append_assoc] at rest
    have inner : Break mark (gap ++ text) := lines.breaks ends
    have here := skipSpacing_break ((inner.before_mark _).before_spacing blank) rest
    obtain ⟨after, skipped, further⟩ := blankLine_gap blank inner here
    obtain ⟨stop, next, same, reaches, stops⟩ := step (some (lineEnd.getD input.skipSpacing)) further
    refine ⟨stop, next, ?_, reaches, stops⟩
    have ends := isClass_break ((inner.before_mark _).before_spacing blank) here
    rw [← same, Reading.skipContinued_eq, if_pos ends, skipped]

theorem blankLine_beside (ends : Break mark text) (rest : first.rest = mark ++ text)
    (others : second.rest = mark ++ (lining.extra ++ other)) (texts : Relined lining.extra text other) :
    Option.Rel (Beside lining.spelling) (Gap.blankLine? first) (Gap.blankLine? second) := by
  obtain ⟨next, eaten, begins⟩ := eatNewline_break ends rest
  have again := (ends.of_head texts.head?_eq).before_spacing lining.spacing
  obtain ⟨follow, copied, starts⟩ := eatNewline_break again others
  have starting : Starting lining next follow := ⟨other, starts, by rwa [begins]⟩
  have spaced := starting.skipSpacing
  unfold Gap.blankLine?
  rw [eaten, copied]
  dsimp only
  rw [spaced.isClass ⟨rfl, rfl⟩]
  split
  · exact .some spaced
  · exact .none

/-- A statement goes on in both texts or in neither. -/
theorem skipContinued_pauses {continuation continued : List Char} (continues : Continues lining continuation continued)
    (complete : Bool) {lineEnd stop : Option Input} {first second : Input}
    (ends : Beside lining.spelling (lineEnd.getD first.skipSpacing) (stop.getD second.skipSpacing))
    (beside : Beside lining.spelling first second) :
    Pauses lining.spelling (Gap.skipContinued continuation complete lineEnd first)
      (Gap.skipContinued continued complete stop second) := by
  have spaced := beside.skipSpacing
  by_cases line : first.skipSpacing.isClass isLineEnd = true
  · obtain ⟨mark, text, gap, other, rest, others, breaks, blank, texts⟩ := lineEnd_beside spaced line
    have again : Break mark (lining.extra ++ other) := (breaks.of_head texts.head?_eq).before_spacing lining.spacing
    obtain ⟨last, next, same, follows, stops⟩ :=
      @skipContinued_gap _ _ _ continued complete stop second.skipSpacing blank again others
    rw [Input.skipSpacing_skipSpacing] at stops
    have there := skipSpacing_break again follows
    have halt : Beside lining.spelling (lineEnd.getD first.skipSpacing) (last.getD next.skipSpacing) := by
      unfold Beside at ends ⊢
      rwa [stops]
    have blanks := blankLine_beside breaks rest there texts
    have word := continues.eatWord? breaks rest there texts
    rw [← skipContinued_skipSpacing continued, same, Reading.skipContinued_eq continuation,
      Reading.skipContinued_eq continued, if_pos line, if_pos (isClass_break again there)]
    simp only [continues.filled.1, continues.filled.2, or_false]
    cases found : Gap.blankLine? first.skipSpacing with
    | some after =>
      rw [found] at blanks
      generalize Gap.blankLine? next.skipSpacing = later at blanks
      cases blanks with
      | some later => exact skipContinued_pauses continues complete halt later
    | none =>
      rw [found] at blanks
      generalize Gap.blankLine? next.skipSpacing = later at blanks
      cases blanks with
      | none =>
        dsimp only
        split
        · exact ⟨halt, rfl⟩
        · cases eaten : first.skipSpacing.eatWord? continuation with
          | none =>
            rw [eaten] at word
            generalize next.skipSpacing.eatWord? continued = later at word
            cases word with
            | none => exact ⟨halt, rfl⟩
          | some after =>
            rw [eaten] at word
            generalize next.skipSpacing.eatWord? continued = later at word
            cases word with
            | some later => exact skipContinued_pauses continues complete later.skipSpacing later
  · rw [Reading.skipContinued_eq continuation, Reading.skipContinued_eq continued, if_neg line,
      if_neg (by rwa [spaced.isClass ⟨rfl, rfl⟩])]
    exact ⟨spaced, by rw [spaced.atEnd]⟩
termination_by first.size
decreasing_by
  · have := Input.size_of_eatWord? eaten
    have := Input.size_skipSpacing_le first
    have := List.length_pos_iff.mpr continues.filled.1
    omega
  · have := (Gap.passes_of_blankLine? found).2
    have := Input.size_skipSpacing_le first
    omega

/-! The next line. -/

/-- What a text ends in shows in what it is put together of, unless this parts a line terminator. -/
theorem lastLineBreak_append {before : List Char} (filled : text ≠ [])
    (apart : text = ['\n'] → before.getLast? ≠ some '\r') : lastLineBreak (before ++ text) = lastLineBreak text := by
  unfold lastLineBreak
  rw [List.reverse_append]
  cases whole : text.reverse with
  | nil => exact absurd (List.reverse_eq_nil_iff.mp whole) filled
  | cons last front =>
    have single (none : front = []) : text = [last] := by
      rw [none] at whole
      exact List.reverse_eq_cons_iff.mp whole
    rw [List.cons_append]
    split
    · rename_i same
      obtain ⟨rfl, rest⟩ := List.cons.inj same
      cases front with
      | nil =>
        refine absurd ?_ (apart (single rfl))
        rw [List.nil_append] at rest
        rw [List.getLast?_eq_head?_reverse, rest]
        rfl
      | cons next front =>
        obtain ⟨rfl, -⟩ := List.cons.inj rest
        rfl
    · rename_i same
      obtain ⟨rfl, -⟩ := List.cons.inj same
      rfl
    · rename_i paired carriage
      split
      · rename_i same
        obtain ⟨rfl, rfl⟩ := List.cons.inj same
        exact absurd rfl (paired _)
      · rename_i same
        obtain ⟨rfl, -⟩ := List.cons.inj same
        exact absurd rfl (carriage _)
      · rfl

/-- A blank line comes before what a text ends in. -/
theorem lastLineBreak_line {spacing more : List Char} (ends : Break mark (spacing ++ (text ++ more)))
    (blank : ∀ char ∈ spacing, isSpacing char = true) (filled : text ≠ []) :
    lastLineBreak (mark ++ (spacing ++ text)) = lastLineBreak text := by
  rw [← List.append_assoc]
  refine lastLineBreak_append filled ?_
  rintro rfl last
  rcases List.eq_nil_or_concat' spacing with rfl | ⟨spacing, char, rfl⟩
  · rw [List.append_nil] at last
    cases ends with
    | newline => cases last
    | paired => cases last
    | carriage apart => exact apart rfl
  · rw [← List.append_assoc, List.getLast?_concat] at last
    have spaced := blank char (List.mem_append_right _ List.mem_cons_self)
    rw [Option.some.inj last] at spaced
    cases spaced

/-- Where the next line is, from the end of a line. -/
theorem nextLine_break {input : Input} (ends : Break mark text) (rest : input.rest = mark ++ text) :
    ∃ start, input.Reaches start ∧ start.rest = text ∧ nextLine? input =
      if start.skipSpacing.atEnd then none
      else if start.skipSpacing.isClass isLineEnd then nextLine? start.skipSpacing
      else some start := by
  obtain ⟨start, eaten, begins⟩ := eatNewline_break ends rest
  refine ⟨start, (Input.passes_of_eatNewline? eaten).1, begins, ?_⟩
  rw [nextLine_eq, eaten]
  rfl

/-- A blank line comes before the terminator that the next line follows. -/
theorem lastLineBreak_skipped {input start final : Input} (ends : Break mark start.rest)
    (rest : input.rest = mark ++ start.rest) (reached : input.Reaches start)
    (found : nextLine? start.skipSpacing = some final) :
    lastLineBreak (input.textTo final.pos) = lastLineBreak (start.skipSpacing.textTo final.pos) := by
  obtain ⟨spacing, spaced, -⟩ := Input.reaches_skipSpacing start
  have later := (passes_of_nextLine? found).1
  obtain ⟨read, further, -⟩ := id later
  have filled : read ≠ [] := by
    rintro rfl
    have shorter := (passes_of_nextLine? found).2
    rw [Input.size, Input.size, further] at shorter
    exact Nat.lt_irrefl _ shorter
  have blank : ∀ char ∈ spacing, isSpacing char = true := by
    have taken : spacing = start.rest.takeWhile isSpacing := by
      have whole := List.takeWhile_append_dropWhile (p := isSpacing) (l := start.rest)
      rw [Input.skipSpacing, Input.rest_dropWhile] at spaced
      exact List.append_cancel_right (spaced.symm.trans whole.symm)
    rw [taken]
    exact isSpacing_of_mem_takeWhile
  rw [further] at spaced
  rw [spaced] at ends rest
  have whole : input.rest = (mark ++ (spacing ++ read)) ++ final.rest := by
    rw [rest, List.append_assoc, List.append_assoc]
  rw [Input.textTo_of_reaches further later,
    Input.textTo_of_reaches whole ((reached.trans (Input.reaches_skipSpacing _)).trans later)]
  exact lastLineBreak_line ends blank filled

/-- Two next lines that follow the same terminator. -/
structure Follows (lining : Lining) (first second start final : Input) : Prop where
  starting : Starting lining start final
  breaks : lastLineBreak (second.textTo final.pos) = lastLineBreak (first.textTo start.pos)

/-- Blank lines more come before the next line. -/
theorem nextLine_blanks {input : Input} (blank : Blanks mark gap) (ends : Break mark text)
    (rest : input.rest = mark ++ (gap ++ text)) :
    ∃ next, next.rest = mark ++ text ∧ nextLine? input = nextLine? next ∧
      ∀ final, nextLine? next = some final →
        lastLineBreak (input.textTo final.pos) = lastLineBreak (next.textTo final.pos) := by
  induction blank generalizing input with
  | nil => exact ⟨input, rest, rfl, fun _ _ => rfl⟩
  | @line spacing gap blank lines step =>
    rw [List.append_assoc, List.append_assoc] at rest
    have inner : Break mark (gap ++ text) := lines.breaks ends
    have outer := (inner.before_mark (gap ++ text)).before_spacing blank
    obtain ⟨start, reached, begins, next⟩ := nextLine_break outer rest
    have spaced := rest_skipSpacing_break blank inner begins
    have filled : ¬ start.skipSpacing.atEnd = true := by
      obtain ⟨char, more, same, -⟩ := inner.cons
      rw [Input.atEnd, spaced, same]
      exact Bool.false_ne_true
    rw [if_neg filled, if_pos (isClass_break inner spaced)] at next
    obtain ⟨last, follows, same, ended⟩ := step spaced
    refine ⟨last, follows, next.trans same, fun final found => ?_⟩
    rw [← begins] at outer rest
    rw [lastLineBreak_skipped outer rest reached (same.trans found)]
    exact ended final found

theorem nextLine_rel {first second : Input} (beside : Beside lining.spelling first second) :
    Option.Rel (Follows lining first second) (nextLine? first) (nextLine? second) := by
  by_cases line : first.isClass isLineEnd = true
  · obtain ⟨mark, text, gap, other, rest, others, breaks, blank, texts⟩ := lineEnd_beside beside line
    have again : Break mark (lining.extra ++ other) := (breaks.of_head texts.head?_eq).before_spacing lining.spacing
    obtain ⟨last, follows, same, ended⟩ := nextLine_blanks blank again others
    obtain ⟨start, reached, begins, next⟩ := nextLine_break breaks rest
    obtain ⟨final, arrived, starts, further⟩ := nextLine_break again follows
    have starting : Starting lining start final := ⟨other, starts, by rwa [begins]⟩
    have spaced := starting.skipSpacing
    rw [same]
    rw [spaced.atEnd, spaced.isClass ⟨rfl, rfl⟩] at further
    by_cases atEnd : start.skipSpacing.atEnd = true
    · rw [if_pos atEnd] at next further
      rw [next, further]
      exact .none
    · rw [if_neg atEnd] at next further
      by_cases blank : start.skipSpacing.isClass isLineEnd = true
      · rw [if_pos blank] at next further
        have shorter : start.skipSpacing.size < first.size := by
          have := Input.size_skipSpacing_le start
          have whole : first.size = mark.length + start.size := by
            rw [Input.size, rest, ← begins, List.length_append, Input.size]
          obtain ⟨char, more, rfl, -⟩ := breaks.cons
          rw [List.length_cons] at whole
          omega
        have later := nextLine_rel spaced
        rw [next, further]
        cases found : nextLine? start.skipSpacing with
        | none =>
          rw [found] at later
          generalize nextLine? final.skipSpacing = result at later
          cases later
          exact .none
        | some line =>
          rw [found] at later
          generalize copied : nextLine? final.skipSpacing = result at later
          cases later with
          | some both =>
            refine .some ⟨both.starting, ?_⟩
            rw [← begins] at breaks rest
            rw [← starts] at again follows
            rw [ended _ (further.trans copied), lastLineBreak_skipped again follows arrived copied, both.breaks,
              lastLineBreak_skipped breaks rest reached found]
      · rw [if_neg blank] at next further
        rw [next, further]
        refine .some ⟨starting, ?_⟩
        rw [← begins] at rest
        rw [← starts] at follows
        rw [ended _ further, Input.textTo_of_reaches follows arrived, Input.textTo_of_reaches rest reached]
  · have none {input : Input} (outside : ¬ input.isClass isLineEnd = true) : nextLine? input = none := by
      have ended : input.eatNewline? = Option.none := by
        rw [← Option.map_eq_none_iff (f := Input.rest), rest_eatNewline?]
        cases rest : input.rest with
        | nil => rfl
        | cons char text =>
          refine afterBreak?_none (Bool.eq_false_iff.mpr fun ends => outside ?_)
          rwa [Reading.isClass_eq rest]
      rw [nextLine_eq, ended]
      rfl
    rw [none line, none (by rwa [beside.isClass ⟨rfl, rfl⟩])]
    exact .none
termination_by first.size
decreasing_by all_goals omega

/-! Blocks. -/

/-- Any text ends in some line terminator. -/
theorem break_lastLineBreak (text : List Char) : Break (lastLineBreak text) [] := by
  unfold lastLineBreak
  split
  · exact .paired _
  · exact .carriage nofun
  · exact .newline _

theorem isDeeper_extended (extra outer indent : List Char) :
    isDeeper (extra ++ outer) (extra ++ indent) = isDeeper outer indent := by
  rw [Bool.eq_iff_iff, isDeeper_iff, isDeeper_iff, List.prefix_append_right_inj, List.prefix_append_right_inj]

theorem Starting.takeWhile (starting : Starting lining first second) :
    second.takeWhile isSpacing = lining.extra ++ first.takeWhile isSpacing := by
  obtain ⟨other, rest, texts⟩ := starting
  have flat : ∀ char ∈ first.rest.takeWhile isSpacing, isLineEnd char = false :=
    fun char member => isLineEnd_of_isSpacing (isSpacing_of_mem_takeWhile char member)
  unfold Input.takeWhile
  rw [rest, List.takeWhile_append_of_pos lining.spacing, (lining.spelling.takeWhile_flat ⟨rfl, rfl⟩ flat texts).1]

/-- The blocks of both texts have the same lines. -/
theorem block_reads (outer : List Char) (indent : Option (List Char)) {first second : Input}
    (beside : Beside lining.spelling first second) (spacing : ∀ block ∈ indent, ∀ char ∈ block, isSpacing char = true) :
    Lexes (Meets lining.spelling (List.Forall₂ (Akin lining.spelling))) (readBlock outer indent first)
      (readBlock (lining.extra ++ outer) (indent.map (lining.extra ++ ·)) second) := by
  have lines := nextLine_rel beside
  cases found : nextLine? first with
  | none =>
    rw [found] at lines
    generalize ended : nextLine? second = next at lines
    cases lines
    rw [readBlock_ended _ _ found, readBlock_ended _ _ ended]
    exact .ok ⟨beside, .nil⟩
  | some start =>
    rw [found] at lines
    generalize follows : nextLine? second = next at lines
    cases lines with
    | @some _ final both =>
      have taken := both.starting.takeWhile
      have block : (indent.map (lining.extra ++ ·)).getD (final.takeWhile isSpacing) =
          lining.extra ++ indent.getD (start.takeWhile isSpacing) := by
        cases indent with
        | none => exact taken
        | some => rfl
      have blank : ∀ char ∈ indent.getD (start.takeWhile isSpacing), isSpacing char = true := by
        cases indent with
        | none => exact isSpacing_of_mem_takeWhile
        | some => exact spacing _ rfl
      obtain ⟨reached, one⟩ := readBlock_line outer indent found
      obtain ⟨arrived, two⟩ := readBlock_line (lining.extra ++ outer) (indent.map (lining.extra ++ ·)) follows
      rw [one, two]
      generalize indent.getD (start.takeWhile isSpacing) = words at *
      generalize (indent.map (lining.extra ++ ·)).getD (final.takeWhile isSpacing) = copies at *
      subst block
      have same : (lining.extra ++ words).isPrefixOf (lining.extra ++ start.takeWhile isSpacing) =
          words.isPrefixOf (start.takeWhile isSpacing) := by
        rw [Bool.eq_iff_iff, List.isPrefixOf_iff_prefix, List.isPrefixOf_iff_prefix, List.prefix_append_right_inj]
      rw [taken, same, isDeeper_extended, both.breaks]
      split
      · rename_i fits
        obtain ⟨begins, deeper⟩ := Bool.and_eq_true_iff.mp fits
        have starts : words <+: start.rest :=
          (List.isPrefixOf_iff_prefix.mp begins).trans (List.takeWhile_prefix _)
        have filled : words ≠ [] := by
          rintro rfl
          exact ((isDeeper_iff _ _).mp deeper).2 List.nil_prefix
        obtain ⟨other, rest, texts⟩ := both.starting
        have after : Beside lining.spelling (start.advanceBy words.length)
            (final.advanceBy (lining.extra ++ words).length) := by
          unfold Beside
          rw [Reading.rest_advanceBy, Reading.rest_advanceBy, rest, List.length_append, ← List.drop_drop,
            List.drop_left]
          exact (begins_spacing blank texts).2 starts
        have continues : Continues lining (lastLineBreak (first.textTo start.pos) ++ words)
            (lastLineBreak (first.textTo start.pos) ++ (lining.extra ++ words)) :=
          .block (break_lastLineBreak _) filled blank
        have abreast : Abreast lining.spelling (.continuedBy (lastLineBreak (first.textTo start.pos) ++ words))
            (.continuedBy (lastLineBreak (first.textTo start.pos) ++ (lining.extra ++ words))) :=
          ⟨rfl, rfl, continues.plain, False.elim, fun _ complete _ _ beside =>
            @skipContinued_pauses _ _ _ continues complete none none _ _ beside.skipSpacing beside⟩
        refine .bind (statements_reads abreast .codeBlock after) fun x y line => ?_
        have shorter := (reached x).2
        refine .map (block_reads outer (some words) line.beside fun block member => ?_) fun z w more => ?_
        · cases member
          exact blank
        · exact ⟨more.beside, List.rel_append line.values more.values⟩
      · exact .ok ⟨beside, .nil⟩
termination_by first.size
decreasing_by all_goals omega

end HtmlTemplate.Relining
