import HtmlTemplate.Proofs.Relining.Blocks
import HtmlTemplate.Proofs.Respelling.Dumps
import HtmlTemplate.Proofs.Respelling.Nesting

/-! Blank lines do not matter: with more of them a source is the same template. In two texts of which the second
has more blank lines, the same lines are read at the same depths. -/

namespace HtmlTemplate.Relining

open CharClass Code Document Respelling

variable {lining : Lining} {first second start stop : Input} {mark text other run extra gap : List Char}

/-! Texts that end in line ends. -/

theorem Break.ends (breaks : Break mark text) : Ends mark := by
  cases breaks with
  | newline => exact ⟨[], '\n', rfl, rfl⟩
  | paired => exact ⟨['\r'], '\n', rfl, rfl⟩
  | carriage => exact ⟨[], '\r', rfl, rfl⟩

theorem Blanks.ends (blanks : Blanks mark gap) (ends : Ends mark) : Ends (mark ++ gap) := by
  induction blanks with
  | nil => rwa [List.append_nil]
  | line _ _ step => exact (step.append _).append _

/-- A line terminator ends before anything but a newline. -/
theorem Break.unparted {rest before : List Char} (breaks : Break (run ++ before) rest) (filled : run ≠ [])
    (apart : before.head? ≠ some '\n') : before = [] := by
  obtain ⟨char, run, rfl⟩ := List.exists_cons_of_ne_nil filled
  rw [List.cons_append] at breaks
  generalize whole : run ++ before = more at breaks
  cases breaks with
  | newline => exact (List.append_eq_nil_iff.mp whole).2
  | carriage => exact (List.append_eq_nil_iff.mp whole).2
  | paired =>
    cases run with
    | nil => exact absurd (congrArg List.head? whole) apart
    | cons next run => exact (List.append_eq_nil_iff.mp (List.cons.inj whole).2).2

/-! What stands between two places. -/

namespace Relined

/-- Within a line both texts go on the same. -/
theorem flat (within : ∀ char ∈ run, isLineEnd char = false) (texts : Relined extra (run ++ text) other) :
    ∃ more, other = run ++ more ∧ Relined extra text more := by
  induction run generalizing other with
  | nil => exact ⟨other, rfl, texts⟩
  | cons char run step =>
    obtain ⟨first, rest⟩ := List.forall_mem_cons.mp within
    obtain ⟨more, rfl, further, -⟩ := texts.uncons first
    obtain ⟨last, rfl, after⟩ := step rest further
    exact ⟨last, rfl, after⟩

/-- What is visible stands in both texts. -/
theorem visible (blank : ∀ char ∈ extra, isSpacing char = true) (texts : Relined extra text other) :
    (other.filter fun char => !isWhitespace char) = text.filter fun char => !isWhitespace char := by
  have none {blanks : List Char} (all : ∀ char ∈ blanks, isWhitespace char = true) :
      (blanks.filter fun char => !isWhitespace char) = [] := by
    refine List.filter_eq_nil_iff.mpr fun char member => ?_
    rw [all char member]
    decide
  induction texts with
  | nil => rfl
  | char _ _ _ step => rw [List.filter_cons, List.filter_cons, step]
  | line ends blanks _ step =>
    have marks := none fun char member => by rw [isWhitespace, ends.lineEnds char member, Bool.or_true]
    have spacing := none fun char member => by rw [isWhitespace, blank char member, Bool.true_or]
    rw [List.filter_append, List.filter_append, List.filter_append, List.filter_append, step, marks, spacing,
      none (blanks.blanks ends.lineEnds)]
    rfl

/-- The second text goes on in one way from something visible on. -/
theorem eq_of_suffix (blank : ∀ char ∈ extra, isSpacing char = true) {char : Char} {whole more : List Char}
    (shown : isWhitespace char = false) (texts : Relined extra (char :: text) other)
    (others : Relined extra (char :: text) more) (here : other <:+ whole) (there : more <:+ whole) : other = more := by
  have eq_of_longer {longer shorter : List Char} (one : Relined extra (char :: text) longer)
      (two : Relined extra (char :: text) shorter) (suffix : shorter <:+ longer) : shorter = longer := by
    obtain ⟨before, rfl⟩ := suffix
    have same := (one.visible blank).trans (two.visible blank).symm
    rw [List.filter_append, List.append_left_eq_self] at same
    obtain ⟨rest, written, -⟩ := one.uncons (isLineEnd_of_visible shown)
    cases before with
    | nil => rfl
    | cons mark before =>
      obtain ⟨rfl, -⟩ := List.cons.inj written
      have hidden := List.filter_eq_nil_iff.mp same mark List.mem_cons_self
      rw [shown] at hidden
      exact absurd rfl hidden
  rcases List.suffix_or_suffix_of_suffix here there with shorter | longer
  · exact eq_of_longer others texts shorter
  · exact (eq_of_longer texts others longer).symm

/-- After the end of a line the extra spacing comes before what goes on. -/
theorem closed (apart : text.head? ≠ some '\n') (texts : Relined extra (run ++ text) other) (ends : Ends run) :
    ∃ front more, other = front ++ (extra ++ more) ∧ Ends front ∧ Relined extra text more := by
  generalize whole : run ++ text = source at texts
  induction texts generalizing run with
  | nil =>
    obtain ⟨front, char, rfl, -⟩ := ends
    cases (List.append_eq_nil_iff.mp (List.append_eq_nil_iff.mp whole).1).2
  | @char char _ _ within _ _ step =>
    cases run with
    | nil => cases ends.ne_nil rfl
    | cons first run =>
      obtain ⟨rfl, rest⟩ := List.cons.inj whole
      obtain ⟨front, more, rfl, closed, after⟩ := step (ends.tail within) rest
      exact ⟨first :: front, more, rfl, closed.append [first], after⟩
  | @line mark gap source other breaks blanks rest step =>
    have marked : Ends (mark ++ gap) := blanks.ends breaks.ends
    obtain ⟨between, rfl, rfl⟩ : ∃ between, run = mark ++ between ∧ source = between ++ text := by
      rcases List.append_eq_append_iff.mp whole with ⟨before, rfl, rfl⟩ | ⟨between, rfl, rfl⟩
      · have none : before = [] := by
          refine breaks.unparted ends.ne_nil fun newline => apart ?_
          rw [List.head?_append, newline]
          rfl
        subst none
        exact ⟨[], by rw [List.append_nil, List.append_nil], rfl⟩
      · exact ⟨between, rfl, rfl⟩
    by_cases none : between = []
    · subst none
      exact ⟨mark ++ gap, other, (List.append_assoc ..).symm, marked, rest⟩
    · obtain ⟨front, more, rfl, closed, after⟩ := step (ends.of_append none) rfl
      exact ⟨mark ++ (gap ++ (extra ++ front)), more, by simp only [List.append_assoc],
        ((closed.append _).append _).append _, after⟩

end Relined

/-! Blocks of code. -/

theorem closed_of_ends (ends : Ends run) : Closed run := by
  obtain ⟨front, char, rfl, lineEnd⟩ := ends
  exact .line front lineEnd

/-- From the start of a line to something visible, the last line begins with the extra spacing. -/
theorem lastLine_extended {char : Char} {copy more : List Char} (blank : ∀ char ∈ extra, isSpacing char = true)
    (shown : isWhitespace char = false) (texts : Relined extra (run ++ char :: text) other)
    (whole : extra ++ other = copy ++ more) (after : Relined extra (char :: text) more) :
    lastLine copy = extra ++ lastLine run := by
  have flatExtra : ∀ char ∈ extra, isLineEnd char = false := fun char member =>
    isLineEnd_of_isSpacing (blank char member)
  have newline : (char :: text).head? ≠ some '\n' := by
    intro newline
    rw [Option.some.inj newline] at shown
    cases shown
  obtain ⟨before, split, closed, flat⟩ := lastLine_split run
  have extended : ∀ char ∈ extra ++ lastLine run, isLineEnd char = false := List.forall_mem_append.mpr ⟨flatExtra, flat⟩
  obtain ⟨front, rest, ended, here, further⟩ : ∃ front rest, Closed front ∧
      extra ++ other = front ++ (extra ++ lastLine run) ++ rest ∧ Relined extra (char :: text) rest := by
    rw [split, List.append_assoc] at texts
    cases closed with
    | nil =>
      obtain ⟨rest, same, further⟩ := texts.flat flat
      refine ⟨[], rest, .nil, ?_, further⟩
      rw [same, List.nil_append, List.append_assoc]
    | line front ends =>
      have apart : (lastLine run ++ char :: text).head? ≠ some '\n' := by
        cases last : lastLine run with
        | nil => exact newline
        | cons first rest =>
          intro newline
          have within := flat first (by rw [last]; exact List.mem_cons_self)
          rw [Option.some.inj newline] at within
          cases within
      obtain ⟨front, rest, same, ends, further⟩ := texts.closed apart ⟨front, _, rfl, ends⟩
      obtain ⟨last, rfl, after⟩ := further.flat flat
      refine ⟨extra ++ front, last, closed_of_ends (ends.append extra), ?_, after⟩
      rw [same]
      simp only [List.append_assoc]
  have same : rest = more := by
    have one : rest <:+ extra ++ other := by
      rw [here]
      exact List.suffix_append _ _
    have two : more <:+ extra ++ other := by
      rw [whole]
      exact List.suffix_append _ _
    exact Relined.eq_of_suffix blank shown further after one two
  rw [whole, same] at here
  rw [List.append_cancel_right here, lastLine_of_closed ended extended]

/-- The spacing at the start of the line that holds something visible. -/
theorem outerIndent_extended (starting : Starting lining start stop) (reached : start.Reaches first)
    (arrived : stop.Reaches second) (beside : Beside lining.spelling first second) {char : Char}
    (shown : isWhitespace char = false) (begins : first.isAt char = true) :
    Line.outerIndent stop second = lining.extra ++ Line.outerIndent start first := by
  obtain ⟨other, rest, texts⟩ := starting
  obtain ⟨read, whole, -⟩ := id reached
  obtain ⟨copy, others, -⟩ := id arrived
  obtain ⟨mark, text, here, same⟩ := cons_of_isClass begins
  obtain rfl : mark = char := beq_iff_eq.mp same
  have after : Relined lining.extra first.rest second.rest := beside
  rw [here] at after
  have last : lastLine copy = lining.extra ++ lastLine read := by
    rw [whole, here] at texts
    exact lastLine_extended lining.spacing shown texts (rest.symm.trans others) after
  change (lastLine (stop.textTo second.pos)).takeWhile isSpacing =
    lining.extra ++ (lastLine (start.textTo first.pos)).takeWhile isSpacing
  rw [Input.textTo_of_reaches others arrived, Input.textTo_of_reaches whole reached, last,
    List.takeWhile_append_of_pos lining.spacing]

/-- From the start of a line, blocks are read alike. -/
theorem Starting.blocks (starting : Starting lining start stop) :
    Respelling.Blocks lining.spelling start stop := by
  intro first second reached arrived found beside
  rw [outerIndent_extended starting reached arrived beside rfl found]
  exact block_reads _ none (beside.advance_isAt found rfl) nofun

/-! Rows. -/

/-- Blank lines are no rows. -/
theorem readRows_blanks {input : Input} (blank : Blanks mark gap) (ends : Break mark text)
    (rest : input.rest = gap ++ text) :
    ∃ next, next.rest = text ∧ ∀ outline, readRows outline input = readRows outline next := by
  induction blank generalizing input with
  | nil => exact ⟨input, rest, fun _ => rfl⟩
  | @line spacing gap blank lines step =>
    rw [List.append_assoc, List.append_assoc] at rest
    have inner := lines.breaks ends
    have spaced := rest_skipSpacing_break blank inner rest
    have ended : input.skipSpacing.skipRestOfLine.rest = mark ++ (gap ++ text) := by
      obtain ⟨char, more, same, lineEnd⟩ := inner.cons
      rw [Input.skipRestOfLine, Input.dropUntil, Input.rest_dropWhile, spaced, same]
      exact List.dropWhile_cons_of_neg (by rw [lineEnd]; decide)
    obtain ⟨next, eaten, begins⟩ := eatNewline_break inner ended
    obtain ⟨last, follows, same⟩ := step begins
    refine ⟨last, follows, fun outline => ?_⟩
    have filled : ¬ input.atEnd = true := by
      obtain ⟨char, more, same, -⟩ := inner.cons
      rw [Input.atEnd, rest, same, List.isEmpty_iff]
      exact List.append_ne_nil_of_right_ne_nil _ (List.cons_ne_nil _ _)
    have lineEnd : input.skipSpacing.atLineEnd = true := by
      rw [Input.atLineEnd, isClass_break inner spaced, Bool.or_true]
    rw [readRows_eq, if_neg filled, if_pos lineEnd, ← same, finishLine, eaten]
    rfl

/-- After the end of a line the next one begins, perhaps after blank lines. -/
theorem finishLine_beside (beside : Beside lining.spelling first second) :
    (finishLine first).rest = [] ∧ (finishLine second).rest = [] ∨
      ∃ mark gap other, Break mark (finishLine first).rest ∧ Blanks mark gap ∧
        (finishLine second).rest = gap ++ (lining.extra ++ other) ∧
        Relined lining.extra (finishLine first).rest other := by
  have stop := beside.skipRestOfLine
  by_cases line : first.skipRestOfLine.isClass isLineEnd = true
  · obtain ⟨mark, text, gap, other, rest, others, breaks, blank, texts⟩ := lineEnd_beside stop line
    have again := blank.breaks ((breaks.of_head texts.head?_eq).before_spacing lining.spacing)
    obtain ⟨next, eaten, begins⟩ := eatNewline_break breaks rest
    obtain ⟨follow, copied, starts⟩ := eatNewline_break again others
    refine .inr ⟨mark, gap, other, ?_, blank, ?_, ?_⟩
    · rwa [finishLine, eaten, Option.getD_some, begins]
    · rwa [finishLine, copied]
    · rwa [finishLine, eaten, Option.getD_some, begins]
  · have ended {input : Input} (outside : ¬ input.skipRestOfLine.isClass isLineEnd = true) :
        (finishLine input).rest = [] := by
      have none : input.skipRestOfLine.eatNewline? = Option.none := by
        rw [← Option.map_eq_none_iff (f := Input.rest), rest_eatNewline?]
        cases rest : input.skipRestOfLine.rest with
        | nil => rfl
        | cons char text =>
          refine afterBreak?_none (Bool.eq_false_iff.mpr fun ends => outside ?_)
          rwa [Reading.isClass_eq rest]
      rw [finishLine, none]
      exact rest_of_uneaten none
    exact .inl ⟨ended line, ended (by rwa [stop.isClass ⟨rfl, rfl⟩])⟩

/-- Blank lines alone. -/
def Lining.bare : Lining := ⟨[], List.forall_mem_nil _⟩

/-- Two places at the starts of lines, and what stands at the first one is not changed by blank lines. -/
def Starts (first second : Input) : Prop := Relined [] first.rest second.rest

/-- Blank lines are passed over between rows. -/
theorem paced_bare : Paced Lining.bare.spelling Starts where
  beside texts := texts
  spacing {_ second} texts :=
    have starting : Starting .bare _ second := ⟨second.rest, rfl, texts⟩
    starting.takeWhile
  blocks {_ second} texts :=
    have starting : Starting .bare _ second := ⟨second.rest, rfl, texts⟩
    starting.blocks
  finish := fun {_ second} beside => by
    rcases finishLine_beside beside with ⟨ended, others⟩ | ⟨mark, gap, other, breaks, blank, rest, texts⟩
    · refine ⟨finishLine second, ?_, fun _ => rfl⟩
      unfold Starts
      rw [ended, others]
      exact .nil
    · obtain ⟨next, begins, same⟩ := readRows_blanks blank (breaks.of_head texts.head?_eq) rest
      refine ⟨next, ?_, same⟩
      unfold Starts
      rwa [begins]

/-! Lines with blank ones between them. -/

variable {ending line : List Char} {lines others : List (List Char)}

/-- What lines may end in. -/
def terminators : List (List Char) := [['\n'], ['\r', '\n'], ['\r']]

/-- Lines with blank ones before some of them. -/
inductive Padded : List (List Char) → List (List Char) → Prop where
  | nil : Padded [] []
  | line (line : List Char) {lines others : List (List Char)} (rest : Padded lines others) :
      Padded (line :: lines) (line :: others)
  | blank {spacing line : List Char} {lines others : List (List Char)} (blank : ∀ char ∈ spacing, isSpacing char = true)
      (rest : Padded (line :: lines) others) : Padded (line :: lines) (spacing :: others)

theorem Padded.nil_iff (padded : Padded lines others) : others = [] ↔ lines = [] := by
  cases padded with
  | nil => exact Iff.rfl
  | line => exact iff_of_false (List.cons_ne_nil _ _) (List.cons_ne_nil _ _)
  | blank => exact iff_of_false (List.cons_ne_nil _ _) (List.cons_ne_nil _ _)

/-- A terminator before some lines. -/
theorem break_lines (ends : ending ∈ terminators) (flat : ∀ line ∈ lines, ∀ char ∈ line, isLineEnd char = false) :
    Break ending (ending.intercalate lines) := by
  simp only [terminators, List.mem_cons, List.not_mem_nil, or_false] at ends
  obtain rfl | rfl | rfl := ends
  · exact .newline _
  · exact .paired _
  · refine .carriage fun newline => ?_
    cases lines with
    | nil => cases newline
    | cons line lines =>
      rw [Reading.intercalate_cons] at newline
      cases line with
      | nil => cases lines <;> cases newline
      | cons char line =>
        have within := flat _ List.mem_cons_self char List.mem_cons_self
        rw [Option.some.inj newline] at within
        cases within

/-- A line that does not end in a backslash comes before both texts. -/
theorem Relined.prepend {extra : List Char} (flat : ∀ char ∈ line, isLineEnd char = false)
    (closed : line.getLast? ≠ some '\\') (texts : Relined extra text other) :
    Relined extra (line ++ text) (line ++ other) := by
  induction line with
  | nil => exact texts
  | cons char line step =>
    obtain ⟨first, rest⟩ := List.forall_mem_cons.mp flat
    cases line with
    | nil =>
      refine .char first (fun backslash => absurd ?_ closed) texts
      rw [backslash]
      rfl
    | cons next line =>
      rw [List.getLast?_cons_cons] at closed
      refine .char first (fun _ mark member => ?_) (step rest closed)
      cases member
      exact rest _ List.mem_cons_self

/-- The lines and the padded ones as texts. -/
theorem relined_of_padded (ends : ending ∈ terminators) (padded : Padded lines others)
    (flat : ∀ line ∈ lines, ∀ char ∈ line, isLineEnd char = false)
    (closed : ∀ line ∈ lines, line.getLast? ≠ some '\\') :
    ∃ gap text, ending.intercalate others = gap ++ text ∧ Blanks ending gap ∧
      Relined [] (ending.intercalate lines) text := by
  induction padded with
  | nil => exact ⟨[], [], rfl, .nil, .nil⟩
  | @line line lines others rest step =>
    obtain ⟨here, flats⟩ := List.forall_mem_cons.mp flat
    obtain ⟨ended, closes⟩ := List.forall_mem_cons.mp closed
    refine ⟨[], ending.intercalate (line :: others), rfl, .nil, ?_⟩
    cases lines with
    | nil =>
      obtain rfl := rest.nil_iff.mpr rfl
      have whole : Relined [] (line ++ []) (line ++ []) := .prepend here ended .nil
      rw [List.append_nil] at whole
      rwa [List.intercalate_singleton]
    | cons next lines =>
      obtain ⟨follow, others, rfl⟩ := List.exists_cons_of_ne_nil fun none => List.cons_ne_nil _ _ (rest.nil_iff.mp none)
      obtain ⟨gap, text, same, blank, texts⟩ := step flats closes
      rw [List.intercalate_cons_cons, List.intercalate_cons_cons, List.append_assoc, List.append_assoc, same]
      exact .prepend here ended (.line (break_lines ends flats) blank texts)
  | @blank spacing line lines others blank rest step =>
    obtain ⟨follow, others, rfl⟩ := List.exists_cons_of_ne_nil fun none => List.cons_ne_nil _ _ (rest.nil_iff.mp none)
    obtain ⟨gap, text, same, blanks, texts⟩ := step flat closed
    refine ⟨spacing ++ (ending ++ gap), text, ?_, .line blank blanks, texts⟩
    rw [List.intercalate_cons_cons, same]
    simp only [List.append_assoc]

/-! Sources. -/

/-- The lines of both sources make the same trees. -/
theorem ofSource_reads (blank : Blanks ending gap) (breaks : Break ending text) (texts : Relined [] text other) :
    Both (fun error other => other.fault = error.fault)
      (fun root twin => List.Forall₂ (Akin Lining.bare.spelling) root.children twin.children) (Token.ofSource text)
      (Token.ofSource (gap ++ other)) := by
  have start : (Input.ofText (gap ++ other)).rest = gap ++ other := rfl
  obtain ⟨next, rest, same⟩ := readRows_blanks blank (breaks.of_head texts.head?_eq) start
  rw [← rest] at texts
  have rows := @Paced.rows _ _ paced_bare .start (.ofText text) next texts
  rw [← same] at rows
  refine .bind rows.known fun found twins ⟨matched, read, _⟩ => .ok ?_
  have nested := nest_akin matched (readRows_headed .start _ read)
  exact List.forall₂_map_left_iff.mpr (List.forall₂_map_right_iff.mpr (nested.imp fun _ _ both => both.2))

/-- Blank lines do not matter. If no line ends in a backslash and nothing quoted spans lines, then with blank lines
before some of its lines, ended like these, a source is the same template, or is refused with the same message. -/
theorem blank_lines_skipped (options : TemplateOptions) (ends : ending ∈ terminators)
    (flat : ∀ line ∈ lines, ∀ char ∈ line, isLineEnd char = false)
    (closed : ∀ line ∈ lines, line.getLast? ≠ some '\\')
    (unbroken : ∀ root, Token.ofSource (ending.intercalate lines) = .ok root → root.isUnbroken = true)
    (padded : Padded lines others) :
    Both (fun error other => other.message = error.message)
      (fun template other => other.describe true = template.describe true)
      (Template.ofSource options (ending.intercalate lines))
      (Template.ofSource options (ending.intercalate others)) := by
  obtain ⟨gap, text, same, blank, texts⟩ := relined_of_padded ends padded flat closed
  rw [same]
  exact template_alike options (ofSource_reads blank (break_lines ends flat) texts) unbroken

/-- A blank line may stand before each line. -/
theorem padded_each {spacing : List Char} (blank : ∀ char ∈ spacing, isSpacing char = true) (lines : List (List Char)) :
    Padded lines (lines.flatMap fun line => [spacing, line]) := by
  induction lines with
  | nil => exact .nil
  | cons line lines step => exact .blank blank (.line line step)

/-- A list with attributes, a statement and text that go on in other lines. -/
def listing : List (List Char) :=
  ["ul", "\tli(a=1", "\t\tb=2) one", "\t-", "\t\tx = 1 +", "\t\t2", "\tp.", "\t\tsome", "\t\t\ttext", ""].map
    String.toList

theorem listing_unbroken {root : Token} (read : Token.ofSource (['\n'].intercalate listing) = .ok root) :
    root.isUnbroken = true := by
  have whole : (Token.ofSource (['\n'].intercalate listing)).toOption.map Token.isUnbroken = some true := by
    decide +kernel
  rw [read] at whole
  exact Option.some.inj whole

theorem listing_padded :
    ['\n'] ∈ terminators ∧ (∀ line ∈ listing, ∀ char ∈ line, isLineEnd char = false) ∧
      (∀ line ∈ listing, line.getLast? ≠ some '\\') ∧
      (∀ root, Token.ofSource (['\n'].intercalate listing) = .ok root → root.isUnbroken = true) ∧
      Padded listing (listing.flatMap fun line => [[' ', '\t'], line]) ∧
      Both (fun error other => other.message = error.message)
        (fun template other => other.describe true = template.describe true)
        (Template.ofSource { pretty := true, stopOnError := false } (['\n'].intercalate listing))
        (Template.ofSource { pretty := true, stopOnError := false }
          (['\n'].intercalate (listing.flatMap fun line => [[' ', '\t'], line]))) := by
  have ends : ['\n'] ∈ terminators := List.mem_cons_self
  have flats : listing.all (fun line => line.all fun char => !isLineEnd char) = true := by decide +kernel
  have flat : ∀ line ∈ listing, ∀ char ∈ line, isLineEnd char = false := fun line member char inside =>
    Bool.not_eq_true' .. |>.mp (List.all_eq_true.mp (List.all_eq_true.mp flats line member) char inside)
  have closes : listing.all (fun line => line.getLast? != some '\\') = true := by decide +kernel
  have closed : ∀ line ∈ listing, line.getLast? ≠ some '\\' := fun line member =>
    bne_iff_ne.mp (List.all_eq_true.mp closes line member)
  have padded := @padded_each [' ', '\t'] (List.all_eq_true.mp rfl) listing
  exact ⟨ends, flat, closed, fun _ => listing_unbroken, padded,
    blank_lines_skipped _ ends flat closed (fun _ => listing_unbroken) padded⟩

/-- With blank lines the list is the same, and its statement goes on after one. -/
example :
    (Template.ofSource { pretty := false, stopOnError := false }
        (['\n'].intercalate (listing.flatMap fun line => [[' ', '\t'], line]))).toOption.map (·.describe true) =
      some ("Block\n  Text \"<ul><li a=\\\"1\\\" b=\\\"2\\\">one</li>\"\n  Code (= x (+ 1 2))\n" ++
        "  Text \"<p>some\\ntext</p></ul>\"\n") := by
  decide +kernel

end HtmlTemplate.Relining
