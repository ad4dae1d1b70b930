import HtmlTemplate.Proofs.Respelling.Statements

/-! Two texts of which the second has blank lines between the lines of the first, and perhaps more spacing at the
starts of these. Readers that do not count lines take one for the other. -/

namespace HtmlTemplate.Relining

open CharClass Code Respelling

variable {char : Char} {mark text other run extra gap : List Char}

/-! Line terminators. -/

/-- A line terminator before some text. No carriage return is one before a newline. -/
inductive Break : List Char → List Char → Prop where
  | newline (text : List Char) : Break ['\n'] text
  | paired (text : List Char) : Break ['\r', '\n'] text
  | carriage {text : List Char} (apart : text.head? ≠ some '\n') : Break ['\r'] text

namespace Break

theorem lineEnds (ends : Break mark text) : ∀ char ∈ mark, isLineEnd char = true := by
  cases ends with
  | newline => exact List.all_eq_true.mp rfl
  | paired => exact List.all_eq_true.mp rfl
  | carriage => exact List.all_eq_true.mp rfl

theorem cons (ends : Break mark text) : ∃ char rest, mark = char :: rest ∧ isLineEnd char = true := by
  cases ends with
  | newline => exact ⟨_, _, rfl, rfl⟩
  | paired => exact ⟨_, _, rfl, rfl⟩
  | carriage => exact ⟨_, _, rfl, rfl⟩

theorem afterBreak (ends : Break mark text) : afterBreak? (mark ++ text) = some text := by
  cases ends with
  | newline => rfl
  | paired => rfl
  | carriage apart =>
    refine afterBreak?_carriage ?_
    rintro more rfl
    exact apart rfl

/-- What a terminator stands before matters only to carriage returns. -/
theorem moved (ends : Break mark text) (apart : text.head? ≠ some '\n' → other.head? ≠ some '\n') :
    Break mark other := by
  cases ends with
  | newline => exact .newline _
  | paired => exact .paired _
  | carriage here => exact .carriage (apart here)

theorem of_head (ends : Break mark text) (same : other.head? = text.head?) : Break mark other :=
  ends.moved fun apart => same ▸ apart

/-- Spacing may stand after a terminator. -/
theorem before_spacing (ends : Break mark text) {spacing : List Char}
    (blank : ∀ char ∈ spacing, isSpacing char = true) : Break mark (spacing ++ text) := by
  refine ends.moved fun apart => ?_
  cases spacing with
  | nil => exact apart
  | cons char spacing =>
    intro newline
    have first := blank char List.mem_cons_self
    rw [Option.some.inj newline] at first
    cases first

/-- Another line of the same kind may stand after a terminator. -/
theorem before_mark (ends : Break mark text) (other : List Char) : Break mark (mark ++ other) := by
  cases ends with
  | newline => exact .newline _
  | paired => exact .paired _
  | carriage => exact .carriage fun newline => absurd (Option.some.inj newline) (by decide)

/-- Every text that a line ends at begins with a line terminator. -/
theorem of_isLineEnd (ends : isLineEnd char = true) (text : List Char) :
    ∃ mark more, char :: text = mark ++ more ∧ Break mark more := by
  rcases Bool.or_eq_true_iff.mp ends with same | same
  · rw [beq_iff_eq.mp same]
    exact ⟨['\n'], text, rfl, .newline text⟩
  · rw [beq_iff_eq.mp same]
    by_cases paired : text.head? = some '\n'
    · obtain ⟨more, rfl⟩ := List.head?_eq_some_iff.mp paired
      exact ⟨['\r', '\n'], more, rfl, .paired more⟩
    · exact ⟨['\r'], text, rfl, .carriage paired⟩

/-- A text begins with one line terminator. -/
theorem unique {twin : List Char} (ends : Break mark text) (others : Break twin other)
    (same : mark ++ text = twin ++ other) : twin = mark ∧ other = text := by
  have after := ends.afterBreak
  rw [same, others.afterBreak] at after
  obtain rfl := Option.some.inj after
  exact ⟨(List.append_cancel_right same).symm, rfl⟩

end Break

/-! Blank lines. -/

/-- Blank lines that end in the same terminator. -/
inductive Blanks (mark : List Char) : List Char → Prop where
  | nil : Blanks mark []
  | line {spacing gap : List Char} (blank : ∀ char ∈ spacing, isSpacing char = true) (rest : Blanks mark gap) :
      Blanks mark (spacing ++ (mark ++ gap))

namespace Blanks

theorem blanks (lines : Blanks mark gap) (ends : ∀ char ∈ mark, isLineEnd char = true) :
    ∀ char ∈ gap, isWhitespace char = true := by
  induction lines with
  | nil => exact List.forall_mem_nil _
  | line blank _ step =>
    refine List.forall_mem_append.mpr ⟨fun char member => ?_, List.forall_mem_append.mpr ⟨fun char member => ?_, step⟩⟩
    · rw [isWhitespace, blank char member, Bool.true_or]
    · rw [isWhitespace, ends char member, Bool.or_true]

/-- Blank lines may stand after the terminator that they end in. -/
theorem breaks (lines : Blanks mark gap) (ends : Break mark text) : Break mark (gap ++ text) := by
  cases lines with
  | nil => exact ends
  | line blank rest =>
    rw [List.append_assoc, List.append_assoc]
    exact (ends.before_mark _).before_spacing blank

end Blanks

/-! The two texts. -/

/-- The second text is the first one with blank lines before its lines, and with extra spacing at their starts. No
line ends in a backslash. -/
inductive Relined (extra : List Char) : List Char → List Char → Prop where
  | nil : Relined extra [] []
  | char {char : Char} {text other : List Char} (within : isLineEnd char = false)
      (escapes : char = '\\' → ∀ next ∈ text.head?, isLineEnd next = false) (rest : Relined extra text other) :
      Relined extra (char :: text) (char :: other)
  | line {mark gap text other : List Char} (ends : Break mark text) (blank : Blanks mark gap)
      (rest : Relined extra text other) : Relined extra (mark ++ text) (mark ++ (gap ++ (extra ++ other)))

namespace Relined

/-- Both texts begin with the same character. -/
theorem head?_eq (texts : Relined extra text other) : other.head? = text.head? := by
  cases texts with
  | nil => rfl
  | char => rfl
  | line ends =>
    obtain ⟨char, rest, rfl, -⟩ := ends.cons
    rfl

/-- Within a line the same character stands in both texts. -/
theorem uncons (within : isLineEnd char = false) (texts : Relined extra (char :: text) other) :
    ∃ rest, other = char :: rest ∧ Relined extra text rest ∧
      (char = '\\' → ∀ next ∈ text.head?, isLineEnd next = false) := by
  generalize whole : char :: text = source at texts
  cases texts with
  | nil => cases whole
  | char _ escapes rest =>
    obtain ⟨rfl, rfl⟩ := List.cons.inj whole
    exact ⟨_, rfl, rest, escapes⟩
  | line ends =>
    obtain ⟨mark, rest, rfl, lineEnd⟩ := ends.cons
    rw [← (List.cons.inj whole).1, within] at lineEnd
    cases lineEnd

/-- After the end of a line come blank lines and the extra spacing. -/
theorem after_break (ends : Break mark text) (texts : Relined extra (mark ++ text) other) :
    ∃ gap rest, other = mark ++ (gap ++ (extra ++ rest)) ∧ Blanks mark gap ∧ Relined extra text rest := by
  generalize whole : mark ++ text = source at texts
  cases texts with
  | nil =>
    obtain ⟨char, rest, rfl, -⟩ := ends.cons
    cases whole
  | char within =>
    obtain ⟨mark, rest, rfl, lineEnd⟩ := ends.cons
    rw [(List.cons.inj whole).1, within] at lineEnd
    cases lineEnd
  | line others blank rest =>
    obtain ⟨rfl, rfl⟩ := ends.unique others whole
    exact ⟨_, _, rfl, blank, rest⟩

theorem heads (texts : Relined extra text other) : Heads text other := by
  have same := texts.head?_eq
  cases text with
  | nil =>
    rw [List.head?_nil, List.head?_eq_none_iff] at same
    rw [same]
    exact .nil
  | cons char text =>
    obtain ⟨rest, rfl⟩ := List.head?_eq_some_iff.mp same
    exact .cons rfl

end Relined

/-- Extra spacing at the starts of lines. -/
structure Lining where
  extra : List Char
  spacing : ∀ char ∈ extra, isSpacing char = true

/-- Blank lines and extra spacing as a way to write texts anew. -/
def Lining.spelling (lining : Lining) : Spelling where
  shows := true
  keeps := False
  beside := Relined lining.extra
  inside := Relined lining.extra
  weaken := id
  heads := Relined.heads
  shown := False.elim
  same := False.elim
  visible := fun visible texts => by
    obtain ⟨rest, same, further, -⟩ := texts.uncons (isLineEnd_of_visible visible)
    exact ⟨rest, same, further⟩
  within := fun within texts => by
    obtain ⟨rest, same, further, -⟩ := texts.uncons within
    exact ⟨rest, same, further⟩
  escaped := fun {char _ _} texts => by
    obtain ⟨more, rfl, further, escapes⟩ := texts.uncons rfl
    obtain ⟨rest, rfl, beyond, -⟩ := further.uncons (escapes rfl char rfl)
    exact ⟨rest, rfl, beyond, fun _ => beyond⟩
  spacing := fun {char _ _} spacing texts => by
    obtain ⟨rest, rfl, further, -⟩ := texts.uncons (isLineEnd_of_isSpacing spacing)
    exact ⟨[char], rest, rfl, List.forall_mem_singleton.mpr spacing, .refl (List.cons_ne_nil _ _), further⟩
  lineEnd := fun ends texts => by
    obtain ⟨mark, more, whole, breaks⟩ := Break.of_isLineEnd ends _
    rw [whole] at texts
    obtain ⟨gap, rest, rfl, blank, further⟩ := texts.after_break breaks
    obtain ⟨first, run, rfl, -⟩ := breaks.cons
    have marks : ∀ char ∈ first :: run, isWhitespace char = true := fun char member => by
      rw [isWhitespace, breaks.lineEnds char member, Bool.or_true]
    have copies : ∀ char ∈ first :: run ++ (gap ++ lining.extra), isWhitespace char = true := by
      refine List.forall_mem_append.mpr ⟨marks, List.forall_mem_append.mpr ⟨blank.blanks breaks.lineEnds, ?_⟩⟩
      intro char member
      rw [isWhitespace, lining.spacing char member, Bool.true_or]
    refine ⟨run, more, _, rest, (List.cons.inj whole).2, ?_, fun char member => ?_, copies, further⟩
    · rw [List.append_assoc, List.append_assoc]
    · exact marks char (List.mem_cons_of_mem _ member)

/-! Places of the two texts. -/

/-- Two places at the starts of lines. -/
def Starting (lining : Lining) (first second : Input) : Prop :=
  ∃ other, second.rest = lining.extra ++ other ∧ Relined lining.extra first.rest other

variable {lining : Lining} {first second : Input}

/-- At the end of a line. -/
theorem lineEnd_beside (beside : Beside lining.spelling first second) (ends : first.isClass isLineEnd = true) :
    ∃ mark text gap other, first.rest = mark ++ text ∧ second.rest = mark ++ (gap ++ (lining.extra ++ other)) ∧
      Break mark text ∧ Blanks mark gap ∧ Relined lining.extra text other := by
  obtain ⟨char, text, rest, lineEnd⟩ := cons_of_isClass ends
  obtain ⟨mark, more, whole, breaks⟩ := Break.of_isLineEnd lineEnd text
  have texts : Relined lining.extra first.rest second.rest := beside
  rw [rest, whole] at texts
  obtain ⟨gap, other, others, blank, further⟩ := texts.after_break breaks
  exact ⟨mark, more, gap, other, rest.trans whole, others, breaks, blank, further⟩

theorem eatNewline_break {input : Input} (ends : Break mark text) (rest : input.rest = mark ++ text) :
    ∃ next, input.eatNewline? = some next ∧ next.rest = text := by
  have after := rest_eatNewline? input
  rw [rest, ends.afterBreak] at after
  exact Option.map_eq_some_iff.mp after

theorem isClass_break {input : Input} (ends : Break mark text) (rest : input.rest = mark ++ text) :
    input.isClass isLineEnd = true := by
  obtain ⟨char, more, rfl, lineEnd⟩ := ends.cons
  rw [Reading.isClass_eq rest]
  exact lineEnd

theorem rest_skipSpacing_break {input : Input} {spacing : List Char} (blank : ∀ char ∈ spacing, isSpacing char = true)
    (ends : Break mark text) (rest : input.rest = spacing ++ (mark ++ text)) :
    input.skipSpacing.rest = mark ++ text := by
  obtain ⟨char, more, rfl, lineEnd⟩ := ends.cons
  have outside : isSpacing char = false := Bool.eq_false_iff.mpr fun spacing =>
    Bool.false_ne_true ((isLineEnd_of_isSpacing spacing).symm.trans lineEnd)
  rw [Input.skipSpacing, Input.rest_dropWhile, rest, List.dropWhile_append_of_pos blank, List.cons_append,
    List.dropWhile_cons_of_neg (by rw [outside]; decide)]

/-- Before the start of a line stands only spacing more in the second text. -/
theorem Starting.skipSpacing (starting : Starting lining first second) :
    Beside lining.spelling first.skipSpacing second.skipSpacing := by
  obtain ⟨other, rest, texts⟩ := starting
  have skips : Skips isSpacing := ⟨rfl, rfl, rfl⟩
  have skipped := lining.spelling.dropWhile skips texts
  unfold Beside
  rw [Input.skipSpacing, Input.skipSpacing, Input.rest_dropWhile, Input.rest_dropWhile, rest,
    List.dropWhile_append_of_pos lining.spacing]
  exact skipped

end HtmlTemplate.Relining
