import HtmlTemplate.Proofs.Reading.Basic

/-! A text that goes on with the mark after an element, against the same text without anything after it. Up to
the mark both look the same, and white space at the end leads to the mark. -/

namespace HtmlTemplate

namespace Input

theorem dropFrom_dropFrom {inner? class? : Char → Bool} (within : ∀ char, inner? char = true → class? char = true)
    (pos : Nat) (text : List Char) :
    dropFrom class? (dropFrom inner? pos text).pos (dropFrom inner? pos text).rest = dropFrom class? pos text := by
  induction text generalizing pos with
  | nil => rfl
  | cons char text step =>
    by_cases inside : inner? char = true
    · rw [dropFrom, if_pos inside, step, dropFrom, if_pos (within char inside)]
    · rw [dropFrom, if_neg inside]

theorem skipSpacing_skipSpacing (input : Input) : input.skipSpacing.skipSpacing = input.skipSpacing :=
  dropFrom_dropFrom (fun _ spacing => spacing) ..

theorem skipWhitespace_skipSpacing (input : Input) : input.skipSpacing.skipWhitespace = input.skipWhitespace :=
  dropFrom_dropFrom (fun _ spacing => by rw [CharClass.isWhitespace, spacing, Bool.true_or]) ..

theorem skipWhitespace_skipWhitespace (input : Input) : input.skipWhitespace.skipWhitespace = input.skipWhitespace :=
  dropFrom_dropFrom (fun _ blank => blank) ..

theorem rest_ne_nil_of_isClass {class? : Char → Bool} {input : Input} (found : input.isClass class? = true) :
    input.rest ≠ [] :=
  List.length_pos_iff.mp (size_pos_of_isClass found)

end Input

namespace Elements

open CharClass Reading

/-- What may stand right after an element in brackets. -/
def marks : List Char := [',', ']', ')']

def Marked (text : List Char) : Prop := ∃ mark more, text = mark :: more ∧ mark ∈ marks

/-- No mark is of the class. -/
def Inner (class? : Char → Bool) : Prop := ∀ mark ∈ marks, class? mark = false

instance (class? : Char → Bool) : Decidable (Inner class?) :=
  List.decidableBAll (fun mark => class? mark = false) marks

theorem Marked.ne_nil {tail : List Char} (marked : Marked tail) : tail ≠ [] := by
  obtain ⟨mark, more, rfl, -⟩ := marked
  exact List.cons_ne_nil _ _

/-- No mark is in the word. -/
def Unmarked (word : List Char) : Prop := ∀ mark ∈ marks, mark ∉ word

instance (word : List Char) : Decidable (Unmarked word) :=
  List.decidableBAll (fun mark => mark ∉ word) marks

/-- What may stand right after an expression: what may stand after an element, and what ends a statement. -/
def closers : List Char := marks ++ [';', '\n', '\r']

/-- No closer is of the class. -/
def Outer (class? : Char → Bool) : Prop := ∀ mark ∈ closers, class? mark = false

instance (class? : Char → Bool) : Decidable (Outer class?) :=
  List.decidableBAll (fun mark => class? mark = false) closers

/-- A text that begins with something that ends an expression, if it is not empty. -/
def Closes (tail : List Char) : Prop := ∀ char ∈ tail.head?, char ∈ closers

/-- No character of the word is a closer. -/
def Unclosed (word : List Char) : Prop := ∀ mark ∈ closers, mark ∉ word

instance (word : List Char) : Decidable (Unclosed word) :=
  List.decidableBAll (fun mark => mark ∉ word) closers

/-- A text does not begin with a character of the class. -/
def Apart (class? : Char → Bool) (tail : List Char) : Prop := ∀ char ∈ tail.head?, class? char = false

theorem Closes.apart {tail : List Char} (closes : Closes tail) {class? : Char → Bool} (outer : Outer class?) :
    Apart class? tail := fun char member => outer char (closes char member)

theorem Marked.closes {tail : List Char} (marked : Marked tail) : Closes tail := by
  obtain ⟨mark, more, rfl, member⟩ := marked
  rintro char ⟨⟩
  exact List.mem_append_left _ member

theorem Marked.apart {tail : List Char} (marked : Marked tail) {class? : Char → Bool} (inner : Inner class?) :
    Apart class? tail := by
  obtain ⟨mark, more, rfl, member⟩ := marked
  rintro char ⟨⟩
  exact inner mark member

theorem Closes.plain {tail : List Char} (closes : Closes tail) {word : List Char} (plain : Unclosed word) :
    ∀ char ∈ tail.head?, char ∉ word := fun char member => plain char (closes char member)

theorem Marked.plain {tail : List Char} (marked : Marked tail) {word : List Char} (plain : Unmarked word) :
    ∀ char ∈ tail.head?, char ∉ word := by
  obtain ⟨mark, more, rfl, member⟩ := marked
  rintro char ⟨⟩
  exact plain mark member

theorem Marked.visible {tail : List Char} (marked : Marked tail) : Visible tail := by
  have blank : Inner isWhitespace := by decide
  obtain ⟨mark, more, rfl, member⟩ := marked
  exact blank mark member

/-- One input goes on where the other one ends. -/
def Extends (tail : List Char) (first second : Input) : Prop := second.rest = first.rest ++ tail

namespace Extends

variable {tail : List Char} {first second : Input} (further : Extends tail first second)
include further

theorem isClass_begun (begun : first.rest ≠ []) (class? : Char → Bool) :
    second.isClass class? = first.isClass class? := by
  obtain ⟨char, text, eq⟩ := List.exists_cons_of_ne_nil begun
  have longer : second.rest = char :: (text ++ tail) := by rw [further, eq, List.cons_append]
  rw [isClass_eq eq, isClass_eq longer]

theorem advance (begun : first.rest ≠ []) : Extends tail first.advance second.advance := by
  rw [Extends, rest_advance, rest_advance, further, List.tail_append_of_ne_nil begun]

theorem advanceBy {count : Nat} (within : count ≤ first.size) :
    Extends tail (first.advanceBy count) (second.advanceBy count) := by
  rw [Extends, rest_advanceBy, rest_advanceBy, further, List.drop_append_of_le_length within]

/-- What starts with a word does so, too, if it goes on. -/
theorem eatWord_some {word : List Char} {next : Input} (eaten : first.eatWord? word = some next) :
    ∃ other, second.eatWord? word = some other ∧ Extends tail next other := by
  unfold Input.eatWord? at eaten ⊢
  split at eaten
  · rename_i starts
    cases eaten
    have longer : second.startsWith word = true := by
      have before : word <+: first.rest := List.isPrefixOf_iff_prefix.mp starts
      rw [Input.startsWith, List.isPrefixOf_iff_prefix, further]
      exact before.trans (List.prefix_append ..)
    exact ⟨_, if_pos longer, further.advanceBy (Input.length_le_of_startsWith starts)⟩
  · cases eaten

theorem isClass {class? : Char → Bool} (apart : Apart class? tail) : second.isClass class? = first.isClass class? := by
  by_cases begun : first.rest = []
  · have longer : second.rest = tail := by rw [further, begun, List.nil_append]
    rw [Input.isClass, Input.isClass, longer, begun]
    cases tail with
    | nil => rfl
    | cons char more => exact apart char rfl
  · exact further.isClass_begun begun class?

theorem isClassAt {class? : Char → Bool} (apart : Apart class? tail) {ahead : Nat} (within : ahead ≤ first.size) :
    second.isClassAt class? ahead = first.isClassAt class? ahead := by
  rw [isClassAt_eq, isClassAt_eq, further]
  rcases Nat.lt_or_eq_of_le within with inside | rfl
  · rw [List.getElem?_append_left inside]
  · rw [List.getElem?_append_right (Nat.le_refl _), Nat.sub_self, ← List.head?_eq_getElem?,
      List.getElem?_eq_none (Nat.le_refl _), Option.any_none]
    cases tail with
    | nil => rfl
    | cons char more => exact apart char rfl

theorem atEnd (marked : Marked tail) : second.atEnd = false := by
  obtain ⟨mark, more, rfl, -⟩ := marked
  rw [Input.atEnd, further]
  cases first.rest <;> rfl

theorem dropWhile {class? : Char → Bool} (apart : Apart class? tail) :
    Extends tail (first.dropWhile class?) (second.dropWhile class?) := by
  rw [Extends, Input.rest_dropWhile, Input.rest_dropWhile, further]
  induction first.rest with
  | nil => exact dropWhile_append (List.forall_mem_nil _) apart
  | cons char text step => by_cases inside : class? char = true <;> simp [inside, step]

theorem takeWhile {class? : Char → Bool} (apart : Apart class? tail) :
    second.takeWhile class? = first.takeWhile class? := by
  rw [Input.takeWhile, Input.takeWhile, further]
  induction first.rest with
  | nil => exact takeWhile_append (List.forall_mem_nil _) apart
  | cons char text step => by_cases inside : class? char = true <;> simp [inside, step]

theorem skipSpacing (closes : Closes tail) : Extends tail first.skipSpacing second.skipSpacing :=
  further.dropWhile (closes.apart (by decide))

variable {word : List Char} (plain : ∀ char ∈ tail.head?, char ∉ word)
include plain

theorem startsWith : second.startsWith word = first.startsWith word := by
  rw [Input.startsWith, Input.startsWith, further]
  generalize first.rest = text
  clear further
  induction word generalizing text with
  | nil => cases text <;> rfl
  | cons char word step =>
    have rest : ∀ char ∈ tail.head?, char ∉ word := fun _ member inside => plain _ member (List.mem_cons_of_mem _ inside)
    cases text with
    | nil =>
      cases tail with
      | nil => rfl
      | cons mark more =>
        have other : char ≠ mark := fun same => plain mark rfl (same ▸ List.mem_cons_self)
        simp [List.isPrefixOf, other]
    | cons next text => simp [List.isPrefixOf, step rest]

theorem eatWord : Option.Rel (Extends tail) (first.eatWord? word) (second.eatWord? word) := by
  unfold Input.eatWord?
  rw [further.startsWith plain]
  split
  · rename_i starts
    exact .some (further.advanceBy (Input.length_le_of_startsWith starts))
  · exact .none

end Extends

section

variable {tail : List Char} {first second : Input}

theorem Extends.eat (further : Extends tail first second) {char : Char} (apart : Apart (· == char) tail) :
    Option.Rel (Extends tail) (first.eat? char) (second.eat? char) := by
  unfold Input.eat? Input.isAt
  rw [further.isClass apart]
  split
  · rename_i found
    exact .some (further.advance (Input.rest_ne_nil_of_isClass found))
  · exact .none

theorem rel_or {α β : Type} {related : α → β → Prop} {one two : Option α} {other another : Option β}
    (first : Option.Rel related one other) (second : Option.Rel related two another) :
    Option.Rel related (one.or two) (other.or another) := by
  cases first with
  | none => exact second
  | some found => exact .some found

theorem Extends.blankLine (further : Extends tail first second) (marked : Marked tail) :
    Option.Rel (Extends tail) (Gap.blankLine? first) (Gap.blankLine? second) := by
  have line : Option.Rel (Extends tail) first.eatNewline? second.eatNewline? :=
    rel_or (further.eatWord (marked.plain (by decide)))
      (rel_or (further.eat (marked.apart (by decide))) (further.eat (marked.apart (by decide))))
  unfold Gap.blankLine?
  generalize first.eatNewline? = next at line
  generalize second.eatNewline? = follow at line
  cases line with
  | none => exact .none
  | some after =>
    have spaced : Extends tail _ _ := Extends.skipSpacing after marked.closes
    dsimp only
    rw [spaced.isClass (marked.apart (by decide))]
    split
    · exact .some spaced
    · exact .none

end

/-! Gaps. -/

theorem rest_skipSpacing_space {input : Input} {text : List Char} (space : input.rest = ' ' :: text) :
    input.skipSpacing.rest = input.advance.skipSpacing.rest := by
  rw [Input.skipSpacing, Input.skipSpacing, Input.rest_dropWhile, Input.rest_dropWhile, rest_advance, space]
  rfl

theorem isClass_dropWhile (class? : Char → Bool) (input : Input) :
    (input.dropWhile class?).isClass class? = false := by
  rw [Input.isClass, Input.rest_dropWhile]
  induction input.rest with
  | nil => rfl
  | cons char text step =>
    by_cases inside : class? char = true
    · rw [List.dropWhile_cons_of_pos inside]
      exact step
    · rw [List.dropWhile_cons_of_neg inside]
      exact Bool.eq_false_iff.mpr inside

theorem visible_of_isClass {input : Input} (begun : input.rest ≠ []) (spacing : input.isClass isSpacing = false)
    (lineEnd : input.isClass isLineEnd = false) : Visible input.rest := by
  obtain ⟨char, text, eq⟩ := List.exists_cons_of_ne_nil begun
  rw [isClass_eq eq] at spacing lineEnd
  rw [eq, Visible, isWhitespace, spacing, lineEnd, Bool.or_false]

theorem rest_ne_nil_of_atEnd {input : Input} (begun : (!input.atEnd) = true) : input.rest ≠ [] := by
  simpa [Input.atEnd] using begun

theorem visible_skipSpacing {input : Input} (begun : (!input.skipSpacing.atEnd) = true)
    (lineEnd : input.skipSpacing.isClass isLineEnd = false) : Visible input.skipSpacing.rest :=
  visible_of_isClass (rest_ne_nil_of_atEnd begun) (isClass_dropWhile isSpacing input) lineEnd

theorem visible_skipContinued (continuation : List Char) (complete : Bool) (lineEnd : Option Input) (input : Input)
    (goesOn : (Gap.skipContinued continuation complete lineEnd input).2 = true) :
    Visible (Gap.skipContinued continuation complete lineEnd input).1.rest := by
  fun_induction Gap.skipContinued continuation complete lineEnd input with
  | case1 _ _ _ _ _ _ _ step => exact step goesOn
  | case2 => cases goesOn
  | case3 => cases goesOn
  | case4 _ _ _ _ _ _ _ _ step => exact step goesOn
  | case5 lineEnd input spaced inside => exact visible_skipSpacing goesOn (Bool.eq_false_iff.mpr inside)

/-- Where an expression goes on after a gap, something is there. -/
theorem visible_skip {options : ParseOptions} {complete : Bool} {input : Input}
    (goesOn : (Gap.skip options complete input).2 = true) : Visible (Gap.skip options complete input).1.rest := by
  unfold Gap.skip at goesOn ⊢
  split at goesOn
  · rename_i whole
    rw [if_pos whole]
    exact visible_skipContinued _ complete none input goesOn
  · rename_i whole
    rw [if_neg whole]
    dsimp only at goesOn ⊢
    split at goesOn
    · cases goesOn
    · rename_i inside
      rw [if_neg inside]
      split at goesOn
      · rename_i line
        rw [if_pos line]
        rw [line, Bool.true_or, Bool.true_and] at inside
        exact visible_skipSpacing goesOn (Bool.eq_false_iff.mpr inside)
      · rename_i line
        rw [if_neg line]
        have blank : input.skipWhitespace.isClass isWhitespace = false := isClass_dropWhile isWhitespace input
        have begun := rest_ne_nil_of_atEnd goesOn
        obtain ⟨char, text, eq⟩ := List.exists_cons_of_ne_nil begun
        rw [isClass_eq eq] at blank
        rw [eq]
        exact blank

/-- Some white space may come first, and then the text. -/
structure Approaches (options : ParseOptions) (input : Input) (text : List Char) : Prop where
  rest : (Gap.skip options false input).1.rest = text
  goesOn : (Gap.skip options false input).2 = true

theorem approaches_visible (options : ParseOptions) {input : Input} {text : List Char} (visible : Visible text)
    (rest : input.rest = text) : Approaches options input text := by
  obtain ⟨left, goesOn⟩ := skip_visible options visible false (.inl rest)
  exact ⟨left, goesOn⟩

theorem Approaches.again {options : ParseOptions} {input : Input} {text : List Char}
    (approaches : Approaches options input text) : Approaches options (Gap.skip options false input).1 text := by
  obtain ⟨rest, goesOn⟩ := approaches
  exact approaches_visible options (rest ▸ visible_skip goesOn) rest

section

variable {tail : List Char} (marked : Marked tail)
include marked

theorem skipContinued_extends (continuation : List Char) (complete : Bool) (lineEnd : Option Input) (first : Input)
    (ends : ∀ stop ∈ lineEnd, stop.rest ≠ [])
    (passes : (Gap.skipContinued continuation complete lineEnd first).2 = true ∨
      (Gap.skipContinued continuation complete lineEnd first).1.rest = [])
    (other : Option Input) {second : Input} (further : Extends tail first.skipSpacing second.skipSpacing) :
    Extends tail (Gap.skipContinued continuation complete lineEnd first).1
        (Gap.skipContinued continuation false other second).1 ∧
      (Gap.skipContinued continuation false other second).2 = true := by
  have stops (lineEnd : Option Input) (spaced : Input) (ends : ∀ stop ∈ lineEnd, stop.rest ≠ [])
      (begun : spaced.rest ≠ []) : (lineEnd.getD spaced).rest ≠ [] := by
    cases lineEnd with
    | none => exact begun
    | some stop => exact ends stop rfl
  -- Going on at the end of a line is the only way past it that leaves nothing or goes on.
  fun_induction Gap.skipContinued continuation complete lineEnd first generalizing other second with
  | case1 lineEnd first spaced atEnd stop next found step =>
    have blank := further.blankLine marked
    rw [found] at blank
    generalize sought : Gap.blankLine? second.skipSpacing = result at blank
    cases blank with
    | some after =>
      have begun := stops lineEnd spaced ends (Input.rest_ne_nil_of_isClass atEnd)
      rw [skipContinued_eq continuation false, further.isClass (marked.apart (by decide)), if_pos atEnd, sought]
      exact step (by rintro _ ⟨⟩; exact begun) passes _ (Extends.skipSpacing after marked.closes)
  | case2 lineEnd first spaced atEnd stop found nonempty =>
    have begun := stops lineEnd spaced ends (Input.rest_ne_nil_of_isClass atEnd)
    rcases passes with passes | passes
    · cases passes
    · exact absurd passes begun
  | case3 lineEnd first spaced atEnd stop found nonempty eaten =>
    have begun := stops lineEnd spaced ends (Input.rest_ne_nil_of_isClass atEnd)
    rcases passes with passes | passes
    · cases passes
    · exact absurd passes begun
  | case4 lineEnd first spaced atEnd found nonempty next eaten step =>
    have blank := further.blankLine marked
    rw [found] at blank
    generalize sought : Gap.blankLine? second.skipSpacing = result at blank
    cases blank with
    | none =>
      obtain ⟨follow, again, after⟩ := further.eatWord_some eaten
      rw [not_or] at nonempty
      rw [skipContinued_eq continuation false, further.isClass (marked.apart (by decide)), if_pos atEnd, sought]
      simp only [Bool.false_eq_true, false_or, if_neg nonempty.2, again]
      exact step (by rintro _ ⟨⟩) passes _ (Extends.skipSpacing after marked.closes)
  | case5 lineEnd first spaced inside =>
    rw [skipContinued_eq continuation false, further.isClass (marked.apart (by decide)), if_neg inside]
    refine ⟨further, ?_⟩
    rw [further.atEnd marked]
    rfl

/-- A gap that is passed, or that nothing follows, is passed in the text that goes on. -/
theorem skip_extends (options : ParseOptions) (complete : Bool) {first second : Input}
    (further : Extends tail first.skipSpacing second.skipSpacing)
    (passes : (Gap.skip options complete first).2 = true ∨ (Gap.skip options complete first).1.rest = []) :
    Approaches options second ((Gap.skip options complete first).1.rest ++ tail) := by
  have blanks : Extends tail first.skipWhitespace second.skipWhitespace := by
    rw [← Input.skipWhitespace_skipSpacing first, ← Input.skipWhitespace_skipSpacing second]
    exact further.dropWhile (marked.apart (by decide))
  have lineEnd : second.skipSpacing.isClass isLineEnd = first.skipSpacing.isClass isLineEnd :=
    further.isClass (marked.apart (by decide))
  suffices same : Extends tail (Gap.skip options complete first).1 (Gap.skip options false second).1 ∧
      (Gap.skip options false second).2 = true from ⟨same.1, same.2⟩
  unfold Gap.skip at passes ⊢
  split
  · rename_i whole
    rw [if_pos whole] at passes
    exact skipContinued_extends marked _ complete none first (by rintro _ ⟨⟩) passes none further
  · rename_i whole
    rw [if_neg whole] at passes
    dsimp only at passes ⊢
    rw [lineEnd]
    split
    · rename_i inside
      rw [if_pos inside] at passes
      simp only [Bool.and_eq_true] at inside
      rcases passes with passes | passes
      · cases passes
      · exact absurd passes (Input.rest_ne_nil_of_isClass inside.2)
    · rename_i inside
      by_cases line : options.stops.line = true
      · simp only [line, Bool.true_or, Bool.true_and] at inside
        simp only [line, Bool.true_or, Bool.true_and, inside, if_true, further.atEnd marked]
        exact ⟨further, rfl⟩
      · simp only [line, Bool.false_or, Bool.false_and, Bool.false_eq_true, if_false, blanks.atEnd marked]
        exact ⟨blanks, rfl⟩

end

/-! Where an expression ends for good. -/

theorem skipContinued_complete (continuation : List Char) (lineEnd : Option Input) (input : Input) :
    (Gap.skipContinued continuation true lineEnd input).1 =
      if input.skipSpacing.isClass isLineEnd then lineEnd.getD input.skipSpacing else input.skipSpacing := by
  fun_induction Gap.skipContinued continuation true lineEnd input with
  | case1 lineEnd input spaced atEnd stop next found step =>
    have inside : next.skipSpacing.isClass isLineEnd = true := by
      unfold Gap.blankLine? at found
      split at found
      · cases found
      · split at found
        · rename_i blank
          cases found
          rw [Input.skipSpacing_skipSpacing]
          exact blank
        · cases found
    rw [step, if_pos inside, if_pos atEnd]
    rfl
  | case2 lineEnd input spaced atEnd stop => rw [if_pos atEnd]
  | case3 lineEnd input spaced atEnd stop found nonempty => exact absurd (.inl rfl) nonempty
  | case4 lineEnd input spaced atEnd found nonempty => exact absurd (.inl rfl) nonempty
  | case5 lineEnd input spaced inside => rw [if_neg inside]

/-- The gap after an expression, and what an expression that has to go on makes of it. -/
theorem skip_skip (options : ParseOptions) (input : Input) :
    Gap.skip options false (Gap.skip options true input).1 = Gap.skip options false input := by
  unfold Gap.skip
  split
  · have spaced : (Gap.skipContinued options.continuation true none input).1 = input.skipSpacing := by
      rw [skipContinued_complete]
      split <;> rfl
    rw [spaced, skipContinued_eq _ _ _ input.skipSpacing, skipContinued_eq _ _ _ input,
      Input.skipSpacing_skipSpacing]
  · by_cases line : options.stops.line = true
    · simp only [line, Bool.true_or, Bool.true_and, if_true]
      split
      · rename_i atEnd
        rw [Input.skipSpacing_skipSpacing, if_pos atEnd]
      · rename_i inside
        rw [Input.skipSpacing_skipSpacing, if_neg inside]
    · simp only [line, Bool.or_true, Bool.true_and, Bool.false_or, Bool.false_and, Bool.false_eq_true, if_false]
      split
      · rw [Input.skipWhitespace_skipSpacing]
      · rw [Input.skipWhitespace_skipWhitespace]

end Elements

end HtmlTemplate
