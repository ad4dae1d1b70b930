import Mathlib.Data.List.DropRight
import HtmlTemplate.Proofs.Respelling.Parts
import HtmlTemplate.Token.Code

/-! Statements in two texts that differ in blanks, and what the readers of blocks of them do: where the next line
is, what it starts with, and what its lines have to start with to go on. -/

namespace HtmlTemplate.Respelling

open CharClass Code

/-! The last line of a text. -/

section

variable {text run : List Char}

/-- What stands after the last line end of a text. -/
def lastLine (text : List Char) : List Char := text.rtakeWhile fun char => !isLineEnd char

/-- Nothing, or something that ends in a line end. -/
inductive Closed : List Char → Prop where
  | nil : Closed []
  | line (front : List Char) {char : Char} (ends : isLineEnd char = true) : Closed (front ++ [char])

theorem lastLine_of_closed (closed : Closed run) (flat : ∀ char ∈ text, isLineEnd char = false) :
    lastLine (run ++ text) = text := by
  have inside : ∀ char ∈ text.reverse, (!isLineEnd char) = true := fun char member => by
    rw [flat char (List.mem_reverse.mp member)]
    rfl
  unfold lastLine List.rtakeWhile
  rw [List.reverse_append, List.takeWhile_append_of_pos inside]
  cases closed with
  | nil => rw [List.reverse_nil, List.takeWhile_nil, List.append_nil, List.reverse_reverse]
  | line front ends =>
    rw [List.reverse_concat, List.takeWhile_cons_of_neg (by rw [ends]; decide), List.append_nil,
      List.reverse_reverse]

theorem lastLine_split (text : List Char) : ∃ before, text = before ++ lastLine text ∧ Closed before ∧
    ∀ char ∈ lastLine text, isLineEnd char = false := by
  induction text using List.reverseRecOn with
  | nil => exact ⟨[], rfl, .nil, nofun⟩
  | append_singleton text char step =>
    cases ends : isLineEnd char with
    | true =>
      have none : lastLine (text ++ [char]) = [] := List.rtakeWhile_concat_neg _ _ _ (by rw [ends]; decide)
      rw [none]
      exact ⟨text ++ [char], (List.append_nil _).symm, .line text ends, nofun⟩
    | false =>
      have more : lastLine (text ++ [char]) = lastLine text ++ [char] :=
        List.rtakeWhile_concat_pos _ _ _ (by rw [ends]; rfl)
      obtain ⟨before, whole, closed, flat⟩ := step
      rw [more]
      refine ⟨before, ?_, closed, List.forall_mem_append.mpr ⟨flat, List.forall_mem_singleton.mpr ends⟩⟩
      rw [← List.append_assoc, ← whole]

end

/-! Statements. -/

variable {spelling : Spelling}

theorem statements_reads {options others : ParseOptions} (abreast : Abreast spelling options others)
    (place : ExprPlace) {first second : Input} (beside : Beside spelling first second) :
    Lexes (Meets spelling (List.Forall₂ (Akin spelling))) (readStatements options place first)
      (readStatements others place second) := by
  have spaced := beside.skipSpacing
  rw [readStatements, readStatements, spaced.atLineEnd]
  split
  · exact .ok ⟨spaced, .nil⟩
  · refine .bind (embedded_reads abreast place spaced) fun x y echo => ?_
    have after := echo.leads.beside
    have statement : Akin spelling (x.value.token .code) (y.value.token .code) := echo.token rfl
    by_cases again : x.rest.isAt ';' = true
    · have shorter : x.rest.advance.size < first.size := by
        have := (Input.passes_advance_of_isClass again).2
        have := x.le
        have := Input.size_skipSpacing_le first
        omega
      rw [dif_pos again, dif_pos ((after.isAt rfl).trans again)]
      exact .bind (statements_reads abreast place (after.advance_isAt again rfl)) fun z w more =>
        .ok ⟨more.beside, .cons statement more.values⟩
    · rw [dif_neg again, dif_neg (by rw [after.isAt rfl]; exact again), after.atLineEnd]
      split
      · exact .ok ⟨after, .cons statement .nil⟩
      · exact .error rfl
termination_by first.size
decreasing_by all_goals omega

/-! The next line. -/

theorem nextLine_eq (input : Input) : nextLine? input = input.eatNewline?.bind fun start =>
    if start.skipSpacing.atEnd then none
    else if start.skipSpacing.isClass isLineEnd then nextLine? start.skipSpacing
    else some start := by
  rw [nextLine?]
  split
  · rename_i none
    rw [none]
    rfl
  · rename_i start eaten
    rw [eaten]
    rfl

/-- A text that ends in a line end. -/
def Ends (text : List Char) : Prop := ∃ front char, text = front ++ [char] ∧ isLineEnd char = true

theorem Ends.append {text : List Char} (ends : Ends text) (before : List Char) : Ends (before ++ text) := by
  obtain ⟨front, char, rfl, ends⟩ := ends
  exact ⟨before ++ front, char, (List.append_assoc ..).symm, ends⟩

theorem Ends.ne_nil {text : List Char} (ends : Ends text) : text ≠ [] := by
  obtain ⟨front, char, rfl, -⟩ := ends
  exact List.append_ne_nil_of_right_ne_nil _ (List.cons_ne_nil _ _)

theorem Ends.of_append {run text : List Char} (ends : Ends (run ++ text)) (filled : text ≠ []) : Ends text := by
  obtain ⟨front, char, whole, lineEnd⟩ := ends
  rcases List.eq_nil_or_concat' text with rfl | ⟨before, last, rfl⟩
  · exact absurd rfl filled
  · rw [← List.append_assoc] at whole
    obtain ⟨-, same⟩ := List.append_inj' whole rfl
    exact ⟨before, last, rfl, List.singleton_inj.mp same ▸ lineEnd⟩

theorem Ends.tail {char : Char} {text : List Char} (ends : Ends (char :: text)) (within : isLineEnd char = false) :
    Ends text := by
  refine @Ends.of_append [char] _ ends ?_
  rintro rfl
  obtain ⟨front, last, whole, lineEnd⟩ := ends
  have same : char = last := by
    have both := congrArg List.getLast? whole
    rwa [List.getLast?_concat, List.getLast?_singleton, Option.some_inj] at both
  rw [← same, within] at lineEnd
  cases lineEnd

theorem eatNewline_ends {input start : Input} (eaten : input.eatNewline? = some start) :
    ∃ breaks, input.rest = breaks ++ start.rest ∧ Ends breaks := by
  have after := rest_eatNewline? input
  rw [eaten, Option.map_some] at after
  generalize input.rest = text at after
  unfold afterBreak? at after
  split at after
  · exact ⟨['\r', '\n'], by rw [Option.some.inj after]; rfl, ['\r'], '\n', rfl, rfl⟩
  · exact ⟨['\n'], by rw [Option.some.inj after]; rfl, [], '\n', rfl, rfl⟩
  · exact ⟨['\r'], by rw [Option.some.inj after]; rfl, [], '\r', rfl, rfl⟩
  · cases after

/-- What comes before the next line ends in a line end. -/
theorem nextLine_ends {input start : Input} (found : nextLine? input = some start) :
    Ends (input.textTo start.pos) := by
  obtain ⟨read, rest, ends⟩ : ∃ read, input.rest = read ++ start.rest ∧ Ends read := by
    fun_induction nextLine? input with
    | case1 => cases found
    | case2 => cases found
    | case3 input next eaten more blank step =>
      obtain ⟨breaks, rest, -⟩ := eatNewline_ends eaten
      obtain ⟨read, further, ends⟩ := step found
      obtain ⟨spacing, spaced, -⟩ := Input.reaches_skipSpacing next
      refine ⟨(breaks ++ spacing) ++ read, ?_, ends.append _⟩
      rw [rest, spaced, further, List.append_assoc, List.append_assoc]
    | case4 input next eaten =>
      cases found
      exact eatNewline_ends eaten
  rwa [Input.textTo_of_reaches rest (passes_of_nextLine? found).1]

/-! Line terminators at the ends of texts. -/

theorem lastLineBreak_carriage (front : List Char) : lastLineBreak (front ++ ['\r']) = ['\r'] := by
  unfold lastLineBreak
  rw [List.reverse_concat]
  rfl

theorem lastLineBreak_paired (front : List Char) :
    lastLineBreak (front ++ ['\r'] ++ ['\n']) = ['\r', '\n'] := by
  unfold lastLineBreak
  rw [List.reverse_concat, List.reverse_concat]
  rfl

theorem lastLineBreak_newline {front : List Char} (apart : ∀ more, front ≠ more ++ ['\r']) :
    lastLineBreak (front ++ ['\n']) = ['\n'] := by
  unfold lastLineBreak
  rw [List.reverse_concat]
  split
  · rename_i same
    have last := (List.cons.inj same).2
    rw [List.reverse_eq_cons_iff] at last
    exact absurd last (apart _)
  · rename_i same
    cases (List.cons.inj same).1
  · rfl

/-- What a text ends in is a line terminator. -/
theorem lastLineBreak_cases (text : List Char) : ∃ char rest, lastLineBreak text = char :: rest ∧
    ∀ mark ∈ char :: rest, isLineEnd mark = true := by
  unfold lastLineBreak
  split
  · exact ⟨'\r', ['\n'], rfl, List.all_eq_true.mp rfl⟩
  · exact ⟨'\r', [], rfl, List.all_eq_true.mp rfl⟩
  · exact ⟨'\n', [], rfl, List.all_eq_true.mp rfl⟩

/-- Spacing and line terminators are not quoted. -/
theorem plain_of_blanks {text : List Char} (blanks : ∀ blank ∈ text, isWhitespace blank = true) : Plain text :=
  fun blank member => unquoted rfl rfl (blanks blank member)

/-! Blocks. -/

theorem isDeeper_iff (outer indent : List Char) :
    isDeeper outer indent = true ↔ outer <+: indent ∧ ¬ indent <+: outer := by
  rw [isDeeper, Bool.and_eq_true, decide_eq_true_iff, List.isPrefixOf_iff_prefix, and_comm]
  refine and_congr_right fun starts => ⟨fun shorter back => ?_, fun apart => ?_⟩
  · exact Nat.not_le.mpr shorter back.length_le
  · refine Nat.lt_of_le_of_ne starts.length_le fun same => apart ?_
    exact starts.eq_of_length same ▸ List.prefix_rfl

theorem isSpacing_of_mem_takeWhile {text : List Char} : ∀ char ∈ text.takeWhile isSpacing, isSpacing char = true :=
  fun char member => List.all_eq_true.mp List.all_takeWhile char member

section

variable {input start : Input} (outer : List Char) (indent : Option (List Char))

theorem readBlock_ended (ended : nextLine? input = none) :
    readBlock outer indent input = .ok (.here input []) := by
  rw [readBlock]
  split
  · rfl
  · rename_i found
    cases ended.symm.trans found

/-- One more line of a block, or its end. -/
theorem readBlock_line (found : nextLine? input = some start) :
    ∃ reached : ∀ line : Parsed (List Token) (start.advanceBy (indent.getD (start.takeWhile isSpacing)).length),
        input.Passes line.rest,
      readBlock outer indent input =
        if (indent.getD (start.takeWhile isSpacing)).isPrefixOf (start.takeWhile isSpacing) &&
            isDeeper outer (indent.getD (start.takeWhile isSpacing)) then
          readStatements
              (.continuedBy (lastLineBreak (input.textTo start.pos) ++ indent.getD (start.takeWhile isSpacing)))
              .codeBlock (start.advanceBy (indent.getD (start.takeWhile isSpacing)).length) >>= fun line =>
            (readBlock outer (some (indent.getD (start.takeWhile isSpacing))) line.rest).map fun more =>
              (more.map (line.value ++ ·)).widen (reached line).1
        else .ok (.here input []) := by
  refine ⟨fun line => (passes_of_nextLine? found).of_reaches ((Input.reaches_advanceBy ..).trans line.reached), ?_⟩
  rw [readBlock]
  split
  · rename_i none
    cases found.symm.trans none
  · rename_i other same
    cases found.symm.trans same
    refine if_congr Iff.rfl (congrArg _ (funext fun line => ?_)) rfl
    cases readBlock outer (some (indent.getD (start.takeWhile isSpacing))) line.rest <;> rfl

end

/-! Lines that begin alike. -/

/-- What lines start with that continue an expression, in both texts. -/
structure Continued (spelling : Spelling) (continuation continued : List Char) : Prop where
  nil_iff : continued = [] ↔ continuation = []
  plain : Plain continuation
  same : spelling.keeps → continued = continuation
  /-- A line goes on in one text if it does in the other. -/
  eatWord {first second : Input} : Beside spelling first second →
    Option.Rel (Beside spelling) (first.eatWord? continuation) (second.eatWord? continued)

/-- How texts correspond from the starts of lines on, where lines begin at the same places in both. -/
structure Margins (spelling : Spelling) where
  starting : List Char → List Char → Prop
  beside {text other : List Char} : starting text other → spelling.beside text other
  after {text other : List Char} : spelling.beside text other →
    Option.Rel starting (afterBreak? text) (afterBreak? other)
  taken {text other : List Char} : starting text other →
    starting (text.takeWhile isSpacing) (other.takeWhile isSpacing)
  begins {word copy text other : List Char} : starting word copy → starting text other →
    (copy <+: other ↔ word <+: text) ∧
      (word <+: text → spelling.beside (text.drop word.length) (other.drop copy.length))
  continued {first second start stop : Input} {indent copy : List Char} : Beside spelling first second →
    first.Reaches start → second.Reaches stop → starting start.rest stop.rest → Ends (first.textTo start.pos) →
    Plain indent → starting indent copy → Continued spelling (lastLineBreak (first.textTo start.pos) ++ indent)
      (lastLineBreak (second.textTo stop.pos) ++ copy)

section

variable (margins : Margins spelling) {first second : Input}

/-- Two places at the starts of lines. -/
def Margins.Starts (first second : Input) : Prop := margins.starting first.rest second.rest

variable {margins}

theorem Margins.Starts.beside (starts : margins.Starts first second) : Beside spelling first second :=
  margins.beside starts

theorem eatNewline_starts (beside : Beside spelling first second) :
    Option.Rel margins.Starts first.eatNewline? second.eatNewline? := by
  have after := margins.after beside
  rw [← rest_eatNewline?, ← rest_eatNewline?] at after
  generalize first.eatNewline? = next at after
  generalize second.eatNewline? = follow at after
  cases next with
  | none =>
    cases follow with
    | none => exact .none
    | some => cases after
  | some =>
    cases follow with
    | none => cases after
    | some =>
      cases after with
      | some starts => exact .some starts

theorem nextLine_starts {first second : Input} (beside : Beside spelling first second) :
    Option.Rel margins.Starts (nextLine? first) (nextLine? second) := by
  have after := @eatNewline_starts _ margins _ _ beside
  rw [nextLine_eq first, nextLine_eq second]
  cases eaten : first.eatNewline? with
  | none =>
    rw [eaten] at after
    generalize second.eatNewline? = other at after
    cases after
    exact .none
  | some start =>
    rw [eaten] at after
    generalize second.eatNewline? = other at after
    cases after with
    | @some _ other starts =>
      have spaced := starts.beside.skipSpacing
      change Option.Rel _ (if start.skipSpacing.atEnd then _ else _) (if other.skipSpacing.atEnd then _ else _)
      rw [spaced.atEnd, spaced.isClass ⟨rfl, rfl⟩]
      split
      · exact .none
      · split
        · have := (Input.passes_of_eatNewline? eaten).2
          have := Input.size_skipSpacing_le start
          exact nextLine_starts spaced
        · exact .some starts
termination_by first.size
decreasing_by all_goals omega

variable (margins)
include margins

theorem blankLine_beside (beside : Beside spelling first second) :
    Option.Rel (Beside spelling) (Gap.blankLine? first) (Gap.blankLine? second) := by
  have after := @eatNewline_starts _ margins _ _ beside
  unfold Gap.blankLine?
  generalize first.eatNewline? = next at after
  generalize second.eatNewline? = follow at after
  cases after with
  | none => exact .none
  | some starts =>
    have spaced : Beside spelling _ _ := starts.beside.skipSpacing
    dsimp only
    rw [spaced.isClass ⟨rfl, rfl⟩]
    split
    · exact .some spaced
    · exact .none

/-- A statement goes on in both texts or in neither. -/
theorem skipContinued_pauses {continuation continued : List Char}
    (continues : Continued spelling continuation continued) (complete : Bool) {lineEnd other : Option Input}
    {first second : Input} (stop : Beside spelling (lineEnd.getD first.skipSpacing) (other.getD second.skipSpacing))
    (beside : Beside spelling first second) :
    Pauses spelling (Gap.skipContinued continuation complete lineEnd first)
      (Gap.skipContinued continued complete other second) := by
  have spaced := beside.skipSpacing
  have blank := blankLine_beside margins spaced
  have word := continues.eatWord spaced
  rw [Reading.skipContinued_eq continuation, Reading.skipContinued_eq continued, spaced.isClass ⟨rfl, rfl⟩]
  simp only [continues.nil_iff]
  split
  · cases found : Gap.blankLine? first.skipSpacing with
    | some next =>
      rw [found] at blank
      generalize Gap.blankLine? second.skipSpacing = after at blank
      cases blank with
      | some later => exact skipContinued_pauses continues complete stop later
    | none =>
      rw [found] at blank
      generalize Gap.blankLine? second.skipSpacing = after at blank
      cases blank with
      | none =>
        dsimp only
        split
        · exact ⟨stop, rfl⟩
        · cases eaten : first.skipSpacing.eatWord? continuation with
          | none =>
            rw [eaten] at word
            generalize second.skipSpacing.eatWord? continued = after at word
            cases word with
            | none => exact ⟨stop, rfl⟩
          | some next =>
            rw [eaten] at word
            generalize second.skipSpacing.eatWord? continued = after at word
            cases word with
            | some later => exact skipContinued_pauses continues complete later.skipSpacing later
  · exact ⟨spaced, by rw [spaced.atEnd]⟩
termination_by first.size
decreasing_by
  · have := Input.size_of_eatWord? eaten
    have := Input.size_skipSpacing_le first
    have : continuation.length ≠ 0 := by simp_all
    omega
  · have := (Gap.passes_of_blankLine? found).2
    have := Input.size_skipSpacing_le first
    omega

/-- Statements in the lines of a block. -/
theorem Continued.abreast {continuation continued : List Char}
    (continues : Continued spelling continuation continued) :
    Abreast spelling (.continuedBy continuation) (.continuedBy continued) :=
  ⟨rfl, rfl, continues.plain, fun keeps => congrArg ParseOptions.continuedBy (continues.same keeps),
    fun _ complete _ _ beside =>
      @skipContinued_pauses _ margins _ _ continues complete none none _ _ beside.skipSpacing beside⟩

/-- Both texts have blocks with the same lines. -/
theorem block_reads {outer copy : List Char} {indent spelled : Option (List Char)} {first second : Input}
    (outside : margins.starting outer copy) (inside : Option.Rel margins.starting indent spelled)
    (plain : ∀ block ∈ indent, Plain block) (beside : Beside spelling first second) :
    Lexes (Meets spelling (List.Forall₂ (Akin spelling))) (readBlock outer indent first)
      (readBlock copy spelled second) := by
  have lines := @nextLine_starts _ margins _ _ beside
  cases found : nextLine? first with
  | none =>
    rw [found] at lines
    generalize ended : nextLine? second = next at lines
    cases lines
    rw [readBlock_ended outer indent found, readBlock_ended copy spelled ended]
    exact .ok ⟨beside, .nil⟩
  | some start =>
    rw [found] at lines
    generalize follows : nextLine? second = next at lines
    cases lines with
    | @some _ final starts =>
      have spacing : margins.starting (start.takeWhile isSpacing) (final.takeWhile isSpacing) := margins.taken starts
      have block : margins.starting (indent.getD (start.takeWhile isSpacing))
          (spelled.getD (final.takeWhile isSpacing)) := by
        cases inside with
        | none => exact spacing
        | some inside => exact inside
      have unquoted : Plain (indent.getD (start.takeWhile isSpacing)) := by
        cases indent with
        | none => exact fun char member => unquoted rfl rfl (isSpacing_of_mem_takeWhile char member)
        | some _ => exact plain _ rfl
      obtain ⟨reached, one⟩ := readBlock_line outer indent found
      obtain ⟨arrived, two⟩ := readBlock_line copy spelled follows
      have continues := margins.continued beside (passes_of_nextLine? found).1 (passes_of_nextLine? follows).1 starts
        (nextLine_ends found) unquoted block
      have goesOn := margins.begins block starts
      have fits : (spelled.getD (final.takeWhile isSpacing)).isPrefixOf (final.takeWhile isSpacing) =
          (indent.getD (start.takeWhile isSpacing)).isPrefixOf (start.takeWhile isSpacing) := by
        rw [Bool.eq_iff_iff, List.isPrefixOf_iff_prefix, List.isPrefixOf_iff_prefix, (margins.begins block spacing).1]
      have deeper : isDeeper copy (spelled.getD (final.takeWhile isSpacing)) =
          isDeeper outer (indent.getD (start.takeWhile isSpacing)) := by
        rw [Bool.eq_iff_iff, isDeeper_iff, isDeeper_iff, (margins.begins outside block).1,
          (margins.begins block outside).1]
      rw [one, two, fits, deeper]
      generalize indent.getD (start.takeWhile isSpacing) = words at *
      generalize spelled.getD (final.takeWhile isSpacing) = others at *
      split
      · rename_i fits
        have front : words <+: start.rest := by
          have front := List.isPrefixOf_iff_prefix.mp (Bool.and_eq_true_iff.mp fits).1
          exact front.trans (List.takeWhile_prefix _)
        have after : Beside spelling (start.advanceBy words.length) (final.advanceBy others.length) := by
          have further := goesOn.2 front
          rwa [← Reading.rest_advanceBy, ← Reading.rest_advanceBy] at further
        refine .bind (statements_reads (continues.abreast margins) .codeBlock after) fun x y line => ?_
        have shorter := (reached x).2
        refine .map (block_reads outside (.some block) (fun _ same => ?_) line.beside) fun z w more => ?_
        · cases same
          exact unquoted
        · exact ⟨more.beside, List.rel_append line.values more.values⟩
      · exact .ok ⟨beside, .nil⟩
termination_by first.size
decreasing_by all_goals omega

end

end HtmlTemplate.Respelling
