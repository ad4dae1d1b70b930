import HtmlTemplate.Proofs.Offsets.Templates
import HtmlTemplate.Proofs.Relining.Texts

/-! The lines that are read and the lines that are reported. Lines are read up to a carriage return and a newline,
or either alone, and reported by their newlines. So a fault is reported on the line that it was read on if no
carriage return before it stands alone, and on an earlier one otherwise. -/

namespace HtmlTemplate

namespace Input

/-- Where the next line starts when lines are read: after the rest of the line and one line terminator. -/
def followingLine? (input : Input) : Option Input := input.skipRestOfLine.eatNewline?

theorem passes_of_followingLine? {input next : Input} (found : input.followingLine? = some next) :
    input.Passes next := by
  have passes := passes_of_eatNewline? found
  exact ⟨(reaches_skipRestOfLine input).trans passes.1, Nat.lt_of_lt_of_le passes.2 (size_skipRestOfLine_le input)⟩

/-- The line that a byte offset is on when lines are read: the number of line terminators that have been read
before the offset, and the start of the line. -/
def lineHolding (offset terminators : Nat) (start : Input) : Nat × Input :=
  match found : start.followingLine? with
  | none => (terminators, start)
  | some next =>
    if next.pos ≤ offset then lineHolding offset (terminators + 1) next else (terminators, start)
termination_by start.size
decreasing_by exact (passes_of_followingLine? found).2

end Input

/-- The place of a byte offset, by the lines that are read. -/
def Location.asRead (source : List Char) (offset : Nat) : Location :=
  let (terminators, start) := Input.lineHolding offset 0 (.ofText source)
  { line := terminators + 1, column := (start.textTo offset).length + 1,
    lineText := String.ofList (start.takeWhile fun char => !CharClass.isLineEnd char) }

/-- The carriage returns of a text before another one that no newline follows. -/
def loneReturns : List Char → List Char → Nat
  | [], _ => 0
  | char :: text, after =>
    loneReturns text after + if char = '\r' ∧ (text ++ after).head? ≠ some '\n' then 1 else 0

namespace Reporting

open CharClass Relining Respelling

variable {before after : List Char}

/-! Line terminators. -/

theorem loneReturns_append (first second after : List Char) :
    loneReturns (first ++ second) after = loneReturns first (second ++ after) + loneReturns second after := by
  induction first with
  | nil => simp [loneReturns]
  | cons char first step =>
    simp only [List.cons_append, loneReturns, step, List.append_assoc]
    omega

/-- The line terminators of a text before another one. -/
def terminators (before after : List Char) : Nat := before.count '\n' + loneReturns before after

theorem terminators_append (first second after : List Char) :
    terminators (first ++ second) after = terminators first (second ++ after) + terminators second after := by
  simp only [terminators, loneReturns_append, List.count_append]
  omega

theorem terminators_line {line : List Char} (inside : ∀ char ∈ line, isLineEnd char = false) (after : List Char) :
    terminators line after = 0 := by
  induction line with
  | nil => rfl
  | cons char line step =>
    obtain ⟨first, rest⟩ := List.forall_mem_cons.mp inside
    simp only [isLineEnd, Bool.or_eq_false_iff, beq_eq_false_iff_ne] at first
    have none := step rest
    simp only [terminators, loneReturns, List.count_cons, beq_iff_eq, first.1, first.2, false_and, if_false,
      Nat.add_zero] at none ⊢
    exact none

theorem terminators_break {mark text : List Char} (ends : Break mark text) : terminators mark text = 1 := by
  cases ends with
  | newline => rfl
  | paired => rfl
  | carriage apart =>
    simp only [terminators, loneReturns, List.nil_append, apart, ne_eq, not_false_eq_true, and_self, if_true]
    rfl

/-- Before its end there is no whole terminator. -/
theorem terminators_begun {mark text first rest : List Char} (ends : Break mark text) (cut : mark = first ++ rest)
    (left : rest ≠ []) : terminators first (rest ++ text) = 0 := by
  cases first with
  | nil => rfl
  | cons char first =>
    cases ends with
    | paired =>
      obtain ⟨rfl, tail⟩ := List.cons.inj cut
      cases first with
      | nil =>
        obtain rfl : rest = ['\n'] := tail.symm
        rfl
      | cons other first => exact absurd (List.append_eq_nil_iff.mp (List.cons.inj tail).2.symm).2 left
    | newline => exact absurd (List.append_eq_nil_iff.mp (List.cons.inj cut).2.symm).2 left
    | carriage => exact absurd (List.append_eq_nil_iff.mp (List.cons.inj cut).2.symm).2 left

/-! Lines as they are read. -/

theorem followingLine_cases (input : Input) :
    (input.followingLine? = none ∧ ∀ char ∈ input.rest, isLineEnd char = false) ∨
    ∃ line mark next, input.followingLine? = some next ∧ input.rest = line ++ (mark ++ next.rest) ∧
      next.pos = input.pos + byteLength (line ++ mark) ∧ (∀ char ∈ line, isLineEnd char = false) ∧
      Break mark next.rest := by
  obtain ⟨line, lineRest, linePos⟩ := Input.reaches_skipRestOfLine input
  have ended : input.skipRestOfLine.rest = input.rest.dropWhile (!isLineEnd ·) := Input.rest_dropWhile ..
  have inside : ∀ char ∈ line, isLineEnd char = false := by
    have whole := List.takeWhile_append_dropWhile (p := (!isLineEnd ·)) (l := input.rest)
    rw [← ended] at whole
    intro char member
    have taken := List.mem_takeWhile_imp (List.append_cancel_right (whole.trans lineRest) ▸ member)
    rwa [Bool.not_eq_true'] at taken
  have after := rest_eatNewline? input.skipRestOfLine
  cases left : input.skipRestOfLine.rest with
  | nil =>
    rw [left] at after lineRest
    refine .inl ⟨Option.map_eq_none_iff.mp after, ?_⟩
    rwa [lineRest, List.append_nil]
  | cons char more =>
    have lineEnd : isLineEnd char = true := by
      have stops := List.head?_dropWhile_not (!isLineEnd ·) input.rest
      rw [← ended, left] at stops
      exact by simpa using stops
    obtain ⟨mark, text, same, ends⟩ := Break.of_isLineEnd lineEnd more
    obtain ⟨next, eaten, rest⟩ := eatNewline_break ends (left.trans same)
    obtain ⟨read, readRest, readPos⟩ := (Input.passes_of_eatNewline? eaten).1
    obtain rfl := rest
    obtain rfl : read = mark := List.append_cancel_right (readRest.symm.trans (left.trans same))
    refine .inr ⟨line, read, next, eaten, lineRest.trans (congrArg _ readRest), ?_, inside, ends⟩
    rw [byteLength_append]
    omega

theorem lineHolding_eq (offset count : Nat) (start : Input) :
    start.lineHolding offset count =
      match start.followingLine? with
      | none => (count, start)
      | some next => if next.pos ≤ offset then next.lineHolding offset (count + 1) else (count, start) := by
  rw [Input.lineHolding.eq_def]
  split
  · rename_i found
    rw [found]
  · rename_i found
    rw [found]

/-- Texts of one source are in order if their lengths are. -/
theorem append_of_byteLength_le {first second rest other : List Char} (same : first ++ rest = second ++ other)
    (within : byteLength first ≤ byteLength second) : ∃ more, second = first ++ more ∧ rest = more ++ other := by
  rcases List.append_eq_append_iff.mp same with ⟨more, longer, left⟩ | ⟨more, longer, left⟩
  · exact ⟨more, longer, left⟩
  · cases more with
    | nil => exact ⟨[], by simpa using longer.symm, left.symm⟩
    | cons char more =>
      have wide := Char.utf8Size_pos char
      rw [longer, byteLength_append, byteLength] at within
      omega

/-- What has been read of a text when the line of a place has been found: whole lines, and the beginning of a line
that does not end before the place. -/
structure Lined (lines line after : List Char) (count : Nat) (start : Input) (holding : Nat × Input) : Prop where
  counted : holding.1 = count + terminators lines (line ++ after)
  held : holding.2 = ⟨start.pos + byteLength lines, line ++ after⟩
  begun : terminators line after = 0
  ends : lines = [] ∨ ∃ front mark, lines = front ++ mark ∧ Break mark (line ++ after)

theorem lineHolding_lined (before after : List Char) (count : Nat) (start : Input)
    (rest : start.rest = before ++ after) :
    ∃ lines line, before = lines ++ line ∧
      Lined lines line after count start (start.lineHolding (start.pos + byteLength before) count) := by
  have stays (none : terminators before after = 0) :
      ∃ lines line, before = lines ++ line ∧ Lined lines line after count start (count, start) := by
    refine ⟨[], before, rfl, rfl, ?_, none, .inl rfl⟩
    rw [← rest]
    rfl
  rw [lineHolding_eq]
  rcases followingLine_cases start with ⟨last, inside⟩ | ⟨line, mark, next, found, lineRest, pos, inside, ends⟩
  · rw [last]
    exact stays (terminators_line (fun char member => inside char (rest ▸ List.mem_append_left _ member)) after)
  · rw [found]
    dsimp only
    have whole : (line ++ mark) ++ next.rest = before ++ after := by rw [List.append_assoc, ← lineRest, rest]
    have shorter : next.size < start.size := (Input.passes_of_followingLine? found).2
    split
    · rename_i within
      obtain ⟨more, rfl, left⟩ := append_of_byteLength_le whole (by omega)
      have place : start.pos + byteLength (line ++ mark ++ more) = next.pos + byteLength more := by
        rw [byteLength_append, pos, Nat.add_assoc]
      rw [place]
      obtain ⟨lines, last, rfl, lined⟩ := lineHolding_lined more after (count + 1) next left
      have one : terminators (line ++ mark) (lines ++ last ++ after) = 1 := by
        rw [← left, terminators_append, terminators_line inside, terminators_break ends]
      refine ⟨line ++ mark ++ lines, last, (List.append_assoc ..).symm, ?_, ?_, lined.begun, ?_⟩
      · rw [lined.counted, terminators_append (line ++ mark), ← List.append_assoc lines, one]
        omega
      · rw [lined.held, byteLength_append (line ++ mark), pos, Nat.add_assoc]
      · rcases lined.ends with rfl | ⟨front, twin, rfl, breaks⟩
        · exact .inr ⟨line, mark, List.append_nil _, left ▸ ends⟩
        · exact .inr ⟨line ++ mark ++ front, twin, (List.append_assoc ..).symm, breaks⟩
    · rename_i beyond
      apply stays
      obtain ⟨more, cut, left⟩ := append_of_byteLength_le whole.symm (by omega)
      have filled : more ≠ [] := by
        rintro rfl
        rw [cut, List.append_nil] at pos
        omega
      rcases List.append_eq_append_iff.mp cut with ⟨part, rfl, tail⟩ | ⟨part, rfl, -⟩
      · rw [left, terminators_append, terminators_line inside, terminators_begun ends tail filled]
      · exact terminators_line (fun char member => inside char (List.mem_append_left _ member)) after
termination_by start.size

/-! Lines as they are reported. -/

theorem startsAfterNewlines_append (pos : Nat) (first second : List Char) :
    LineTable.startsAfterNewlines pos (first ++ second) =
      LineTable.startsAfterNewlines pos first ++
        LineTable.startsAfterNewlines (pos + byteLength first) second := by
  induction first generalizing pos with
  | nil => rfl
  | cons char first step =>
    simp only [List.cons_append, LineTable.startsAfterNewlines, byteLength, step, Nat.add_assoc]
    split <;> rfl

theorem length_startsAfterNewlines (pos : Nat) (text : List Char) :
    (LineTable.startsAfterNewlines pos text).length = text.count '\n' := by
  induction text generalizing pos with
  | nil => rfl
  | cons char text step =>
    rw [LineTable.startsAfterNewlines, List.count_cons]
    split <;> simp only [List.length_cons, step, Nat.add_zero]

/-- Lines start after the place of the text that they are in, and not after its end. -/
theorem startsAfterNewlines_bounds {pos start : Nat} {text : List Char}
    (member : start ∈ LineTable.startsAfterNewlines pos text) : pos < start ∧ start ≤ pos + byteLength text := by
  induction text generalizing pos with
  | nil => cases member
  | cons char text step =>
    have wide := Char.utf8Size_pos char
    rw [byteLength]
    rw [LineTable.startsAfterNewlines] at member
    split at member
    · rcases List.mem_cons.mp member with rfl | later
      · omega
      · have := step later
        omega
    · have := step member
      omega

/-- A fault is reported on the line after the newlines before it. -/
theorem lineOf_eq (before after : List Char) :
    (LineTable.ofSource (before ++ after)).lineOf (byteLength before) = before.count '\n' + 1 := by
  have starts : (LineTable.ofSource (before ++ after)).starts.filter (· ≤ byteLength before) =
      0 :: LineTable.startsAfterNewlines 0 before := by
    rw [LineTable.ofSource, startsAfterNewlines_append, List.filter_cons_of_pos (by simp), List.filter_append,
      List.filter_eq_self.mpr, List.filter_eq_nil_iff.mpr, List.append_nil]
    · intro start member
      have := startsAfterNewlines_bounds member
      simp only [decide_eq_true_eq]
      omega
    · intro start member
      have := startsAfterNewlines_bounds member
      simp only [decide_eq_true_eq]
      omega
  rw [LineTable.lineOf, starts, List.length_cons, length_startsAfterNewlines]

/-- That line starts after the last newline. -/
theorem startOf_eq {lines line : List Char} (after : List Char) (unbroken : line.count '\n' = 0)
    (ends : lines = [] ∨ ∃ front, lines = front ++ ['\n']) :
    (LineTable.ofSource (lines ++ line ++ after)).startOf ((lines ++ line).count '\n' + 1) = byteLength lines := by
  rw [LineTable.startOf, Nat.add_sub_cancel, LineTable.ofSource, List.count_append, unbroken, Nat.add_zero]
  rcases ends with rfl | ⟨front, rfl⟩
  · rfl
  · have counted : (front ++ ['\n']).count '\n' = front.count '\n' + 1 := List.count_append
    rw [counted, List.append_assoc, List.append_assoc, startsAfterNewlines_append, List.getElem?_cons_succ,
      ← length_startsAfterNewlines 0 front, List.getElem?_append_right (Nat.le_refl _), Nat.sub_self,
      byteLength_append, Nat.zero_add]
    rfl

/-- Up to a place whose line has been found, it is reported as it has been read if its line starts after a newline. -/
theorem atOffset_lined (phase : Phase) (message : String) {lines line : List Char} (after : List Char)
    (unbroken : line.count '\n' = 0) (ends : lines = [] ∨ ∃ front, lines = front ++ ['\n']) :
    (Diagnostic.atOffset phase (lines ++ line ++ after) (byteLength (lines ++ line)) message).location =
      some { line := (lines ++ line).count '\n' + 1, column := line.length + 1,
             lineText := String.ofList ((line ++ after).takeWhile (!isLineEnd ·)) } := by
  have place := lineOf_eq (lines ++ line) after
  have start := startOf_eq after unbroken ends
  have dropped : dropBytes? (byteLength lines) (lines ++ line ++ after) = some (line ++ after) := by
    rw [List.append_assoc, dropBytes?_append]
  have stop : max (min (byteLength (lines ++ line)) (byteLength (lines ++ line ++ after))) (byteLength lines) =
      byteLength lines + byteLength line := by
    simp only [byteLength_append]
    omega
  have sliced : sliceBytes? (lines ++ line ++ after) (byteLength lines) (byteLength lines + byteLength line) =
      some line := by
    rw [sliceBytes?, if_pos (Nat.le_add_right ..), dropped, Nat.add_sub_cancel_left]
    exact takeBytes?_append line after
  simp only [Diagnostic.atOffset, LineTable.columnOf, LineTable.textOf, place, start, stop, sliced, dropped,
    Option.getD_some]

/-- The place of a text by the lines that are read. -/
theorem asRead_lined (before after : List Char) :
    ∃ lines line, before = lines ++ line ∧ terminators line after = 0 ∧
      (lines = [] ∨ ∃ front mark, lines = front ++ mark ∧ Break mark (line ++ after)) ∧
      Location.asRead (before ++ after) (byteLength before) =
        { line := terminators before after + 1, column := line.length + 1,
          lineText := String.ofList ((line ++ after).takeWhile (!isLineEnd ·)) } := by
  obtain ⟨lines, line, rfl, lined⟩ := lineHolding_lined before after 0 (.ofText (before ++ after)) rfl
  have start : (Input.ofText (lines ++ line ++ after)).pos = 0 := rfl
  have column : Input.textTo ⟨byteLength lines, line ++ after⟩ (byteLength (lines ++ line)) = line := by
    rw [byteLength_append]
    exact Input.textFrom_append ..
  have counted := lined.counted
  have held := lined.held
  rw [start, Nat.zero_add] at counted held
  rw [Nat.zero_add] at counted held
  refine ⟨lines, line, rfl, lined.begun, lined.ends, ?_⟩
  simp only [Location.asRead, counted, held, column, terminators_append lines, lined.begun, Nat.add_zero]
  rfl

/-- Where no carriage return stands alone, lines that have been read end in newlines. -/
theorem newline_of_break {front mark text : List Char} (ends : Break mark text)
    (none : loneReturns (front ++ mark) text = 0) : ∃ more, front ++ mark = more ++ ['\n'] := by
  cases ends with
  | newline => exact ⟨front, rfl⟩
  | paired => exact ⟨front ++ ['\r'], by rw [List.append_assoc]; rfl⟩
  | carriage apart =>
    rw [loneReturns_append] at none
    simp only [loneReturns, List.nil_append, apart, ne_eq, not_false_eq_true, and_self, if_true] at none
    omega

/-- A place is reported by the lines that are read exactly if no carriage return before it stands alone. -/
theorem atOffset_asRead_iff (phase : Phase) (message : String) (before after : List Char) :
    ∃ location,
      (Diagnostic.atOffset phase (before ++ after) (byteLength before) message).location = some location ∧
      (Location.asRead (before ++ after) (byteLength before)).line = location.line + loneReturns before after ∧
      (location = Location.asRead (before ++ after) (byteLength before) ↔ loneReturns before after = 0) := by
  obtain ⟨lines, line, rfl, begun, ends, read⟩ := asRead_lined before after
  generalize reported : (Diagnostic.atOffset phase (lines ++ line ++ after) (byteLength (lines ++ line))
    message).location = found
  obtain ⟨location, rfl⟩ : ∃ location, found = some location := ⟨_, reported.symm⟩
  have place : location.line = (lines ++ line).count '\n' + 1 := by
    rw [← lineOf_eq (lines ++ line) after]
    exact congrArg Location.line (Option.some.inj reported).symm
  refine ⟨location, rfl, ?_, fun same => ?_, fun none => ?_⟩
  · rw [read, place, terminators]
    dsimp only
    omega
  · have lined := congrArg Location.line same
    rw [read, place, terminators] at lined
    dsimp only at lined
    omega
  · have unbroken : line.count '\n' = 0 ∧ loneReturns line after = 0 := by
      rw [terminators] at begun
      omega
    have whole : loneReturns lines (line ++ after) = 0 := by
      rw [loneReturns_append] at none
      omega
    have newlines : lines = [] ∨ ∃ front, lines = front ++ ['\n'] := by
      rcases ends with rfl | ⟨front, mark, rfl, breaks⟩
      · exact .inl rfl
      · exact .inr (newline_of_break breaks whole)
    rw [atOffset_lined phase message after unbroken.1 newlines] at reported
    rw [read, terminators, none, Nat.add_zero]
    exact (Option.some.inj reported).symm

/-- What keeps a source from being read or compiled is reported at a place. By the lines that are read it is as many
lines later as carriage returns before it stand alone; it is the same place, line, text and column, exactly if
there are none. -/
theorem reported_asRead_iff (options : TemplateOptions) {source : List Char} {error : TemplateError}
    (failed : Template.ofSource options source = .error error) :
    ∃ before after location, source = before ++ after ∧ byteLength before = error.offset ∧
      (error.diagnostic source).location = some location ∧
      (Location.asRead source error.offset).line = location.line + loneReturns before after ∧
      (location = Location.asRead source error.offset ↔ loneReturns before after = 0) := by
  obtain ⟨before, after, rfl, offset⟩ := ((Offsets.offsets_sound options source).2.2 error failed).cuts
  have places (phase : Phase) (message : String) := atOffset_asRead_iff phase message before after
  rw [← offset]
  cases error with
  | lexical error =>
    obtain ⟨location, reported, rest⟩ := places .lexer error.fault.message
    rw [offset] at reported
    exact ⟨before, after, location, rfl, rfl, reported, rest⟩
  | structural error =>
    obtain ⟨location, reported, rest⟩ := places .compiler error.fault.message
    rw [offset] at reported
    exact ⟨before, after, location, rfl, rfl, reported, rest⟩

theorem failed_of {result : Except TemplateError Template} {error : TemplateError}
    (found : (match result with | .error error => some error | .ok _ => none) = some error) :
    result = .error error := by
  cases result with
  | error other => exact congrArg _ (Option.some.inj found)
  | ok template => cases found

/-- A stray sign on the second line, in two spellings of the line end before it. -/
def paired : List Char := "p\r\n@".toList

def returned : List Char := "p\r@".toList

def stray (offset : Nat) : TemplateError := .lexical ⟨.unknownLine, offset⟩

theorem paired_reported : Template.ofSource ⟨false, false⟩ paired = .error (stray 3) ∧
    ∃ before after location, paired = before ++ after ∧ byteLength before = (stray 3).offset ∧
      ((stray 3).diagnostic paired).location = some location ∧
      (Location.asRead paired (stray 3).offset).line = location.line + loneReturns before after ∧
      (location = Location.asRead paired (stray 3).offset ↔ loneReturns before after = 0) :=
  have failed : Template.ofSource ⟨false, false⟩ paired = .error (stray 3) := failed_of (by decide +kernel)
  ⟨failed, reported_asRead_iff ⟨false, false⟩ failed⟩

/-- After a carriage return alone, the sign is read at the start of the second line and reported behind the end of the
first one. -/
theorem returned_misplaced : Template.ofSource ⟨false, false⟩ returned = .error (stray 2) ∧
    ((stray 2).diagnostic returned).location = some ⟨1, 3, "p"⟩ ∧
    Location.asRead returned (stray 2).offset = ⟨2, 1, "@"⟩ :=
  ⟨failed_of (by decide +kernel), by decide +kernel, by decide +kernel⟩

end Reporting

end HtmlTemplate
