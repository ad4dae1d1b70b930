import Mathlib.Data.List.Basic
import HtmlTemplate.Proofs.Indentation.Places
import HtmlTemplate.Proofs.Reading.Basic

/-! How deep lines are: as many steps as the spacing before them has, where the first spacing is one
step. -/

namespace HtmlTemplate

open CharClass

/-! Spacing. -/

/-- The spacing at the start of the line of a source that a part begins on. -/
def Token.spacing (source : List Char) (token : Token) : List Char :=
  let before := (Input.ofText source).textTo token.span.start
  (before.reverse.takeWhile fun char => !isLineEnd char).reverse.takeWhile isSpacing

namespace Document

/-- The spacing at the start of each line of a text that is not blank. -/
def indents (text : List Char) : List (List Char) :=
  ((text.splitOnP isLineEnd).filter fun line => line.any fun char => !isSpacing char).map
    (List.takeWhile isSpacing)

/-- A place of a source where a line begins. -/
def LineStart (source : List Char) (input : Input) : Prop :=
  ∃ before, source = before ++ input.rest ∧ input.pos = byteLength before ∧
    ∀ char ∈ before.getLast?, isLineEnd char = true

theorem takeWhile_spacing (input : Input) : input.takeWhile isSpacing ++ input.skipSpacing.rest = input.rest := by
  rw [Input.skipSpacing, Input.rest_dropWhile]
  exact List.takeWhile_append_dropWhile

/-- After spacing there is something else. -/
theorem takeWhile_content {input : Input} {read rest : List Char}
    (content : input.skipSpacing.rest = read ++ rest) : read.takeWhile isSpacing = [] := by
  cases read with
  | nil => rfl
  | cons char read =>
    have first := List.head?_dropWhile_not isSpacing input.rest
    rw [Input.skipSpacing, Input.rest_dropWhile] at content
    rw [content] at first
    have other : isSpacing char = false := first
    rw [List.takeWhile_cons, other]
    rfl

/-- What stands on a line begins after the spacing of the line. -/
theorem spacing_eq {source : List Char} {input place : Input} {token : Token}
    (starts : LineStart source input) (along : input.skipSpacing.Along place)
    (begins : token.span.start = place.pos) : token.spacing source = input.takeWhile isSpacing := by
  obtain ⟨before, whole, pos, ended⟩ := starts
  obtain ⟨line, lineRest, linePos, flat⟩ := (Input.Along.skipSpacing input).trans along
  obtain ⟨read, readRest, -, -⟩ := along
  have split : line = input.takeWhile isSpacing ++ read := by
    have same : line ++ place.rest = input.takeWhile isSpacing ++ read ++ place.rest := by
      rw [List.append_assoc, ← readRest, takeWhile_spacing, lineRest]
    exact List.append_cancel_right same
  have text : (Input.ofText source).textTo token.span.start = before ++ line := by
    have reached : token.span.start = 0 + byteLength (before ++ line) := by
      rw [begins, linePos, pos, byteLength_append, Nat.zero_add]
    rw [reached, Input.textTo, Input.ofText, whole, lineRest, ← List.append_assoc]
    exact Input.textFrom_append 0 (before ++ line) place.rest
  have last : ((before ++ line).reverse.takeWhile fun char => !isLineEnd char) = line.reverse := by
    rw [List.reverse_append]
    refine Reading.takeWhile_append (fun char member => ?_) fun char found => ?_
    · rw [flat char (List.mem_reverse.mp member)]
      rfl
    · rw [List.head?_reverse] at found
      rw [ended char found]
      rfl
  unfold Token.spacing
  dsimp only
  rw [text, last, List.reverse_reverse, split, List.takeWhile_append_of_pos, takeWhile_content readRest,
    List.append_nil]
  exact fun char member => List.all_eq_true.mp List.all_takeWhile char member

/-! Lines of the source. -/

/-- The second place is where the next line begins, or the end of the source. -/
structure Ended (start stop : Input) (line breaks : List Char) : Prop where
  rest : start.rest = line ++ (breaks ++ stop.rest)
  pos : stop.pos = start.pos + byteLength (line ++ breaks)
  flat : ∀ char ∈ line, isLineEnd char = false
  ends : breaks = [] ∧ stop.rest = [] ∨ breaks = ['\n'] ∨ breaks = ['\r'] ∨ breaks = ['\r', '\n']

theorem Ended.after {start middle stop : Input} {line breaks : List Char}
    (ended : Ended middle stop line breaks) (along : start.Along middle) :
    ∃ more, Ended start stop more breaks := by
  obtain ⟨read, rest, pos, flat⟩ := along
  refine ⟨read ++ line, ?_, ?_, List.forall_mem_append.mpr ⟨flat, ended.flat⟩, ended.ends⟩
  · rw [rest, ended.rest, List.append_assoc]
  · rw [ended.pos, pos, List.append_assoc, byteLength_append read, Nat.add_assoc]

/-- One line terminator, or the end of the source. -/
theorem eatNewline_ended {input : Input} (done : input.atLineEnd = true) :
    ∃ breaks, Ended input (input.eatNewline?.getD input) [] breaks := by
  obtain ⟨pos, text⟩ := input
  cases text with
  | nil => exact ⟨[], rfl, rfl, List.forall_mem_nil _, .inl ⟨rfl, rfl⟩⟩
  | cons char rest =>
    have ends : char = '\n' ∨ char = '\r' := by
      simpa [Input.atLineEnd, Input.atEnd, Input.isClass, isLineEnd] using done
    rcases ends with rfl | rfl
    · exact ⟨['\n'], rfl, rfl, List.forall_mem_nil _, .inr (.inl rfl)⟩
    · cases rest with
      | nil => exact ⟨['\r'], rfl, rfl, List.forall_mem_nil _, .inr (.inr (.inl rfl))⟩
      | cons next rest =>
        by_cases newline : next = '\n'
        · subst newline
          exact ⟨['\r', '\n'], rfl, rfl, List.forall_mem_nil _, .inr (.inr (.inr rfl))⟩
        · have eaten : Input.eatNewline? ⟨pos, '\r' :: next :: rest⟩ =
              some ⟨pos + '\r'.utf8Size, next :: rest⟩ := by
            simp [Input.eatNewline?, Input.eatWord?, Input.startsWith, Input.eat?, Input.isAt, Input.isClass,
              Input.advance, Ne.symm newline]
          rw [eaten]
          exact ⟨['\r'], rfl, rfl, List.forall_mem_nil _, .inr (.inr (.inl rfl))⟩

theorem finishLine_ended (input : Input) : ∃ line breaks, Ended input (finishLine input) line breaks := by
  have done : input.skipRestOfLine.atLineEnd = true := by
    have first := List.head?_dropWhile_not (fun char => !isLineEnd char) input.rest
    have whole : input.skipRestOfLine.rest = input.rest.dropWhile fun char => !isLineEnd char :=
      Input.rest_dropWhile _ _
    unfold Input.atLineEnd Input.atEnd Input.isClass
    rw [whole]
    cases rest : input.rest.dropWhile fun char => !isLineEnd char with
    | nil => rfl
    | cons char more =>
      rw [rest] at first
      simpa using first
  obtain ⟨breaks, ended⟩ := eatNewline_ended done
  obtain ⟨line, ended⟩ := ended.after (.skipRestOfLine input)
  exact ⟨line, breaks, ended⟩

/-- After the end of a line another one begins, unless the source is at its end. -/
theorem Ended.starts {source : List Char} {start stop : Input} {line breaks : List Char}
    (ended : Ended start stop line breaks) (reached : (Input.ofText source).Reaches start) :
    stop.atEnd = true ∨ LineStart source stop := by
  obtain ⟨before, whole, pos⟩ := reached
  have whole : source = before ++ start.rest := whole
  rcases ended.ends with ⟨-, rest⟩ | others
  · exact .inl (by rw [Input.atEnd, rest]; rfl)
  · refine .inr ⟨before ++ (line ++ breaks), ?_, ?_, ?_⟩
    · rw [whole, ended.rest, List.append_assoc, List.append_assoc]
    · rw [ended.pos, pos, byteLength_append before, Input.ofText, Nat.zero_add]
    · rcases others with rfl | rfl | rfl <;> simp [isLineEnd]

theorem LineStart.reached {source : List Char} {input : Input} (starts : LineStart source input) :
    (Input.ofText source).Reaches input := by
  obtain ⟨before, whole, pos, -⟩ := starts
  exact ⟨before, whole, by rw [pos, Input.ofText, Nat.zero_add]⟩

theorem indents_nil : indents [] = [] := rfl

theorem indents_append (line : List Char) {char : Char} (ends : isLineEnd char = true) (rest : List Char) :
    indents (line ++ char :: rest) = indents line ++ indents rest := by
  unfold indents
  rw [List.splitOnP_append_cons _ _ ends, List.filter_append, List.map_append]

/-- A text in which no line ends is one line. -/
theorem indents_flat {line : List Char} (flat : ∀ char ∈ line, isLineEnd char = false) :
    indents line = if line.any fun char => !isSpacing char then [line.takeWhile isSpacing] else [] := by
  have whole : line.splitOnP isLineEnd = [line] := by
    exact List.splitOnP_eq_singleton flat
  unfold indents
  rw [whole, List.filter_singleton]
  cases line.any fun char => !isSpacing char <;> rfl

/-- A line is what stands before the next line terminator. -/
theorem Ended.line_eq {start stop : Input} {line breaks : List Char}
    (ended : Ended start stop line breaks) :
    line = start.rest.takeWhile fun char => !isLineEnd char := by
  rw [ended.rest]
  refine (Reading.takeWhile_append (fun char member => ?_) fun char found => ?_).symm
  · rw [ended.flat char member]
    rfl
  · have ends : isLineEnd char = true := by
      rcases ended.ends with ⟨rfl, rest⟩ | rfl | rfl | rfl
      · rw [rest] at found
        cases found
      all_goals
        cases found
        rfl
    rw [ends]
    rfl

theorem not_isLineEnd_of_isSpacing {char : Char} (spacing : isSpacing char = true) :
    isLineEnd char = false := by
  simp only [isSpacing, Bool.or_eq_true, beq_iff_eq] at spacing
  rcases spacing with rfl | rfl <;> rfl

/-- The line that begins at a place is blank, or is indented by the spacing there. -/
theorem indents_line (input : Input) :
    indents (input.rest.takeWhile fun char => !isLineEnd char) =
      if input.skipSpacing.atLineEnd then [] else [input.takeWhile isSpacing] := by
  have spacing : ∀ char ∈ input.takeWhile isSpacing, isSpacing char = true :=
    fun char member => List.all_eq_true.mp List.all_takeWhile char member
  have within : ∀ char ∈ input.takeWhile isSpacing, !isLineEnd char := by
    intro char member
    rw [not_isLineEnd_of_isSpacing (spacing char member)]
    rfl
  have line : (input.rest.takeWhile fun char => !isLineEnd char) =
      input.takeWhile isSpacing ++ input.skipSpacing.rest.takeWhile fun char => !isLineEnd char := by
    rw [← takeWhile_spacing, List.takeWhile_append_of_pos within]
  have content := List.head?_dropWhile_not isSpacing input.rest
  have flat : ∀ char ∈ input.rest.takeWhile fun char => !isLineEnd char, isLineEnd char = false :=
    fun char member => by simpa using List.all_eq_true.mp List.all_takeWhile char member
  rw [indents_flat flat, line, List.any_append, List.takeWhile_append_of_pos spacing]
  have blank : ((input.takeWhile isSpacing).any fun char => !isSpacing char) = false := by
    simpa using spacing
  rw [← Input.rest_dropWhile, ← Input.skipSpacing] at content
  rw [blank, Bool.false_or]
  unfold Input.atLineEnd Input.atEnd Input.isClass
  cases rest : input.skipSpacing.rest with
  | nil => rfl
  | cons char more =>
    rw [rest] at content
    have content : isSpacing char = false := content
    cases ends : isLineEnd char with
    | true => simp [ends]
    | false => simp [ends, content]

theorem Ended.indents {start stop : Input} {line breaks : List Char}
    (ended : Ended start stop line breaks) :
    indents start.rest =
      (if start.skipSpacing.atLineEnd then [] else [start.takeWhile isSpacing]) ++ indents stop.rest := by
  rw [← indents_line, ← ended.line_eq, ended.rest]
  rcases ended.ends with ⟨rfl, rest⟩ | rfl | rfl | rfl
  · rw [rest, indents_nil, List.append_nil, List.append_nil, List.append_nil]
  · exact indents_append line rfl _
  · exact indents_append line rfl _
  · change Document.indents (line ++ '\r' :: ([] ++ '\n' :: stop.rest)) = _
    rw [indents_append line rfl, indents_append [] rfl]
    rfl

/-! Rows. -/

theorem readChained_along {lineStart input : Input} {parsed : Parsed (List Token) input}
    (read : readChained lineStart input = .ok parsed) (unchained : parsed.value = []) :
    input.Along parsed.rest := by
  rw [readChained] at read
  split at read
  · rename_i colon
    dsimp only at read
    split at read
    · cases read
      exact (Input.Along.of_isAt colon rfl).trans (.skipSpacing _)
    · obtain ⟨line, -, read⟩ := Reading.bind_eq_ok.mp read
      obtain ⟨more, -, read⟩ := Reading.bind_eq_ok.mp read
      cases read
      cases unchained
  · cases read
    exact .refl input

/-- A row begins where it is read, and ends on the same line if nothing is chained to its line and no
line ends in it. -/
theorem readRow_laid {outline : Outline} {lineStart input : Input} {row : Parsed Row input}
    (read : readRow outline lineStart input = .ok row) :
    row.value.depth = outline.depth ∧
      (∃ place, input.Along place ∧ row.value.line.span.start = place.pos) ∧
      (row.value.chained = [] → (∀ char ∈ row.value.line.text.toList, isLineEnd char = false) →
        input.Along row.rest) := by
  unfold readRow at read
  split at read
  · obtain ⟨line, plain, read⟩ := Reading.bind_eq_ok.mp read
    cases read
    have lays := (Line.readPlain_lies input).of_eq plain
    exact ⟨rfl, lays.begins, fun _ flat => lays.ends flat⟩
  · obtain ⟨line, markup, read⟩ := Reading.bind_eq_ok.mp read
    obtain ⟨chained, others, read⟩ := Reading.bind_eq_ok.mp read
    cases read
    have lays := (Line.read_lies lineStart input).of_eq markup
    exact ⟨rfl, lays.begins, fun unchained flat =>
      (lays.ends flat).trans (readChained_along others unchained)⟩

/-- A line is placed as deep as it is measured. -/
theorem enter_measured {outline entered : Outline} {spacing : List Char}
    (found : outline.enter spacing = .ok entered) :
    outline.measure spacing = .ok (entered.depth, entered.unit) := by
  unfold Outline.enter at found
  cases measured : outline.measure spacing with
  | error fault =>
    rw [measured] at found
    cases found
  | ok result =>
    obtain ⟨depth, unit⟩ := result
    rw [measured] at found
    cases opened : Outline.open? { outline with unit } depth with
    | none =>
      simp only [bind, Except.bind, opened] at found
      cases found
    | some next =>
      simp only [bind, Except.bind, opened] at found
      cases found
      unfold Outline.open? at opened
      split at opened
      · rename_i shallow
        cases opened
        simp only [Outline.depth, List.length_drop] at shallow ⊢
        rw [Nat.sub_sub_self shallow]
      · split at opened
        · rename_i next
          obtain ⟨last, -, rfl⟩ := Option.map_eq_some_iff.mp opened
          rw [next]
          rfl
        · cases opened

/-- Lines with their depths, which are counted from the spacing before them in a unit, or in the one that
the first indented line fixes. -/
def Measured (unit : Option IndentUnit) : List (Nat × List Char) → Prop
  | [] => True
  | (depth, spacing) :: rest => ∃ next,
    Outline.measure { unit, parents := [], last := none } spacing = .ok (depth, next) ∧ Measured next rest

/-- The rows of a source with their indentation. -/
structure Laid (source : List Char) (unit : Option IndentUnit) (text : List Char) (rows : List Row) :
    Prop where
  measured : Measured unit (rows.map fun row => (row.depth, row.line.spacing source))
  complete : (∀ row ∈ rows, row.chained = []) →
    (∀ row ∈ rows, ∀ char ∈ row.line.text.toList, isLineEnd char = false) →
      rows.map (fun row => row.line.spacing source) = indents text

/-- No row is left where there is nothing to read. -/
theorem laid_end (source : List Char) (unit : Option IndentUnit) {input : Input} (atEnd : input.atEnd = true) :
    Laid source unit input.rest [] := by
  refine ⟨trivial, fun _ _ => ?_⟩
  rw [List.isEmpty_iff.mp atEnd]
  rfl

theorem readRows_laid {source : List Char} {outline : Outline} {input : Input} {rows : List Row}
    (read : readRows outline input = .ok rows) (place : input.atEnd = true ∨ LineStart source input) :
    Laid source outline.unit input.rest rows := by
  fun_induction readRows outline input generalizing rows with
  | case1 outline input atEnd =>
    cases read
    exact laid_end source _ atEnd
  | case2 outline input atEnd content reached blank =>
    rename_i step
    have starts := place.resolve_left atEnd
    obtain ⟨line, breaks, ended⟩ := finishLine_ended input.skipSpacing
    obtain ⟨line, ended⟩ := ended.after (.skipSpacing input)
    have laid := step read (ended.starts starts.reached)
    refine ⟨laid.measured, fun unchained flat => ?_⟩
    rw [ended.indents, if_pos blank]
    exact laid.complete unchained flat
  | case3 => cases read
  | case4 outline input atEnd content reached more entered found =>
    rename_i step
    have starts := place.resolve_left atEnd
    obtain ⟨row, first, read⟩ := Reading.bind_eq_ok.mp read
    obtain ⟨rest, others, read⟩ := Reading.bind_eq_ok.mp read
    cases read
    obtain ⟨depth, ⟨place, along, begins⟩, ends⟩ := readRow_laid first
    obtain ⟨line, breaks, ended⟩ := finishLine_ended row.rest
    have laid := step row others (ended.starts (starts.reached.trans (reached.trans row.reached)))
    have spacing : row.value.line.spacing source = input.takeWhile isSpacing := spacing_eq starts along begins
    refine ⟨⟨entered.unit, ?_, laid.measured⟩, fun unchained flat => ?_⟩
    · rw [spacing, depth]
      exact (enter_measured found :)
    · obtain ⟨single, unchained⟩ := List.forall_mem_cons.mp unchained
      obtain ⟨short, flat⟩ := List.forall_mem_cons.mp flat
      obtain ⟨line, ended⟩ := ended.after ((Input.Along.skipSpacing input).trans (ends single short))
      rw [ended.indents, if_neg more, List.map_cons, spacing, laid.complete unchained flat]
      rfl

/-! Steps. -/

/-- How wide a step is: as wide as the first spacing. -/
def step (spacings : List (List Char)) : Nat :=
  ((spacings.find? fun spacing => !spacing.isEmpty).getD []).length

/-- The first line that is indented with a tab is indented with one. -/
def Stepped (spacings : List (List Char)) : Prop :=
  ∀ spacing ∈ spacings.find? fun spacing => !spacing.isEmpty, '\t' ∈ spacing → spacing = ['\t']

/-- How wide a unit is. -/
def width : IndentUnit → Nat
  | .tab => 1
  | .spaces width => width

theorem depth_eq {unit : IndentUnit} {spacing : List Char} {depth : Nat}
    (found : unit.depth? spacing = some depth) : depth = spacing.length / width unit := by
  unfold IndentUnit.depth? at found
  cases unit with
  | tab =>
    dsimp only at found
    split at found
    · cases found
      exact (Nat.div_one _).symm
    · cases found
  | spaces width =>
    dsimp only at found
    split at found
    · cases found
      rfl
    · cases found

/-- The first spacing is one step wide. -/
theorem width_ofSpacing {unit : IndentUnit} {spacing : List Char}
    (found : IndentUnit.ofSpacing? spacing = some unit) (indented : spacing ≠ [])
    (steady : '\t' ∈ spacing → spacing = ['\t']) : width unit = spacing.length := by
  unfold IndentUnit.ofSpacing? at found
  split at found
  · rename_i tabs
    cases found
    obtain ⟨char, rest, rfl⟩ := List.exists_cons_of_ne_nil indented
    obtain rfl : char = '\t' := by simpa using List.all_eq_true.mp tabs char List.mem_cons_self
    rw [steady List.mem_cons_self]
    rfl
  · split at found
    · cases found
      rfl
    · cases found

/-- In a unit, the depth of a line is the number of whole units in its spacing. -/
theorem Measured.depths {unit : IndentUnit} {lines : List (Nat × List Char)}
    (measured : Measured (some unit) lines) :
    ∀ line ∈ lines, line.1 = line.2.length / width unit := by
  induction lines with
  | nil => exact List.forall_mem_nil _
  | cons line rest step =>
    obtain ⟨depth, spacing⟩ := line
    obtain ⟨next, first, measured⟩ := measured
    unfold Outline.measure at first
    split at first
    · rename_i none
      cases first
      rw [List.isEmpty_iff.mp none]
      exact List.forall_mem_cons.mpr ⟨(Nat.zero_div _).symm, step measured⟩
    · dsimp only at first
      split at first
      · rename_i found
        cases first
        exact List.forall_mem_cons.mpr ⟨depth_eq found, step measured⟩
      · cases first

/-- The depth of a line is the number of whole steps in the spacing before it. -/
theorem Measured.steps {lines : List (Nat × List Char)} (measured : Measured none lines)
    (stepped : Stepped (lines.map Prod.snd)) :
    ∀ line ∈ lines, line.1 = line.2.length / Document.step (lines.map Prod.snd) := by
  induction lines with
  | nil => exact List.forall_mem_nil _
  | cons line rest step =>
    obtain ⟨depth, spacing⟩ := line
    obtain ⟨next, first, measured⟩ := measured
    unfold Outline.measure at first
    split at first
    · rename_i none
      cases first
      rw [List.isEmpty_iff.mp none] at stepped ⊢
      exact List.forall_mem_cons.mpr ⟨(Nat.zero_div _).symm, step measured stepped⟩
    · rename_i indented
      have indented : spacing ≠ [] := fun none => indented (List.isEmpty_iff.mpr none)
      have found : ((spacing :: rest.map Prod.snd).find? fun spacing => !spacing.isEmpty) = some spacing := by
        simp [indented]
      have wide : Document.step (spacing :: rest.map Prod.snd) = spacing.length := by
        rw [Document.step, found]
        rfl
      dsimp only at first
      split at first
      · rename_i unit fixed
        cases first
        have width := width_ofSpacing fixed indented (stepped spacing found)
        have positive : 0 < spacing.length := List.length_pos_iff.mpr indented
        have others := measured.depths
        rw [width] at others
        rw [List.map_cons, wide]
        exact List.forall_mem_cons.mpr ⟨(Nat.div_self positive).symm, others⟩
      · cases first

end Document

end HtmlTemplate
