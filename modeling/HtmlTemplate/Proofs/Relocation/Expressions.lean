import HtmlTemplate.Proofs.Reading.Basic

/-! An expression in the middle of a source is read as it would be on its own. A reader finds the same in a
text that starts some bytes later, and every place that it remembers (the start of a string, the line end to
go back to, the place of a fault) is as many bytes later. -/

namespace HtmlTemplate

namespace Input

/-- The same text, some bytes later in a source. -/
def moved (bytes : Nat) (input : Input) : Input := ⟨bytes + input.pos, input.rest⟩

variable (bytes : Nat) (input : Input)

@[simp] theorem rest_moved : (input.moved bytes).rest = input.rest := rfl

@[simp] theorem pos_moved : (input.moved bytes).pos = bytes + input.pos := rfl

@[simp] theorem isClass_moved (class? : Char → Bool) : (input.moved bytes).isClass class? = input.isClass class? := rfl

@[simp] theorem isAt_moved (char : Char) : (input.moved bytes).isAt char = input.isAt char := rfl

@[simp] theorem isClassAt_moved (class? : Char → Bool) (ahead : Nat) :
    (input.moved bytes).isClassAt class? ahead = input.isClassAt class? ahead := rfl

@[simp] theorem startsWith_moved (word : List Char) : (input.moved bytes).startsWith word = input.startsWith word := rfl

@[simp] theorem takeWhile_moved (class? : Char → Bool) :
    (input.moved bytes).takeWhile class? = input.takeWhile class? := rfl

@[simp] theorem atEnd_moved : (input.moved bytes).atEnd = input.atEnd := rfl

@[simp] theorem advance_moved : (input.moved bytes).advance = input.advance.moved bytes := by
  obtain ⟨pos, _ | ⟨char, rest⟩⟩ := input
  · rfl
  · simp only [moved, advance, Nat.add_assoc]

@[simp] theorem advanceBy_moved (count : Nat) :
    (input.moved bytes).advanceBy count = (input.advanceBy count).moved bytes := by
  induction count generalizing input with
  | zero => rfl
  | succ count step => simp only [advanceBy, advance_moved, step]

theorem dropFrom_moved (class? : Char → Bool) (pos : Nat) (text : List Char) :
    dropFrom class? (bytes + pos) text = (dropFrom class? pos text).moved bytes := by
  induction text generalizing pos with
  | nil => rfl
  | cons char text step =>
    simp only [dropFrom, Nat.add_assoc, step]
    split <;> rfl

@[simp] theorem dropWhile_moved (class? : Char → Bool) :
    (input.moved bytes).dropWhile class? = (input.dropWhile class?).moved bytes :=
  dropFrom_moved bytes class? input.pos input.rest

@[simp] theorem skipSpacing_moved : (input.moved bytes).skipSpacing = input.skipSpacing.moved bytes :=
  dropWhile_moved ..

@[simp] theorem skipWhitespace_moved : (input.moved bytes).skipWhitespace = input.skipWhitespace.moved bytes :=
  dropWhile_moved ..

@[simp] theorem eatWord_moved (word : List Char) :
    (input.moved bytes).eatWord? word = (input.eatWord? word).map (moved bytes) := by
  simp only [eatWord?, startsWith_moved, advanceBy_moved]
  split <;> rfl

@[simp] theorem eat_moved (char : Char) : (input.moved bytes).eat? char = (input.eat? char).map (moved bytes) := by
  simp only [eat?, isAt_moved, advance_moved]
  split <;> rfl

@[simp] theorem eatNewline_moved : (input.moved bytes).eatNewline? = input.eatNewline?.map (moved bytes) := by
  simp only [eatNewline?, eatWord_moved, eat_moved, Option.map_or]

end Input

namespace Relocation

/-- What a reader gives for a text, and for the same text some bytes later: results side by side, or the same
fault at a place that is as many bytes later. -/
inductive Moves (bytes : Nat) {α β : Type} (beside : α → β → Prop) : Except ParseError α → Except ParseError β → Prop
  | ok {result : α} {other : β} (both : beside result other) : Moves bytes beside (.ok result) (.ok other)
  | error (error : ParseError) : Moves bytes beside (.error error) (.error (error.shift bytes))

/-- The same result, and the same place after it. -/
structure Alike (bytes : Nat) {α : Type} {first second : Input} (result : Parsed α first)
    (other : Parsed α second) : Prop where
  value : other.value = result.value
  rest : other.rest = result.rest.moved bytes

variable {bytes : Nat} {α β : Type} {first second : Input}

namespace Moves

variable {γ δ : Type} {beside : α → β → Prop} {after : γ → δ → Prop}

theorem bind {program : Except ParseError α} {other : Except ParseError β} {next : α → Except ParseError γ}
    {follow : β → Except ParseError δ} (moves : Moves bytes beside program other)
    (goesOn : ∀ result twin, beside result twin → Moves bytes after (next result) (follow twin)) :
    Moves bytes after (program >>= next) (other >>= follow) := by
  cases moves with
  | ok both => exact goesOn _ _ both
  | error error => exact .error error

theorem map {program : Except ParseError α} {other : Except ParseError β} {change : α → γ} {turn : β → δ}
    (moves : Moves bytes beside program other) (kept : ∀ result twin, beside result twin →
      after (change result) (turn twin)) : Moves bytes after (program.map change) (other.map turn) := by
  cases moves with
  | ok both => exact .ok (kept _ _ both)
  | error error => exact .error error

theorem ite {chosen : Prop} [Decidable chosen] {yes no : Except ParseError α} {sure not : Except ParseError β}
    (held : Moves bytes beside yes sure) (failed : Moves bytes beside no not) :
    Moves bytes beside (if chosen then yes else no) (if chosen then sure else not) := by
  split
  · exact held
  · exact failed

/-- A fault at the place that has been reached. -/
theorem here (fault : ParseFault) {place twin : Input} (same : twin = place.moved bytes) :
    Moves bytes beside (.error (.here fault place.pos)) (.error (.here fault twin.pos)) := by
  subst same
  exact .error _

end Moves

namespace Alike

theorem here (same : second = first.moved bytes) (value : α) :
    Alike bytes (.here first value) (.here second value) :=
  ⟨rfl, same⟩

theorem map {result : Parsed α first} {other : Parsed α second} (alike : Alike bytes result other) (change : α → β) :
    Alike bytes (result.map change) (other.map change) :=
  ⟨congrArg change alike.value, alike.rest⟩

theorem widen {middle between : Input} {result : Parsed α middle} {other : Parsed α between}
    (alike : Alike bytes result other) (reached : first.Reaches middle) (follows : second.Reaches between) :
    Alike bytes (result.widen reached) (other.widen follows) :=
  ⟨alike.value, alike.rest⟩

end Alike

/-! White space. -/

theorem blankLine_moved (input : Input) :
    Gap.blankLine? (input.moved bytes) = (Gap.blankLine? input).map (Input.moved bytes) := by
  unfold Gap.blankLine?
  rw [Input.eatNewline_moved]
  cases input.eatNewline? with
  | none => rfl
  | some next =>
    simp only [Option.map_some, Input.skipSpacing_moved, Input.isClass_moved]
    split <;> rfl

/-- The line end to go back to is moved with the text. -/
theorem skipContinued_moved (continuation : List Char) (complete : Bool) (lineEnd : Option Input) (input : Input) :
    Gap.skipContinued continuation complete (lineEnd.map (Input.moved bytes)) (input.moved bytes) =
      (Gap.skipContinued continuation complete lineEnd input).map (Input.moved bytes) id := by
  have stop (lineEnd : Option Input) (spaced : Input) :
      (lineEnd.map (Input.moved bytes)).getD (spaced.moved bytes) = (lineEnd.getD spaced).moved bytes := by
    cases lineEnd <;> rfl
  fun_induction Gap.skipContinued continuation complete lineEnd input with
  | case1 lineEnd input spaced atEnd last next found step =>
    rw [Reading.skipContinued_eq, Input.skipSpacing_moved, Input.isClass_moved, if_pos atEnd, blankLine_moved, found]
    dsimp only [Option.map_some]
    rw [stop]
    exact step
  | case2 lineEnd input spaced atEnd last found ends =>
    rw [Reading.skipContinued_eq, Input.skipSpacing_moved, Input.isClass_moved, if_pos atEnd, blankLine_moved, found]
    dsimp only [Option.map_none]
    rw [if_pos ends, stop]
    rfl
  | case3 lineEnd input spaced atEnd last found goesOn eaten =>
    rw [Reading.skipContinued_eq, Input.skipSpacing_moved, Input.isClass_moved, if_pos atEnd, blankLine_moved, found]
    dsimp only [Option.map_none]
    rw [if_neg goesOn, Input.eatWord_moved, eaten, stop]
    rfl
  | case4 lineEnd input spaced atEnd found goesOn next eaten step =>
    rw [Reading.skipContinued_eq, Input.skipSpacing_moved, Input.isClass_moved, if_pos atEnd, blankLine_moved, found]
    dsimp only [Option.map_none]
    rw [if_neg goesOn, Input.eatWord_moved, eaten]
    exact step
  | case5 lineEnd input spaced inside =>
    rw [Reading.skipContinued_eq, Input.skipSpacing_moved, Input.isClass_moved, if_neg inside]
    rfl

theorem skip_moved (options : ParseOptions) (complete : Bool) (input : Input) :
    Gap.skip options complete (input.moved bytes) = (Gap.skip options complete input).map (Input.moved bytes) id := by
  unfold Gap.skip
  split
  · exact skipContinued_moved options.continuation complete none input
  · simp only [Input.skipSpacing_moved, Input.isClass_moved, Input.atEnd_moved, Input.skipWhitespace_moved]
    split
    · rfl
    · split <;> rfl

/-- Both go on from the same place, or neither goes on. -/
theorem skip_beside (options : ParseOptions) (complete : Bool) (same : second = first.moved bytes) :
    (Gap.skip options complete second).1 = (Gap.skip options complete first).1.moved bytes ∧
      (Gap.skip options complete second).2 = (Gap.skip options complete first).2 := by
  subst same
  rw [skip_moved]
  exact ⟨rfl, rfl⟩

/-! Literals. -/

theorem readHex_moves (same : second = first.moved bytes) :
    Moves bytes (Alike bytes) (Literal.readHex first) (Literal.readHex second) := by
  subst same
  unfold Literal.readHex
  dsimp only [Input.rest_moved]
  split
  · exact .ok ⟨rfl, Input.advanceBy_moved ..⟩
  · exact .error _

theorem charOfCode_moves (code : Nat) (same : second = first.moved bytes) :
    Moves bytes (Alike bytes) (Literal.charOfCode code first) (Literal.charOfCode code second) := by
  unfold Literal.charOfCode
  split
  · exact .ok (.here same _)
  · exact .here _ same

theorem readCode_moves (same : second = first.moved bytes) :
    Moves bytes (Alike bytes) (Literal.readCode first) (Literal.readCode second) := by
  unfold Literal.readCode
  refine (readHex_moves same).bind fun high twin alike => ?_
  rw [alike.value]
  split
  · have eaten : twin.rest.eatWord? ['\\', 'u'] = (high.rest.eatWord? ['\\', 'u']).map (Input.moved bytes) := by
      rw [alike.rest, Input.eatWord_moved]
    split
    · rename_i missing
      rw [missing] at eaten
      split
      · exact .here _ alike.rest
      · rename_i found
        cases eaten.symm.trans found
    · rename_i next found
      rw [found] at eaten
      split
      · rename_i missing
        cases eaten.symm.trans missing
      · rename_i follow sought
        cases eaten.symm.trans sought
        refine (readHex_moves rfl).bind fun low other same => ?_
        rw [same.value]
        split
        · exact (charOfCode_moves _ same.rest).bind fun char copy both => .ok (both.widen _ _)
        · exact .here _ same.rest
  · exact (charOfCode_moves _ alike.rest).bind fun char copy both => .ok (both.widen _ _)

theorem readEscape_moves (start : Nat) (same : second = first.moved bytes) :
    Moves bytes (Alike bytes) (Literal.readEscape start first) (Literal.readEscape (bytes + start) second) := by
  subst same
  unfold Literal.readEscape
  simp only [Input.rest_moved]
  split
  · exact .error _
  · split
    · exact (readCode_moves (Input.advance_moved ..)).map fun _ _ alike => alike.widen _ _
    · exact .ok ⟨rfl, Input.advance_moved ..⟩

/-- The start of a string, where it is reported if it does not end, is moved with the text. -/
theorem readChars_moves (quote : Char) (start : Nat) (read : List Char) (first : Input)
    (same : second = first.moved bytes) :
    Moves bytes (Alike bytes) (Literal.readChars quote start read first)
      (Literal.readChars quote (bytes + start) read second) := by
  fun_induction Literal.readChars quote start read first generalizing second with
  | case1 read pos =>
    rw [same, Input.moved, Literal.readChars]
    exact .error ⟨.unterminatedString, start, pos⟩
  | case2 read pos rest next reached =>
    rw [same, Input.moved, Literal.readChars, if_pos rfl]
    exact .ok ⟨rfl, Input.advance_moved bytes ⟨pos, quote :: rest⟩⟩
  | case3 read pos rest next _ reached opened =>
    rename_i step
    rw [same, Input.moved, Literal.readChars, if_neg opened, if_pos rfl]
    have behind := Input.advance_moved bytes ⟨pos, '\\' :: rest⟩
    refine (readEscape_moves start behind).bind fun escaped twin alike => ?_
    dsimp only
    rw [alike.value]
    exact (step escaped alike.rest).bind fun _ _ both => .ok (both.widen _ _)
  | case4 read pos char rest next _ reached opened plain =>
    rename_i step
    rw [same, Input.moved, Literal.readChars, if_neg opened, if_neg plain]
    exact (step (Input.advance_moved bytes ⟨pos, char :: rest⟩)).bind fun _ _ both => .ok (both.widen _ _)

theorem readString_moves (quote : Char) (same : second = first.moved bytes) :
    Moves bytes (Alike bytes) (Literal.readString first quote) (Literal.readString second quote) := by
  subst same
  exact (readChars_moves quote first.pos [] first.advance (Input.advance_moved ..)).bind fun _ _ both =>
    .ok ((both.map String.ofList).widen _ _)

theorem readFraction_moved (input : Input) :
    Literal.readFraction (input.moved bytes) = (Literal.readFraction input).map id (Input.moved bytes) := by
  simp only [Literal.readFraction, Input.isAt_moved, Input.isClassAt_moved, Input.advance_moved,
    Input.takeWhile_moved, Input.dropWhile_moved, apply_ite (Prod.map id (Input.moved bytes)), Prod.map_apply, id]

theorem readExponent_moved (input : Input) :
    Literal.readExponent (input.moved bytes) = (Literal.readExponent input).map id (Input.moved bytes) := by
  simp only [Literal.readExponent, Input.isAt_moved, Input.isClassAt_moved, Input.advanceBy_moved,
    Input.isClass_moved, Input.takeWhile_moved, Input.dropWhile_moved,
    apply_ite (Prod.map id (Input.moved bytes)), Prod.map_apply, id]
  rfl

theorem readNumber_alike (same : second = first.moved bytes) :
    Alike bytes (Literal.readNumber first) (Literal.readNumber second) := by
  subst same
  constructor <;>
    simp only [Literal.readNumber, Input.dropWhile_moved, readFraction_moved, Prod.map_fst, Prod.map_snd,
      readExponent_moved, Input.takeWhile_moved, id]

theorem readWord_alike (same : second = first.moved bytes) :
    Alike bytes (Literal.readWord first) (Literal.readWord second) := by
  subst same
  exact ⟨rfl, Input.dropWhile_moved ..⟩

/-! Operators. -/

/-- An operator and what follows it. -/
def After (bytes : Nat) {mark : Type} (result other : mark × Input) : Prop :=
  other.1 = result.1 ∧ other.2 = result.2.moved bytes

theorem check_moves (options : ParseOptions) (op : Op) {place twin : Input} (same : twin = place.moved bytes) :
    Moves bytes Eq (OperatorReading.check options op place.pos) (OperatorReading.check options op twin.pos) := by
  unfold OperatorReading.check
  split
  · exact .ok rfl
  · exact .here _ same

/-- An operator that may not be used is reported at a place of the text. -/
theorem checked_moves (options : ParseOptions) (op : Op) {mark : Type} (found : mark) {place twin next follow : Input}
    (same : twin = place.moved bytes) (after : follow = next.moved bytes) :
    Moves bytes (Option.Rel (After bytes))
      ((OperatorReading.check options op place.pos).map fun _ => some (found, next))
      ((OperatorReading.check options op twin.pos).map fun _ => some (found, follow)) :=
  (check_moves options op same).map fun _ _ _ => .some ⟨rfl, after⟩

theorem readSymbol_moved (input : Input) :
    OperatorReading.readSymbol? (input.moved bytes) =
      (OperatorReading.readSymbol? input).map (Prod.map id (Input.moved bytes)) := by
  unfold OperatorReading.readSymbol?
  induction OperatorReading.symbols with
  | nil => rfl
  | cons symbol symbols step =>
    obtain ⟨first, more, op⟩ := symbol
    rw [List.findSome?_cons, List.findSome?_cons, step]
    dsimp only
    rw [Input.eatWord_moved]
    cases input.eatWord? (first :: more) <;> rfl

theorem read_moves (options : ParseOptions) (enclosed : Bool) (same : second = first.moved bytes) :
    Moves bytes (Option.Rel (After bytes)) (OperatorReading.read options enclosed first)
      (OperatorReading.read options enclosed second) := by
  subst same
  unfold OperatorReading.read
  rw [readSymbol_moved]
  cases OperatorReading.readSymbol? first with
  | some found => exact checked_moves options found.1 found.1 rfl rfl
  | none =>
    dsimp only [Option.map_none, Input.rest_moved]
    split
    · exact .ok .none
    · split
      · exact checked_moves _ _ _ rfl (Input.advance_moved ..)
      · split
        · exact checked_moves _ _ _ (Input.advance_moved ..) (Input.advance_moved ..)
        · exact .ok .none

theorem readLeading_moves (options : ParseOptions) (same : second = first.moved bytes) :
    Moves bytes (Option.Rel (After bytes)) (OperatorReading.readLeading options first)
      (OperatorReading.readLeading options second) := by
  subst same
  have advanced (op : Op) := checked_moves options op (some op) (Input.advance_moved bytes first)
    (Input.advance_moved bytes first)
  have counted (op : Op) (count : Nat) := checked_moves options op (some op) (Input.advanceBy_moved bytes first count)
    (Input.advanceBy_moved bytes first count)
  unfold OperatorReading.readLeading
  dsimp only [Input.startsWith_moved, Input.isClassAt_moved, Input.isAt_moved]
  refine .ite (counted .declare 3) (.ite (counted .preIncrement 2) (.ite (counted .preDecrement 2) ?_))
  refine .ite (advanced .not) (.ite (advanced .negate) (.ite (advanced .complement) ?_))
  exact .ite (.ok (.some ⟨rfl, Input.advance_moved ..⟩)) (.ok .none)

/-! Operands and rows. -/

theorem readName_moves (same : second = first.moved bytes) :
    Moves bytes (Alike bytes) (Parser.readName first) (Parser.readName second) := by
  have word := readWord_alike same
  unfold Parser.readName
  dsimp only
  rw [word.value]
  split
  · exact .here _ same
  · exact .ok (word.map _)

theorem readNothing_moves (op : Op) (same : second = first.moved bytes) :
    Moves bytes (Alike bytes) (Parser.readValue.nothing op first) (Parser.readValue.nothing op second) := by
  unfold Parser.readValue.nothing
  split
  · exact .ok (.here same _)
  · exact .here _ same

theorem readValue_moves (op : Op) (same : second = first.moved bytes) :
    Moves bytes (Alike bytes) (Parser.readValue op first) (Parser.readValue op second) := by
  have rest : second.rest = first.rest := by rw [same, Input.rest_moved]
  have word := readWord_alike same
  unfold Parser.readValue
  rw [rest]
  split
  · exact readNothing_moves op same
  · split
    · exact (readString_moves _ same).map fun _ _ both => both.map _
    · split
      · exact .ok ((readNumber_alike same).map _)
      · dsimp only
        rw [word.value]
        split
        · exact readNothing_moves op same
        · exact .ok (word.map _)

/-- The end of a row, at the same place of the text. -/
theorem finish_moves (close : Option Char) (tree : Expr) {stop last : Input} (reached : first.Reaches stop)
    (follows : second.Reaches last) (same : last = stop.moved bytes) :
    Moves bytes (Alike bytes) (Reading.finish close tree reached) (Reading.finish close tree follows) := by
  cases close with
  | none => exact .ok ⟨rfl, same⟩
  | some mark => exact .here _ same

mutual

theorem readOperand_moves (options : ParseOptions) (op : Op) (first second : Input)
    (same : second = first.moved bytes) :
    Moves bytes (Alike bytes) (Parser.readOperand options op first) (Parser.readOperand options op second) := by
  have shorter := Gap.size_skip_le options false first
  obtain ⟨gap, goesOn⟩ := skip_beside options false same
  unfold Parser.readOperand
  dsimp only
  rw [goesOn]
  refine .ite (.here _ gap) (.ite ?_ ?_)
  · exact (readName_moves gap).map fun _ _ both => both.widen _ _
  · exact (readLed_moves options op _ _ gap).map fun _ _ both => both.widen _ _
termination_by 8 * first.size + 1
decreasing_by omega

theorem readLed_moves (options : ParseOptions) (op : Op) (first second : Input)
    (same : second = first.moved bytes) :
    Moves bytes (Alike bytes) (Parser.readLed options op first) (Parser.readLed options op second) := by
  have leading := readLeading_moves options same
  generalize found : OperatorReading.readLeading options first = one at leading
  generalize sought : OperatorReading.readLeading options second = other at leading
  cases leading with
  | error error =>
    rw [Reading.readLed_failed found, Reading.readLed_failed sought]
    exact .error error
  | ok both =>
    cases both with
    | none =>
      have rest : second.rest = first.rest := by rw [same, Input.rest_moved]
      have advanced : second.advance = first.advance.moved bytes := by rw [same, Input.advance_moved]
      rw [Reading.readLed_unmarked found, Reading.readLed_unmarked sought, rest]
      split
      · exact readValue_moves op same
      · rename_i begun
        have shorter := Input.size_advance first
        have longer : 0 < first.size := by simp [Input.size, begun]
        split
        · exact readValue_moves op same
        · exact (readGroup_moves options _ _ _ advanced).map fun _ _ both => both.widen _ _
    | @some result twin after =>
      obtain ⟨mark, next⟩ := result
      obtain ⟨copy, follow⟩ := twin
      obtain ⟨rfl, further⟩ := after
      have later := (OperatorReading.passes_of_readLeading found).2
      have shorter := Gap.size_skip_le options false next
      obtain ⟨gap, goesOn⟩ := skip_beside options false further
      obtain ⟨_, one⟩ := Reading.readLed_marked found op
      obtain ⟨_, two⟩ := Reading.readLed_marked sought op
      rw [one, two, goesOn]
      refine .ite (.here _ gap) ?_
      exact (readLed_moves options op _ _ gap).map fun _ _ both => (both.map _).widen _ _
termination_by 8 * first.size
decreasing_by all_goals omega

theorem readGroup_moves (options : ParseOptions) (enclosure : Enclosure) (first second : Input)
    (same : second = first.moved bytes) :
    Moves bytes (Alike bytes) (Parser.readGroup options enclosure first)
      (Parser.readGroup options enclosure second) := by
  have shorter := Gap.size_skip_le options false first
  obtain ⟨gap, goesOn⟩ := skip_beside options false same
  have advanced := (congrArg Input.advance gap).trans (Input.advance_moved ..)
  have inside : Moves bytes (Alike bytes) (do
        let operand ← Parser.readOperand options enclosure.op (Gap.skip options false first).1
        let inner ← Parser.readOperators options (some enclosure.close) operand.value operand.rest
        return (⟨.bracketed enclosure.mark inner.value, inner.rest.advance,
          (Gap.reaches_skip ..).trans (operand.reached.trans (inner.reached.trans (Input.reaches_advance _)))⟩ :
          Parsed Expr first))
      (do
        let operand ← Parser.readOperand options enclosure.op (Gap.skip options false second).1
        let inner ← Parser.readOperators options (some enclosure.close) operand.value operand.rest
        return (⟨.bracketed enclosure.mark inner.value, inner.rest.advance,
          (Gap.reaches_skip ..).trans (operand.reached.trans (inner.reached.trans (Input.reaches_advance _)))⟩ :
          Parsed Expr second)) := by
    refine (readOperand_moves options enclosure.op _ _ gap).bind fun operand twin alike => ?_
    have within := operand.le
    rw [alike.value]
    refine (readOperators_moves options _ operand.value _ _ alike.rest).bind fun inner copy both => .ok ⟨?_, ?_⟩
    · exact congrArg (Expr.bracketed enclosure.mark) both.value
    · exact (congrArg Input.advance both.rest).trans (Input.advance_moved ..)
  have eaten : (Gap.skip options false second).1.eat? enclosure.close =
      ((Gap.skip options false first).1.eat? enclosure.close).map (Input.moved bytes) := by
    rw [gap, Input.eat_moved]
  unfold Parser.readGroup
  dsimp only
  rw [goesOn, eaten]
  refine .ite (.here _ gap) ?_
  cases enclosure.empty? with
  | none => exact inside
  | some empty =>
    cases (Gap.skip options false first).1.eat? enclosure.close with
    | none => exact inside
    | some next => exact .ok ⟨rfl, advanced⟩
termination_by 8 * first.size + 3
decreasing_by all_goals omega

theorem readOperators_moves (options : ParseOptions) (close : Option Char) (tree : Expr) (first second : Input)
    (same : second = first.moved bytes) :
    Moves bytes (Alike bytes) (Parser.readOperators options close tree first)
      (Parser.readOperators options close tree second) := by
  have shorter := Gap.size_skip_le options close.isNone first
  obtain ⟨gap, goesOn⟩ := skip_beside options close.isNone same
  have marked : (close.any fun mark => (Gap.skip options close.isNone second).1.isAt mark) =
      close.any fun mark => (Gap.skip options close.isNone first).1.isAt mark := by
    simp only [gap, Input.isAt_moved]
  have finished := finish_moves close tree (Gap.reaches_skip options close.isNone first)
    (Gap.reaches_skip options close.isNone second) gap
  have operator := read_moves options close.isSome gap
  cases ends : (Gap.skip options close.isNone first).2 with
  | false =>
    rw [Reading.readOperators_ended tree (.inl ends), Reading.readOperators_ended tree (.inl (goesOn.trans ends))]
    exact finished
  | true =>
    cases closed : close.any fun mark => (Gap.skip options close.isNone first).1.isAt mark with
    | true =>
      rw [Reading.readOperators_closed tree ends closed,
        Reading.readOperators_closed tree (goesOn.trans ends) (marked.trans closed)]
      exact .ok ⟨rfl, gap⟩
    | false =>
      have opened := marked.trans closed
      generalize found : OperatorReading.read options close.isSome (Gap.skip options close.isNone first).1 = one
        at operator
      generalize sought : OperatorReading.read options close.isSome (Gap.skip options close.isNone second).1 = other
        at operator
      cases operator with
      | error error =>
        rw [Reading.readOperators_failed tree ends closed found,
          Reading.readOperators_failed tree (goesOn.trans ends) opened sought]
        exact .error error
      | ok both =>
        cases both with
        | none =>
          rw [Reading.readOperators_ended tree (.inr ⟨closed, found⟩),
            Reading.readOperators_ended tree (.inr ⟨opened, sought⟩)]
          exact finished
        | @some result twin after =>
          obtain ⟨op, next⟩ := result
          obtain ⟨copy, follow⟩ := twin
          obtain ⟨rfl, further⟩ := after
          have later := (OperatorReading.passes_of_read found).2
          obtain ⟨_, one⟩ := Reading.readOperators_applied tree ends closed found
          obtain ⟨_, two⟩ := Reading.readOperators_applied tree (goesOn.trans ends) opened sought
          rw [one, two]
          refine (readApplied_moves options tree _ _ _ further).bind fun applied other alike => ?_
          have within : applied.rest.size ≤ next.size := applied.le
          rw [alike.value]
          exact (readOperators_moves options close _ _ _ alike.rest).map fun _ _ both => both.widen _ _
termination_by 8 * first.size + 2
decreasing_by all_goals omega

theorem readApplied_moves (options : ParseOptions) (tree : Expr) (op : Op) (first second : Input)
    (same : second = first.moved bytes) :
    Moves bytes (Alike bytes) (Parser.readApplied options tree op first)
      (Parser.readApplied options tree op second) := by
  unfold Parser.readApplied
  refine .ite (.ok (.here same _)) ?_
  split
  · exact (readOperand_moves options op _ _ same).bind fun _ _ both => .ok (both.map _)
  · refine (readGroup_moves options _ _ _ same).bind fun right twin both => ?_
    have shorter := right.le
    dsimp only
    rw [both.value]
    refine .ite ?_ (.ok ⟨rfl, both.rest⟩)
    exact (readOperand_moves options .alternative _ _ both.rest).bind fun _ _ other =>
      .ok ((other.map _).widen _ _)
termination_by 8 * first.size + 4
decreasing_by all_goals omega

end

/-- An expression is the same wherever it stands in a source, and so is its fault. -/
theorem readExpr_moves (options : ParseOptions) (same : second = first.moved bytes) :
    Moves bytes (Alike bytes) (Parser.readExpr options first) (Parser.readExpr options second) := by
  refine (readOperand_moves options .group _ _ same).bind fun operand twin alike => ?_
  rw [alike.value]
  exact (readOperators_moves options none _ _ _ alike.rest).bind fun _ _ both => .ok (both.widen _ _)

/-- An expression in the middle of a source is what its text is on its own, some bytes later. -/
theorem parseFrom_moves (options : ParseOptions) (input : Input) :
    Moves input.pos (Alike input.pos) (Expr.parse options input.rest) (Expr.parseFrom options input) :=
  readExpr_moves options rfl

end Relocation

/-- Parsing in place is parsing in isolation. Behind any text, an expression is read to the same tree as without
it and ends as many bytes later as that text is long, or there is the same fault, and the places where it is
reported and where reading is given up are as many bytes later. -/
theorem Expr.parseAt_append (options : ParseOptions) (before text : List Char) :
    (∃ tree stop, parseAt options text 0 = .ok (tree, stop) ∧
      parseAt options (before ++ text) (byteLength before) = .ok (tree, byteLength before + stop)) ∨
    ∃ fault offset reached, parseAt options text 0 = .error ⟨fault, offset, reached⟩ ∧
      parseAt options (before ++ text) (byteLength before) =
        .error ⟨fault, byteLength before + offset, byteLength before + reached⟩ := by
  have inside : min (byteLength before) (byteLength (before ++ text)) = byteLength before := by
    rw [byteLength_append]
    omega
  have alone : parseAt options text 0 =
      (parse options text).map fun parsed => (parsed.value, parsed.rest.pos) := by
    rw [parseAt, Nat.zero_min, dropBytes?]
    rfl
  have placed : parseAt options (before ++ text) (byteLength before) =
      (parseFrom options ⟨byteLength before, text⟩).map fun parsed => (parsed.value, parsed.rest.pos) := by
    rw [parseAt, inside, dropBytes?_append]
  have moves := Relocation.parseFrom_moves options ⟨byteLength before, text⟩
  rw [alone, placed]
  generalize parse options text = one at moves
  generalize parseFrom options ⟨byteLength before, text⟩ = other at moves
  cases moves with
  | @ok parsed twin alike =>
    refine .inl ⟨parsed.value, parsed.rest.pos, rfl, ?_⟩
    rw [Except.map, alike.value, alike.rest, Input.pos_moved]
  | error error => exact .inr ⟨error.fault, error.offset, error.reached, rfl, rfl⟩

end HtmlTemplate
