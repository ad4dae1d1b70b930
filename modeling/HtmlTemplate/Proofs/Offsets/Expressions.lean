import HtmlTemplate.Expr.Parser

/-! Where the faults of expressions are reported: at places of the text that is read, never inside of a
character or past the end. -/

namespace HtmlTemplate

namespace Input

/-- At the offset is a place of the text that is left, or its end. -/
def Ahead (start : Input) (offset : Nat) : Prop := ∃ place, start.Reaches place ∧ place.pos = offset

theorem Reaches.ahead {start place : Input} (reached : start.Reaches place) : start.Ahead place.pos :=
  ⟨place, reached, rfl⟩

end Input

namespace Offsets

/-- A reader of expressions that fails reports a place that comes after another one, and so does the place at
which it gives up. -/
def Tells {α : Type} (origin : Input) : Except ParseError α → Prop
  | .ok _ => True
  | .error error => origin.Ahead error.offset ∧ origin.Ahead error.reached

namespace Tells

variable {α β : Type} {origin : Input}

theorem here {place : Input} (reached : origin.Reaches place) (fault : ParseFault) :
    Tells origin (.error (.here fault place.pos) : Except ParseError α) :=
  ⟨reached.ahead, reached.ahead⟩

theorem bind {program : Except ParseError α} {next : α → Except ParseError β} (tells : Tells origin program)
    (goesOn : ∀ value, program = .ok value → Tells origin (next value)) :
    Tells origin (program >>= next) := by
  cases program with
  | error error => exact tells
  | ok value => exact goesOn value rfl

theorem map {program : Except ParseError α} (tells : Tells origin program) (change : α → β) :
    Tells origin (program.map change) := by
  cases program with
  | error error => exact tells
  | ok value => trivial

theorem of_eq {program : Except ParseError α} (tells : Tells origin program) {error : ParseError}
    (failed : program = .error error) : origin.Ahead error.offset ∧ origin.Ahead error.reached := by
  rw [failed] at tells
  exact tells

end Tells

variable {origin : Input}

/-! Literals. -/

theorem readHex_tells {input : Input} (reached : origin.Reaches input) :
    Tells origin (Literal.readHex input) := by
  unfold Literal.readHex
  dsimp only
  split
  · trivial
  · exact .here reached _

theorem charOfCode_tells (code : Nat) {input : Input} (reached : origin.Reaches input) :
    Tells origin (Literal.charOfCode code input) := by
  unfold Literal.charOfCode
  split
  · trivial
  · exact .here reached _

theorem readCode_tells {input : Input} (reached : origin.Reaches input) :
    Tells origin (Literal.readCode input) := by
  unfold Literal.readCode
  refine .bind (readHex_tells reached) fun high _ => ?_
  have highReached := reached.trans high.reached
  split
  · split
    · exact .here highReached _
    · rename_i next found
      have nextReached := highReached.trans (Input.reaches_of_eatWord? found)
      refine .bind (readHex_tells nextReached) fun low _ => ?_
      have lowReached := nextReached.trans low.reached
      generalize 0x10000 + (high.value - 0xD800) * 1024 + (low.value - 0xDC00) = code
      split
      · exact .bind (charOfCode_tells code lowReached) fun _ _ => trivial
      · exact .here lowReached _
  · exact .bind (charOfCode_tells _ highReached) fun _ _ => trivial

theorem readEscape_tells {start : Nat} (begun : origin.Ahead start) {input : Input}
    (reached : origin.Reaches input) : Tells origin (Literal.readEscape start input) := by
  unfold Literal.readEscape
  split
  · exact ⟨begun, reached.ahead⟩
  · dsimp only
    split
    · exact .map (readCode_tells (reached.trans (Input.reaches_advance _))) _
    · trivial

/-- A string that does not end is reported where it begins. -/
theorem readChars_tells (quote : Char) {start : Nat} (begun : origin.Ahead start) (read : List Char)
    (input : Input) (reached : origin.Reaches input) :
    Tells origin (Literal.readChars quote start read input) := by
  fun_induction Literal.readChars quote start read input with
  | case1 => exact ⟨begun, reached.ahead⟩
  | case2 => trivial
  | case3 read pos rest next _ further _ step =>
    have nextReached := reached.trans further
    refine .bind (readEscape_tells begun nextReached) fun escaped _ => ?_
    exact .bind (step escaped (nextReached.trans escaped.reached)) fun _ _ => trivial
  | case4 read pos char rest next _ further _ _ step =>
    exact .bind (step (reached.trans further)) fun _ _ => trivial

theorem readString_tells {input : Input} (reached : origin.Reaches input) (quote : Char) :
    Tells origin (Literal.readString input quote) :=
  .bind (readChars_tells quote reached.ahead [] _ (reached.trans (Input.reaches_advance _)))
    fun _ _ => trivial

/-! Operators. -/

theorem check_tells (options : ParseOptions) (op : Op) {place : Input} (reached : origin.Reaches place) :
    Tells origin (OperatorReading.check options op place.pos) := by
  unfold OperatorReading.check
  split
  · trivial
  · exact .here reached _

theorem readOperator_tells (options : ParseOptions) (enclosed : Bool) {input : Input}
    (reached : origin.Reaches input) : Tells origin (OperatorReading.read options enclosed input) := by
  have advanced := reached.trans (Input.reaches_advance input)
  unfold OperatorReading.read
  split
  · rename_i recognised
    exact .map (check_tells _ _ (reached.trans (OperatorReading.passes_of_readSymbol? recognised).1)) _
  · split
    · trivial
    · split
      · exact .map (check_tells _ _ reached) _
      · split
        · exact .map (check_tells _ _ advanced) _
        · trivial

theorem readLeading_tells (options : ParseOptions) {input : Input} (reached : origin.Reaches input) :
    Tells origin (OperatorReading.readLeading options input) := by
  have advanced := reached.trans (Input.reaches_advance input)
  have counted (count : Nat) := reached.trans (Input.reaches_advanceBy count input)
  unfold OperatorReading.readLeading
  dsimp only
  split
  · exact .map (check_tells _ _ (counted 3)) _
  · split
    · exact .map (check_tells _ _ (counted 2)) _
    · split
      · exact .map (check_tells _ _ (counted 2)) _
      · split
        · exact .map (check_tells _ _ advanced) _
        · split
          · exact .map (check_tells _ _ advanced) _
          · split
            · exact .map (check_tells _ _ advanced) _
            · split <;> trivial

/-! Operands and expressions. -/

theorem readName_tells {input : Input} (reached : origin.Reaches input) :
    Tells origin (Parser.readName input) := by
  unfold Parser.readName
  dsimp only
  split
  · exact .here reached _
  · trivial

theorem readValue_tells (op : Op) {input : Input} (reached : origin.Reaches input) :
    Tells origin (Parser.readValue op input) := by
  have nothing : Tells origin (Parser.readValue.nothing op input) := by
    unfold Parser.readValue.nothing
    split
    · trivial
    · exact .here reached _
  unfold Parser.readValue
  split
  · exact nothing
  · split
    · exact .map (readString_tells reached _) _
    · split
      · trivial
      · dsimp only
        split
        · exact nothing
        · trivial

mutual

theorem readOperand_tells (options : ParseOptions) (op : Op) (input : Input)
    (reached : origin.Reaches input) : Tells origin (Parser.readOperand options op input) := by
  have gapReached := Gap.reaches_skip options false input
  have shorter := gapReached.size_le
  have after := reached.trans gapReached
  unfold Parser.readOperand
  dsimp only
  split
  · exact .here after _
  · split
    · exact .map (readName_tells after) _
    · exact .map (readLed_tells options op _ after) _
termination_by 8 * input.size + 1
decreasing_by omega

theorem readLed_tells (options : ParseOptions) (op : Op) (input : Input)
    (reached : origin.Reaches input) : Tells origin (Parser.readLed options op input) := by
  have leading := readLeading_tells options reached
  unfold Parser.readLed
  split
  · rename_i failed
    exact leading.of_eq failed
  · rename_i next found
    have later := OperatorReading.passes_of_readLeading found
    have gapReached := Gap.reaches_skip options false next
    have shorter := later.2
    have shorter := gapReached.size_le
    have after := reached.trans (later.1.trans gapReached)
    dsimp only
    split
    · exact .here after _
    · exact .bind (readLed_tells options op _ after) fun _ _ => trivial
  · split
    · exact readValue_tells op reached
    · rename_i opened
      have shorter := Input.size_advance input
      have longer : 0 < input.size := by simp [Input.size, opened]
      split
      · exact .bind (readGroup_tells options _ _ (reached.trans (Input.reaches_advance _)))
          fun _ _ => trivial
      · exact readValue_tells op reached
termination_by 8 * input.size
decreasing_by all_goals omega

theorem readGroup_tells (options : ParseOptions) (enclosure : Enclosure) (input : Input)
    (reached : origin.Reaches input) : Tells origin (Parser.readGroup options enclosure input) := by
  have gapReached := Gap.reaches_skip options false input
  have shorter := gapReached.size_le
  have after := reached.trans gapReached
  unfold Parser.readGroup
  dsimp only
  split
  · exact .here after _
  · split
    · trivial
    · refine .bind (readOperand_tells options _ _ after) fun first _ => ?_
      have firstShorter := first.le
      exact .bind (readOperators_tells options _ _ _ (after.trans first.reached)) fun _ _ => trivial
termination_by 8 * input.size + 3
decreasing_by all_goals omega

theorem readOperators_tells (options : ParseOptions) (close : Option Char) (tree : Expr) (input : Input)
    (reached : origin.Reaches input) :
    Tells origin (Parser.readOperators options close tree input) := by
  have gapReached := Gap.reaches_skip options close.isNone input
  have shorter := gapReached.size_le
  have after := reached.trans gapReached
  have operator := readOperator_tells options close.isSome after
  unfold Parser.readOperators
  dsimp only
  split
  · split
    · trivial
    · exact .here after _
  · split
    · trivial
    · split
      · rename_i failed
        exact operator.of_eq failed
      · split
        · trivial
        · exact .here after _
      · rename_i op next found
        have later := OperatorReading.passes_of_read found
        have nextShorter := later.2
        have nextReached := after.trans later.1
        refine .bind (readApplied_tells options tree op next nextReached) fun applied _ => ?_
        have appliedShorter := applied.le
        exact .bind (readOperators_tells options close _ _ (nextReached.trans applied.reached))
          fun _ _ => trivial
termination_by 8 * input.size + 2
decreasing_by all_goals omega

theorem readApplied_tells (options : ParseOptions) (tree : Expr) (op : Op) (input : Input)
    (reached : origin.Reaches input) : Tells origin (Parser.readApplied options tree op input) := by
  unfold Parser.readApplied
  split
  · trivial
  · split
    · exact .bind (readOperand_tells options op input reached) fun _ _ => trivial
    · refine .bind (readGroup_tells options _ input reached) fun right _ => ?_
      have shorter := right.le
      dsimp only
      split
      · exact .bind (readOperand_tells options _ _ (reached.trans right.reached)) fun _ _ => trivial
      · trivial
termination_by 8 * input.size + 4
decreasing_by all_goals omega

end

theorem readExpr_tells (options : ParseOptions) {input : Input} (reached : origin.Reaches input) :
    Tells origin (Parser.readExpr options input) :=
  .bind (readOperand_tells options .group input reached) fun first _ =>
    .bind (readOperators_tells options none _ _ (reached.trans first.reached)) fun _ _ => trivial

/-- The fault of an expression in the middle of a source is reported at a place of the source. -/
theorem parseFrom_tells (options : ParseOptions) {input : Input} (reached : origin.Reaches input) :
    Tells origin (Expr.parseFrom options input) :=
  readExpr_tells options reached

end Offsets

end HtmlTemplate
