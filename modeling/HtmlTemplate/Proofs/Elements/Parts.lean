import HtmlTemplate.Proofs.Arena.Shapes
import HtmlTemplate.Proofs.Elements.Gaps

/-! Literals, words and operators in a text that goes on with the mark after an element: what is read without the
mark is read with it. -/

namespace HtmlTemplate

/-- The options for an expression that ends at every separator outside of brackets. Those for scripts and for lines
of markup do anyway. -/
def ParseOptions.separated (options : ParseOptions) : ParseOptions :=
  { options with stops := { options.stops with colon := true, comma := true, semicolon := true } }

namespace Elements

open CharClass Reading

/-- What one reader finds, the other one finds, too. -/
def Again {α β : Type} (values : α → β → Prop) (program : Except ParseError α) (other : Except ParseError β) :
    Prop :=
  ∀ x, program = .ok x → ∃ y, other = .ok y ∧ values x y

namespace Again

variable {α β γ δ : Type} {values : α → β → Prop} {program : Except ParseError α} {other : Except ParseError β}

theorem ok {x : α} {y : β} (related : values x y) : Again values (.ok x) (.ok y) := by
  rintro _ ⟨⟩
  exact ⟨y, rfl, related⟩

theorem error {fault : ParseError} : Again values (.error fault) other := by
  rintro _ ⟨⟩

theorem bind {results : γ → δ → Prop} {next : α → Except ParseError γ} {follow : β → Except ParseError δ}
    (again : Again values program other) (goesOn : ∀ x y, values x y → Again results (next x) (follow y)) :
    Again results (program >>= next) (other >>= follow) := by
  intro result read
  obtain ⟨x, found, read⟩ := bind_eq_ok.mp read
  obtain ⟨y, sought, related⟩ := again x found
  obtain ⟨twin, read, results⟩ := goesOn x y related result read
  exact ⟨twin, bind_eq_ok.mpr ⟨y, sought, read⟩, results⟩

theorem map {results : γ → δ → Prop} {change : α → γ} {alter : β → δ} (again : Again values program other)
    (goesOn : ∀ x y, values x y → results (change x) (alter y)) :
    Again results (program.map change) (other.map alter) := by
  intro result read
  cases program with
  | error fault => cases read
  | ok x =>
    cases read
    obtain ⟨y, sought, related⟩ := again x rfl
    rw [sought]
    exact ⟨_, rfl, goesOn x y related⟩

end Again

/-- Up to a change, the same has been found, and one input goes on where the other one ends. -/
structure Kept {α β : Type} (tail : List Char) (change : α → β) {first second : Input} (x : Parsed α first)
    (y : Parsed β second) : Prop where
  value : y.value = change x.value
  rest : Extends tail x.rest y.rest

variable {tail : List Char} {first second : Input}

/-! Strings and numbers. -/

section

variable (further : Extends tail first second)
include further

theorem readHex_again : Again (Kept tail id) (Literal.readHex first) (Literal.readHex second) := by
  unfold Literal.readHex
  dsimp only
  split
  · rename_i digits
    have within : 4 ≤ first.size := by
      have length := digits.1
      rw [List.length_take] at length
      exact Nat.le_of_eq length.symm |>.trans (Nat.min_le_right ..)
    have same : second.rest.take 4 = first.rest.take 4 := by
      rw [further, List.take_append_of_le_length within]
    rw [same, if_pos digits]
    exact .ok ⟨rfl, further.advanceBy within⟩
  · exact .error

theorem charOfCode_again (code : Nat) :
    Again (Kept tail id) (Literal.charOfCode code first) (Literal.charOfCode code second) := by
  unfold Literal.charOfCode
  split
  · exact .ok ⟨rfl, further⟩
  · exact .error

theorem readCode_again : Again (Kept tail id) (Literal.readCode first) (Literal.readCode second) := by
  unfold Literal.readCode
  refine .bind (readHex_again further) fun high twin kept => ?_
  rw [kept.value]
  dsimp only [id]
  split
  · split
    · exact .error
    · rename_i next eaten
      obtain ⟨follow, again, after⟩ := kept.rest.eatWord_some eaten
      split
      · rename_i other
        cases again.symm.trans other
      · rename_i other
        cases again.symm.trans other
        refine .bind (readHex_again after) fun low copy alike => ?_
        rw [alike.value]
        dsimp only [id]
        split
        · exact .bind (charOfCode_again alike.rest _) fun char copy found => .ok ⟨found.value, found.rest⟩
        · exact .error
  · exact .bind (charOfCode_again kept.rest _) fun char copy found => .ok ⟨found.value, found.rest⟩

theorem readEscape_again (start stop : Nat) :
    Again (Kept tail id) (Literal.readEscape start first) (Literal.readEscape stop second) := by
  unfold Literal.readEscape
  split
  · exact .error
  · rename_i char text eq
    have advanced := further.advance (by rw [eq]; exact List.cons_ne_nil _ _)
    rw [further, eq, List.cons_append]
    dsimp only
    split
    · exact .map (readCode_again advanced) fun code copy kept => ⟨kept.value, kept.rest⟩
    · exact .ok ⟨rfl, advanced⟩

end

theorem readChars_again (quote : Char) (start stop : Nat) (read : List Char) {first second : Input}
    (further : Extends tail first second) :
    Again (Kept tail id) (Literal.readChars quote start read first) (Literal.readChars quote stop read second) := by
  fun_induction Literal.readChars quote start read first generalizing second with
  | case1 => exact .error
  | case2 read pos rest next _ =>
    obtain ⟨place, text⟩ := second
    obtain rfl : text = quote :: (rest ++ tail) := further
    rw [Literal.readChars, if_pos rfl]
    exact .ok ⟨rfl, rfl⟩
  | case3 read pos rest next _ _ inside =>
    rename_i step
    obtain ⟨place, text⟩ := second
    obtain rfl : text = '\\' :: (rest ++ tail) := further
    rw [Literal.readChars, if_neg inside, if_pos rfl]
    have after : Extends tail next (Input.advance ⟨place, '\\' :: (rest ++ tail)⟩) := rfl
    refine .bind (readEscape_again after start stop) fun char twin kept => ?_
    obtain ⟨value, after⟩ := kept
    rw [value]
    exact .bind (step char after) fun text copy found => .ok ⟨found.value, found.rest⟩
  | case4 read pos char rest next _ _ inside plain =>
    rename_i step
    obtain ⟨place, text⟩ := second
    obtain rfl : text = char :: (rest ++ tail) := further
    rw [Literal.readChars, if_neg inside, if_neg plain]
    exact .bind (step rfl) fun text copy found => .ok ⟨found.value, found.rest⟩

section

variable (further : Extends tail first second)
include further

theorem readString_again (begun : first.rest ≠ []) (quote : Char) :
    Again (Kept tail id) (Literal.readString first quote) (Literal.readString second quote) := by
  unfold Literal.readString
  refine .bind (readChars_again quote first.pos second.pos [] (further.advance begun)) fun text copy kept => ?_
  exact .ok ⟨congrArg String.ofList kept.value, kept.rest⟩

variable (closes : Closes tail)
include closes

theorem isAt_eq {char : Char} (plain : char ∉ closers) : second.isAt char = first.isAt char :=
  further.isClass (closes.apart fun _ member => beq_eq_false_iff_ne.mpr fun same => plain (same ▸ member))

theorem readFraction_extends : (Literal.readFraction second).1 = (Literal.readFraction first).1 ∧
    Extends tail (Literal.readFraction first).2 (Literal.readFraction second).2 := by
  have digits : Apart isDigit tail := closes.apart (by decide)
  unfold Literal.readFraction
  rw [isAt_eq further closes (by decide)]
  cases point : first.isAt '.' with
  | false => exact ⟨rfl, further⟩
  | true =>
    have begun := Input.rest_ne_nil_of_isClass point
    have after := further.advance begun
    rw [further.isClassAt digits (List.length_pos_iff.mpr begun)]
    split
    · exact ⟨congrArg some (after.takeWhile digits), after.dropWhile digits⟩
    · exact ⟨rfl, further⟩

theorem readExponent_extends : (Literal.readExponent second).1 = (Literal.readExponent first).1 ∧
    Extends tail (Literal.readExponent first).2 (Literal.readExponent second).2 := by
  have digits : Apart isDigit tail := closes.apart (by decide)
  unfold Literal.readExponent
  rw [isAt_eq further closes (by decide), isAt_eq further closes (by decide)]
  split
  · rename_i letter
    have begun : first.rest ≠ [] := by
      rcases Bool.or_eq_true_iff.mp letter with letter | letter <;> exact Input.rest_ne_nil_of_isClass letter
    have within : 1 ≤ first.size := List.length_pos_iff.mpr begun
    have signs : Apart (fun char => char == '+' || char == '-') tail := closes.apart (by decide)
    have minus : Apart (· == '-') tail := closes.apart (by decide)
    dsimp only
    rw [further.isClassAt signs within, further.isClassAt minus within]
    generalize count : (if first.isClassAt (fun char => char == '+' || char == '-') 1 = true then 2 else 1) = skipped
    have bound : skipped ≤ first.size := by
      split at count
      · rename_i signed
        obtain ⟨sign, found, -⟩ := (Option.any_eq_true ..).mp signed
        exact count ▸ (List.getElem?_eq_some_iff.mp found).1
      · exact count ▸ within
    have after := further.advanceBy bound
    rw [after.isClass digits]
    split
    · exact ⟨by rw [after.takeWhile digits], after.dropWhile digits⟩
    · exact ⟨rfl, further⟩
  · exact ⟨rfl, further⟩

theorem readNumber_kept : Kept tail id (Literal.readNumber first) (Literal.readNumber second) := by
  have digits : Apart isDigit tail := closes.apart (by decide)
  obtain ⟨fraction, rest⟩ := readFraction_extends (further.dropWhile digits) closes
  obtain ⟨exponent, rest⟩ := readExponent_extends rest closes
  refine ⟨?_, rest⟩
  change Literal.numberValue _ _ _ = Literal.numberValue _ _ _
  rw [further.takeWhile digits, fraction, exponent]

theorem readWord_kept : Kept tail id (Literal.readWord first) (Literal.readWord second) :=
  ⟨congrArg String.ofList (further.takeWhile (closes.apart (by decide))), further.dropWhile (closes.apart (by decide))⟩

end

/-! Operators. -/

/-- The same has been found in front of two inputs of which one goes on where the other one ends. -/
def Passed {α : Type} (tail : List Char) (x y : α × Input) : Prop := y.1 = x.1 ∧ Extends tail x.2 y.2

theorem check_again {α β : Type} {values : α → β → Prop} {one two : ParseOptions}
    (same : two.operators = one.operators) (op : Op) (pos place : Nat) {x : α} {y : β} (related : values x y) :
    Again values ((OperatorReading.check one op pos).map fun _ => x)
      ((OperatorReading.check two op place).map fun _ => y) := by
  unfold OperatorReading.check
  rw [same]
  split
  · exact .ok related
  · exact .error

section

variable (further : Extends tail first second) (closes : Closes tail)
include further closes

theorem readLeading_again {one two : ParseOptions} (same : two.operators = one.operators) :
    Again (Option.Rel (Passed tail)) (OperatorReading.readLeading one first)
      (OperatorReading.readLeading two second) := by
  have word {word : List Char} (starts : first.startsWith word = true) (op : Op) :
      Again (Option.Rel (Passed tail))
        ((OperatorReading.check one op (first.advanceBy word.length).pos).map
          fun _ => some (some op, first.advanceBy word.length))
        ((OperatorReading.check two op (second.advanceBy word.length).pos).map
          fun _ => some (some op, second.advanceBy word.length)) :=
    check_again same op _ _ (.some ⟨rfl, further.advanceBy (Input.length_le_of_startsWith starts)⟩)
  have mark {char : Char} (found : first.isAt char = true) (op : Op) : Again (Option.Rel (Passed tail))
        ((OperatorReading.check one op first.advance.pos).map fun _ => some (some op, first.advance))
        ((OperatorReading.check two op second.advance.pos).map fun _ => some (some op, second.advance)) :=
    check_again same op _ _ (.some ⟨rfl, further.advance (Input.rest_ne_nil_of_isClass found)⟩)
  have declares : (second.startsWith ['v', 'a', 'r'] && second.isClassAt isSpacing 3) =
      (first.startsWith ['v', 'a', 'r'] && first.isClassAt isSpacing 3) := by
    rw [further.startsWith (closes.plain (by decide))]
    cases starts : first.startsWith ['v', 'a', 'r'] with
    | false => rfl
    | true =>
      have within : 3 ≤ first.size := Input.length_le_of_startsWith starts
      rw [further.isClassAt (closes.apart (by decide)) within]
  unfold OperatorReading.readLeading
  dsimp only
  rw [declares, further.startsWith (closes.plain (by decide)), further.startsWith (closes.plain (by decide)),
    isAt_eq further closes (by decide), isAt_eq further closes (by decide), isAt_eq further closes (by decide),
    isAt_eq further closes (by decide)]
  split
  · rename_i starts
    exact word (Bool.and_eq_true_iff.mp starts).1 .declare
  split
  · rename_i starts
    exact word starts .preIncrement
  split
  · rename_i starts
    exact word starts .preDecrement
  split
  · rename_i found
    exact mark found .not
  split
  · rename_i found
    exact mark found .negate
  split
  · rename_i found
    exact mark found .complement
  split
  · rename_i found
    exact .ok (.some ⟨rfl, further.advance (Input.rest_ne_nil_of_isClass found)⟩)
  · exact .ok .none

theorem eatWord_passed {α : Type} (value : α) {word : List Char} (plain : Unclosed word) :
    Option.Rel (Passed tail) ((first.eatWord? word).map (value, ·)) ((second.eatWord? word).map (value, ·)) := by
  have eaten := further.eatWord (closes.plain plain)
  generalize first.eatWord? word = found at eaten
  generalize second.eatWord? word = sought at eaten
  cases eaten with
  | none => exact .none
  | some after => exact .some ⟨rfl, after⟩

theorem readSymbol_rel : Option.Rel (Passed tail) (OperatorReading.readSymbol? first)
    (OperatorReading.readSymbol? second) := by
  have words : ∀ symbol ∈ OperatorReading.symbols, Unclosed (symbol.1 :: symbol.2.1) := by decide
  exact findSome_rel _ fun symbol member => eatWord_passed further closes _ (words symbol member)

end

/-! Words and operators where every separator ends an expression. -/

variable {options : ParseOptions} {enclosed : Bool} {op : Op} {next : Input}

theorem separator_separated (char : Char) :
    OperatorReading.separator? options.separated.stops enclosed char =
      if enclosed then OperatorReading.separator? options.stops true char else none := by
  cases enclosed with
  | true => rfl
  | false => simp [OperatorReading.separator?, ParseOptions.separated]

/-- In brackets, every separator is one that would separate expressions. -/
theorem separates_separated {options : ParseOptions} {enclosed : Bool} (char : Char) (op : Op)
    (separates : OperatorReading.separator? options.separated.stops enclosed char = some op) :
    OperatorReading.separator? options.stops true char = some op := by
  rw [separator_separated] at separates
  split at separates
  · exact separates
  · cases separates

/-- In brackets, it does not matter what would end an expression outside of them. -/
theorem separates_enclosed {one two : ParseOptions} (char : Char) (op : Op)
    (separates : OperatorReading.separator? one.stops true char = some op) :
    OperatorReading.separator? two.stops true char = some op := by
  rw [← separates]
  simp [OperatorReading.separator?]

/-- An operator is found in the text that goes on, too, if every separator still separates. -/
theorem read_extends {one two : ParseOptions} {inside : Bool} (same : two.operators = one.operators)
    (separates : ∀ char op, OperatorReading.separator? one.stops enclosed char = some op →
      OperatorReading.separator? two.stops inside char = some op)
    (further : Extends tail first second) (closes : Closes tail)
    (found : OperatorReading.read one enclosed first = .ok (some (op, next))) :
    ∃ follow, OperatorReading.read two inside second = .ok (some (op, follow)) ∧ Extends tail next follow := by
  have symbols := readSymbol_rel further closes
  have checked {instead : Op} {place after : Input} (pos other : Nat) (passed : Extends tail place after)
      (found : (OperatorReading.check one instead pos).map (fun _ => some (instead, place)) =
        .ok (some (op, next))) :
      ∃ follow, (OperatorReading.check two instead other).map (fun _ => some (instead, after)) =
        .ok (some (op, follow)) ∧ Extends tail next follow := by
    unfold OperatorReading.check at found ⊢
    rw [same]
    split at found
    · rename_i allowed
      cases found
      exact ⟨after, by rw [if_pos allowed]; rfl, passed⟩
    · cases found
  unfold OperatorReading.read at found ⊢
  generalize OperatorReading.readSymbol? first = symbol at found symbols
  generalize OperatorReading.readSymbol? second = sought at symbols
  cases symbols with
  | @some x y passed =>
    obtain ⟨recognised, place⟩ := x
    obtain ⟨twin, after⟩ := y
    obtain ⟨same, passed⟩ := passed
    obtain rfl : twin = recognised := same
    exact checked _ _ passed found
  | none =>
    dsimp only at found ⊢
    split at found
    · cases found
    · rename_i char text eq
      have advanced := further.advance (by rw [eq]; exact List.cons_ne_nil _ _)
      rw [further, eq, List.cons_append]
      dsimp only
      split at found
      · exact checked _ _ advanced found
      · split at found
        · rename_i recognised single
          have still : (OperatorReading.single? char).or (OperatorReading.separator? two.stops inside char) =
              some recognised := by
            rw [Option.or_eq_some_iff] at single ⊢
            exact single.imp_right fun ⟨other, separated⟩ => ⟨other, separates char recognised separated⟩
          rw [still]
          exact checked _ _ advanced found
        · cases found

theorem readSymbol_none {char : Char} {text : List Char} (eq : first.rest = char :: text)
    (others : ∀ symbol ∈ OperatorReading.symbols, char ≠ symbol.1) : OperatorReading.readSymbol? first = none := by
  refine List.findSome?_eq_none_iff.mpr fun symbol member => ?_
  simp [Input.eatWord?, Input.startsWith, eq, List.isPrefixOf, (others symbol member).symm]

/-- What closes brackets is no operator. -/
theorem not_isAt_of_read (found : OperatorReading.read options enclosed first = .ok (some (op, next))) {mark : Char}
    (closes : mark ∈ [']', ')']) : first.isAt mark = false := by
  rw [Bool.eq_false_iff]
  intro here
  obtain ⟨char, text, eq⟩ := List.exists_cons_of_ne_nil (Input.rest_ne_nil_of_isClass here)
  obtain rfl : char = mark := by
    rw [Input.isAt, isClass_eq eq] at here
    exact beq_iff_eq.mp here
  have noSymbol : OperatorReading.readSymbol? first = none :=
    readSymbol_none eq (by fin_cases closes <;> decide)
  have nothing : OperatorReading.read options enclosed first = .ok none := by
    rw [OperatorReading.read, noSymbol, eq]
    fin_cases closes <;> cases enclosed <;> rfl
  cases found.symm.trans nothing

theorem opening_strong {char : Char} (opens : OperatorReading.opening? char = some op) :
    op.priority < Op.priority .comma := by
  unfold OperatorReading.opening? at opens
  repeat' split at opens
  all_goals cases opens
  all_goals decide

theorem single_strong {char : Char} (single : OperatorReading.single? char = some op) :
    op.priority < Op.priority .comma := by
  unfold OperatorReading.single? at single
  repeat' split at single
  all_goals cases single
  all_goals decide

/-- No operator that is read outside of brackets separates elements. -/
theorem strong_of_read (found : OperatorReading.read options.separated false first = .ok (some (op, next))) :
    op.priority < Op.priority .comma := by
  unfold OperatorReading.read at found
  split at found
  · rename_i recognised
    have symbols : ∀ symbol ∈ OperatorReading.symbols, symbol.2.2.priority < Op.priority .comma := by decide
    obtain ⟨symbol, member, eaten⟩ := List.exists_of_findSome?_eq_some recognised
    obtain ⟨_, _, same⟩ := Option.map_eq_some_iff.mp eaten
    cases same
    cases of_check found
    exact symbols symbol member
  · split at found
    · cases found
    · split at found
      · rename_i opens
        cases of_check found
        exact opening_strong opens
      · rw [separator_separated] at found
        split at found
        · rename_i single
          rw [if_neg Bool.false_ne_true, Option.or_none] at single
          cases of_check found
          exact single_strong single
        · cases found

end Elements

end HtmlTemplate
