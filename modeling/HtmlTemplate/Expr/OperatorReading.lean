import HtmlTemplate.Text.Input
import HtmlTemplate.Expr.Fault
import HtmlTemplate.Expr.Options

/-! Recognising the operator at the start of an input. -/

namespace HtmlTemplate.OperatorReading

open CharClass

/-- Operators that are known by their first characters, longer spellings before shorter
ones that they begin with. -/
def symbols : List (Char × List Char × Op) :=
  [('+', ['='], .addAssign), ('-', ['='], .subtractAssign), ('*', ['='], .multiplyAssign),
    ('/', ['='], .divideAssign), ('%', ['='], .remainderAssign),
    ('<', ['<', '='], .shiftLeftAssign), ('>', ['>', '='], .shiftRightAssign),
    ('&', ['='], .andAssign), ('^', ['='], .xorAssign), ('|', ['='], .orAssign),
    ('&', ['&'], .and), ('|', ['|'], .or), ('+', ['+'], .postIncrement),
    ('-', ['-'], .postDecrement), ('<', ['<'], .shiftLeft), ('>', ['>'], .shiftRight),
    ('<', ['='], .lessEq), ('>', ['='], .greaterEq), ('=', ['='], .equal),
    ('!', ['='], .notEqual), (':', [':'], .scope), ('=', [], .assign), ('#', [], .sharp),
    ('.', [], .member)]

/-- Operators of one character that no longer spelling has claimed. -/
def single? (char : Char) : Option Op :=
  if char = '*' then some .multiply
  else if char = '/' then some .divide
  else if char = '%' then some .remainder
  else if char = '+' then some .add
  else if char = '-' then some .subtract
  else if char = '<' then some .less
  else if char = '>' then some .greater
  else if char = '&' then some .bitAnd
  else if char = '^' then some .bitXor
  else if char = '|' then some .bitOr
  else none

/-- Separators. Outside of brackets they may end the expression instead. -/
def separator? (stops : Stops) (enclosed : Bool) (char : Char) : Option Op :=
  if char = ':' && (enclosed || !stops.colon) then some .colon
  else if char = ',' && (enclosed || !stops.comma) then some .comma
  else if char = ';' && (enclosed || !stops.semicolon) then some .sequence
  else none

/-- Operators whose right side is enclosed: by the closing bracket, or by the colon of a
ternary. -/
def opening? (char : Char) : Option Op :=
  if char = '?' then some .condition
  else if char = '(' then some .call
  else if char = '[' then some .subscript
  else if char = '{' then some .construct
  else none

/-- An operator that has been recognised, unless it may not be used. -/
def check (options : ParseOptions) (op : Op) (pos : Nat) : Except ParseError Unit :=
  if options.operators.contains op then .ok () else .error (.here (.disabled op) pos)

def readSymbol? (input : Input) : Option (Op × Input) :=
  symbols.findSome? fun (first, more, op) => (input.eatWord? (first :: more)).map (op, ·)

theorem passes_of_readSymbol? {input next : Input} {op : Op}
    (found : readSymbol? input = some (op, next)) : input.Passes next := by
  obtain ⟨⟨first, more, found⟩, _, eaten⟩ := List.exists_of_findSome?_eq_some found
  simp only [Option.map_eq_some_iff, Prod.mk.injEq] at eaten
  obtain ⟨after, eaten, _, rfl⟩ := eaten
  exact Input.passes_of_eatWord? (by simp) eaten

/-- The operator at the start of an input and what follows it; nothing if the expression
ends here. `enclosed` tells that a closing bracket is still to come. -/
def read (options : ParseOptions) (enclosed : Bool) (input : Input) :
    Except ParseError (Option (Op × Input)) :=
  match readSymbol? input with
  | some (op, next) => (check options op next.pos).map fun _ => some (op, next)
  | none =>
    match input.rest with
    | [] => .ok none
    | char :: _ =>
      match opening? char with
      | some op => (check options op input.pos).map fun _ => some (op, input.advance)
      | none =>
        match (single? char).or (separator? options.stops enclosed char) with
        | some op => (check options op input.advance.pos).map fun _ => some (op, input.advance)
        | none => .ok none

theorem passes_of_read {options : ParseOptions} {enclosed : Bool} {input next : Input} {op : Op}
    (found : read options enclosed input = .ok (some (op, next))) : input.Passes next := by
  have advance : ∀ char text, input.rest = char :: text → input.Passes input.advance := by
    intro char text eq
    exact Input.passes_advance (by simp [Input.size, eq])
  unfold read at found
  split at found
  · rename_i sym after recognised
    unfold check at found
    split at found <;> simp [Except.map] at found
    obtain ⟨rfl, rfl⟩ := found
    exact passes_of_readSymbol? recognised
  · split at found
    · cases found
    · rename_i char text eq
      have later := advance char text eq
      split at found
      · unfold check at found
        split at found <;> simp [Except.map] at found
        exact found.2 ▸ later
      · split at found
        · unfold check at found
          split at found <;> simp [Except.map] at found
          exact found.2 ▸ later
        · cases found

/-- An operator in front of an operand, and what follows it. A plus sign is read without
becoming an operator. -/
def readLeading (options : ParseOptions) (input : Input) :
    Except ParseError (Option (Option Op × Input)) :=
  let checked (op : Op) (next : Input) : Except ParseError (Option (Option Op × Input)) :=
    (check options op next.pos).map fun _ => some (some op, next)
  if input.startsWith ['v', 'a', 'r'] && input.isClassAt isSpacing 3 then
    checked .declare (input.advanceBy 3)
  else if input.startsWith ['+', '+'] then checked .preIncrement (input.advanceBy 2)
  else if input.startsWith ['-', '-'] then checked .preDecrement (input.advanceBy 2)
  else if input.isAt '!' then checked .not input.advance
  else if input.isAt '-' then checked .negate input.advance
  else if input.isAt '~' then checked .complement input.advance
  else if input.isAt '+' then .ok (some (none, input.advance))
  else .ok none

theorem passes_of_readLeading {options : ParseOptions} {input next : Input} {op : Option Op}
    (found : readLeading options input = .ok (some (op, next))) : input.Passes next := by
  have checked : ∀ found after, (check options found after.pos).map
      (fun _ => some (some found, after)) = .ok (some (op, next)) → after = next := by
    intro found after eq
    unfold check at eq
    split at eq <;> simp [Except.map] at eq
    exact eq.2
  unfold readLeading at found
  simp only at found
  split at found
  · rename_i starts
    simp only [Bool.and_eq_true] at starts
    exact checked _ _ found ▸ Input.passes_of_startsWith (by simp) starts.1
  split at found
  · rename_i starts
    exact checked _ _ found ▸ Input.passes_of_startsWith (by simp) starts
  split at found
  · rename_i starts
    exact checked _ _ found ▸ Input.passes_of_startsWith (by simp) starts
  split at found
  · rename_i starts
    exact checked _ _ found ▸ Input.passes_advance_of_isClass starts
  split at found
  · rename_i starts
    exact checked _ _ found ▸ Input.passes_advance_of_isClass starts
  split at found
  · rename_i starts
    exact checked _ _ found ▸ Input.passes_advance_of_isClass starts
  split at found
  · rename_i starts
    cases found
    exact Input.passes_advance_of_isClass starts
  · cases found

end HtmlTemplate.OperatorReading
