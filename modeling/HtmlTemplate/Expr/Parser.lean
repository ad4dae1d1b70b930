import HtmlTemplate.Expr.Gap
import HtmlTemplate.Expr.Literal
import HtmlTemplate.Expr.OperatorReading
import HtmlTemplate.Text.CharClass
import HtmlTemplate.Text.Span

/-! Reading an expression: operands and operators in turn, each operator being added to the
tree of what stands before it. Every reader gives back an input that is no longer than the
one it was given, and shorter wherever it reads again from there. -/

namespace HtmlTemplate

/-- What encloses a part of an expression: brackets, or the two marks of a ternary. -/
inductive Enclosure where
  | bracket (bracket : Bracket)
  | branch
  deriving DecidableEq, Repr

namespace Enclosure

def close : Enclosure → Char
  | bracket .round => ')'
  | bracket .square => ']'
  | bracket .curly => '}'
  | branch => ':'

/-- The operator that the first operand inside belongs to. -/
def op : Enclosure → Op
  | bracket .round => .call
  | bracket .square => .subscript
  | bracket .curly => .construct
  | branch => .condition

def mark : Enclosure → Bracket
  | bracket kind => kind
  | branch => .round

/-- The expression of empty brackets, where they are one. -/
def empty? : Enclosure → Option Expr
  | bracket .square => some .emptyArray
  | bracket .curly => some .emptyDict
  | _ => none

/-- The brackets that begin with a character. -/
def ofOpening? (char : Char) : Option Enclosure :=
  if char = '(' then some (bracket .round)
  else if char = '[' then some (bracket .square)
  else if char = '{' then some (bracket .curly)
  else none

/-- The enclosure of the right side of an operator. -/
def ofOp? : Op → Option Enclosure
  | .call => some (bracket .round)
  | .subscript => some (bracket .square)
  | .construct => some (bracket .curly)
  | .condition => some branch
  | _ => none

end Enclosure

namespace Parser

/-- A name, where nothing else may stand. -/
def readName (input : Input) : Except ParseError (Parsed Expr input) :=
  let word := Literal.readWord input
  if word.value = "" then .error (.here .missingOperand input.pos) else .ok (word.map .name)

/-- A literal or a name. Only the brackets of a call may hold nothing. -/
def readValue (op : Op) (input : Input) : Except ParseError (Parsed Expr input) :=
  match input.rest with
  | [] => nothing
  | char :: _ =>
    if char = '"' ∨ char = '\'' then
      (Literal.readString input char).map (·.map fun text => .literal (.text text))
    else if CharClass.isDigit char then .ok ((Literal.readNumber input).map .literal)
    else
      let word := Literal.readWord input
      if word.value = "" then nothing else .ok (word.map Literal.wordExpr)
where
  nothing : Except ParseError (Parsed Expr input) :=
    if op = .call then .ok (.here input .noArguments)
    else .error (.here .missingOperand input.pos)

/-- A leading operator in front of an expression; a plus sign leaves it as it is. -/
def lead (op : Option Op) (operand : Expr) : Expr :=
  match op with
  | some op => .unary op operand
  | none => operand

mutual

/-- White space and one operand of `op`. -/
def readOperand (options : ParseOptions) (op : Op) (input : Input) :
    Except ParseError (Parsed Expr input) :=
  let gap := Gap.skip options false input
  have gapReached : input.Reaches gap.1 := Gap.reaches_skip ..
  if !gap.2 then .error (.here .missingOperand gap.1.pos)
  else if op = .member ∨ op = .sharp ∨ op = .scope then (readName gap.1).map (.widen gapReached)
  else (readLed options op gap.1).map (.widen gapReached)
termination_by 8 * input.size + 1
decreasing_by
  have := gapReached.size_le
  simp only [gap] at this
  omega

/-- Any number of leading operators, and brackets or a value after them. -/
def readLed (options : ParseOptions) (op : Op) (input : Input) :
    Except ParseError (Parsed Expr input) :=
  match found : OperatorReading.readLeading options input with
  | .error error => .error error
  | .ok (some (leading, next)) =>
    let gap := Gap.skip options false next
    have gapReached : next.Reaches gap.1 := Gap.reaches_skip ..
    have later : input.Passes next := OperatorReading.passes_of_readLeading found
    if !gap.2 then .error (.here .missingOperand gap.1.pos)
    else do
      let operand ← readLed options op gap.1
      return (operand.map (lead leading)).widen (later.1.trans gapReached)
  | .ok none =>
    match _opened : input.rest with
    | [] => readValue op input
    | char :: _ =>
      match Enclosure.ofOpening? char with
      | some enclosure => do
        let group ← readGroup options enclosure input.advance
        return group.widen (Input.reaches_advance _)
      | none => readValue op input
termination_by 8 * input.size
decreasing_by
  · have := gapReached.size_le
    have := later.2
    simp only [gap] at *
    omega
  · have : input.advance.size = input.size - 1 := Input.size_advance input
    have : 0 < input.size := by simp [Input.size, _opened]
    omega

/-- What stands in an enclosure, from after its opening mark to after its closing one. -/
def readGroup (options : ParseOptions) (enclosure : Enclosure) (input : Input) :
    Except ParseError (Parsed Expr input) :=
  let gap := Gap.skip options false input
  have gapReached : input.Reaches gap.1 := Gap.reaches_skip ..
  if !gap.2 then .error (.here (.unclosed enclosure.close) gap.1.pos)
  else match enclosure.empty?, gap.1.eat? enclosure.close with
  | some empty, some _ =>
    .ok ⟨empty, gap.1.advance, gapReached.trans (Input.reaches_advance _)⟩
  | _, _ => do
    let first ← readOperand options enclosure.op gap.1
    have firstReached := first.reached
    let inner ← readOperators options (some enclosure.close) first.value first.rest
    return ⟨.bracketed enclosure.mark inner.value, inner.rest.advance,
      gapReached.trans
        (firstReached.trans (inner.reached.trans (Input.reaches_advance _)))⟩
termination_by 8 * input.size + 3
decreasing_by
  all_goals
    have := Gap.size_skip_le options false input
    simp only [gap] at *
  · omega
  · have := firstReached.size_le
    omega

/-- The operators after an operand and their right sides, up to the closing mark or, without
one, up to where the expression ends. -/
def readOperators (options : ParseOptions) (close : Option Char) (tree : Expr) (input : Input) :
    Except ParseError (Parsed Expr input) :=
  let gap := Gap.skip options close.isNone input
  have gapReached : input.Reaches gap.1 := Gap.reaches_skip ..
  let finish : Except ParseError (Parsed Expr input) :=
    match close with
    | none => .ok ⟨tree, gap.1, gapReached⟩
    | some mark => .error (.here (.unclosed mark) gap.1.pos)
  if !gap.2 then finish
  else if close.any fun mark => gap.1.isAt mark then .ok ⟨tree, gap.1, gapReached⟩
  else match found : OperatorReading.read options close.isSome gap.1 with
  | .error error => .error error
  | .ok none => finish
  | .ok (some (op, next)) => do
    have later : gap.1.Passes next := OperatorReading.passes_of_read found
    let applied ← readApplied options tree op next
    have appliedReached := applied.reached
    let rest ← readOperators options close applied.value applied.rest
    return rest.widen (gapReached.trans (later.1.trans appliedReached))
termination_by 8 * input.size + 2
decreasing_by
  all_goals
    have := Gap.size_skip_le options close.isNone input
    have := later.2
    simp only [gap] at *
  · omega
  · have := appliedReached.size_le
    omega

/-- The right side of an operator that has just been read, added to the tree before it. -/
def readApplied (options : ParseOptions) (tree : Expr) (op : Op) (input : Input) :
    Except ParseError (Parsed Expr input) :=
  if op.isTrailing then .ok (.here input (tree.insert op none))
  else match Enclosure.ofOp? op with
  | none => do
    let right ← readOperand options op input
    return right.map fun right => tree.insert op (some right)
  | some enclosure => do
    let right ← readGroup options enclosure input
    let applied := tree.insert op (some right.value)
    if op = .condition then
      have _rightLe := right.le
      let otherwise ← readOperand options .alternative right.rest
      return (otherwise.map fun otherwise =>
        applied.insert .alternative (some otherwise)).widen right.reached
    else return ⟨applied, right.rest, right.reached⟩
termination_by 8 * input.size + 4
decreasing_by all_goals omega

end

/-- One expression at the start of an input, and what follows it. -/
def readExpr (options : ParseOptions) (input : Input) : Except ParseError (Parsed Expr input) := do
  let first ← readOperand options .group input
  let tree ← readOperators options none first.value first.rest
  return tree.widen first.reached

end Parser

namespace Expr

/-- One expression at the start of a text, and where it ends. -/
def parse (options : ParseOptions) (text : List Char) :
    Except ParseError (Parsed Expr (.ofText text)) :=
  Parser.readExpr options (.ofText text)

/-- One expression in the middle of a source. It is read in place: all offsets are those of the source. -/
def parseFrom (options : ParseOptions) (input : Input) : Except ParseError (Parsed Expr input) :=
  Parser.readExpr options input

/-- One expression from a byte offset of a source on, and where it ends. Offsets past the end
count as the end, and inside of a character nothing can be read. -/
def parseAt (options : ParseOptions) (source : List Char) (pos : Nat) :
    Except ParseError (Expr × Nat) :=
  let start := min pos (byteLength source)
  match dropBytes? start source with
  | some rest => (parseFrom options ⟨start, rest⟩).map fun parsed => (parsed.value, parsed.rest.pos)
  | none => .error (.here .missingOperand start)

/-- A text that is one expression, with nothing but blanks after it. -/
def parseAll (options : ParseOptions) (text : List Char) : Except ParseError Expr := do
  let parsed ← parse options text
  if parsed.rest.rest.all Blank.isBlank then return parsed.value
  else .error (.here .trailingInput parsed.rest.pos)

end Expr

end HtmlTemplate
