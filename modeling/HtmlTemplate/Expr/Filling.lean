import HtmlTemplate.Expr.Arena
import HtmlTemplate.Expr.Parser

/-! Reading an expression into an arena. A reader is given a place to fill, or the place of the tree that it
goes on with. What a reader has put into the arena before it meets an error stays there, until the reading
of the whole expression is undone. -/

namespace HtmlTemplate

abbrev FillM := ExceptT ParseError (StateM Arena)

namespace Filling

def ofExcept {α : Type} (result : Except ParseError α) : FillM α := fun arena => (result, arena)

def alloc (node : Node) : FillM Nat := fun arena => (.ok arena.length, arena ++ [node])

def put (place : Nat) (node : Node) : FillM Unit := fun arena => (.ok (), arena.set place node)

def enclose (bracket : Bracket) (place : Nat) : FillM Unit :=
  fun arena => (.ok (), arena.enclose bracket place)

/-- Adds an operator to the tree at a place. Gives the place for its right side, if it has one. -/
def insert (op : Op) (root : Nat) : FillM (Option Nat) := fun arena =>
  let (place, after) := arena.insert op root
  (.ok (after.node place).right, after)

/-- Puts a leading operator at a place. Gives the place for its operand; a plus sign leaves the place as it
is. -/
def lead (op : Option Op) (place : Nat) : FillM Nat :=
  match op with
  | none => return place
  | some op => do
    let operand ← alloc .blank
    put place (.ofOp op (some operand) none)
    return operand

/-- Puts what has been read at a place. -/
def leaf {input : Input} (place : Nat) (read : Except ParseError (Parsed Expr input)) :
    FillM (Parsed Unit input) := do
  let leaf ← ofExcept read
  put place (.ofLeaf leaf.value)
  return leaf.map fun _ => ()

mutual

/-- White space and one operand of `op`. -/
def operand (options : ParseOptions) (op : Op) (place : Nat) (input : Input) :
    FillM (Parsed Unit input) :=
  let gap := Gap.skip options false input
  have gapReached : input.Reaches gap.1 := Gap.reaches_skip ..
  if !gap.2 then throw (.here .missingOperand gap.1.pos)
  else if op = .member ∨ op = .sharp ∨ op = .scope then do
    let name ← leaf place (Parser.readName gap.1)
    return name.widen gapReached
  else do
    let filled ← led options op place gap.1
    return filled.widen gapReached
termination_by 8 * input.size + 1
decreasing_by
  have := gapReached.size_le
  simp only [gap] at this
  omega

/-- Any number of leading operators, and brackets or a value after them. -/
def led (options : ParseOptions) (op : Op) (place : Nat) (input : Input) :
    FillM (Parsed Unit input) :=
  match found : OperatorReading.readLeading options input with
  | .error error => throw error
  | .ok (some (leading, next)) => do
    let gap := Gap.skip options false next
    have gapReached : next.Reaches gap.1 := Gap.reaches_skip ..
    have later : input.Passes next := OperatorReading.passes_of_readLeading found
    let place ← lead leading place
    if !gap.2 then throw (.here .missingOperand gap.1.pos)
    else
      let filled ← led options op place gap.1
      return filled.widen (later.1.trans gapReached)
  | .ok none =>
    match _opened : input.rest with
    | [] => leaf place (Parser.readValue op input)
    | char :: _ =>
      match Enclosure.ofOpening? char with
      | some enclosure => do
        let filled ← group options enclosure place input.advance
        return filled.widen (Input.reaches_advance _)
      | none => leaf place (Parser.readValue op input)
termination_by 8 * input.size
decreasing_by
  · have := gapReached.size_le
    have := later.2
    simp only [gap] at *
    omega
  · have : input.advance.size = input.size - 1 := Input.size_advance input
    have : 0 < input.size := by simp [Input.size, _opened]
    omega

/-- What stands in an enclosure, from after its opening mark to after its closing one. -/
def group (options : ParseOptions) (enclosure : Enclosure) (place : Nat) (input : Input) :
    FillM (Parsed Unit input) :=
  let gap := Gap.skip options false input
  have gapReached : input.Reaches gap.1 := Gap.reaches_skip ..
  if !gap.2 then throw (.here (.unclosed enclosure.close) gap.1.pos)
  else match enclosure.empty?, gap.1.eat? enclosure.close with
  | some _, some _ => do
    put place { Node.blank with op := enclosure.op, bracket := some enclosure.mark }
    return ⟨(), gap.1.advance, gapReached.trans (Input.reaches_advance _)⟩
  | _, _ => do
    let first ← operand options enclosure.op place gap.1
    have firstReached := first.reached
    let inner ← operators options (some enclosure.close) place first.rest
    enclose enclosure.mark place
    return ⟨(), inner.rest.advance,
      gapReached.trans
        (firstReached.trans (inner.reached.trans (Input.reaches_advance _)))⟩
termination_by 8 * input.size + 3
decreasing_by
  all_goals
    have := Gap.size_skip_le options false input
    simp only [gap] at *
  · omega
  · have := firstReached.size_le
    omega

/-- The operators after an operand and their right sides, up to the closing mark or, without one, up to
where the expression ends. -/
def operators (options : ParseOptions) (close : Option Char) (root : Nat) (input : Input) :
    FillM (Parsed Unit input) :=
  let gap := Gap.skip options close.isNone input
  have gapReached : input.Reaches gap.1 := Gap.reaches_skip ..
  let finish : FillM (Parsed Unit input) :=
    match close with
    | none => return ⟨(), gap.1, gapReached⟩
    | some mark => throw (.here (.unclosed mark) gap.1.pos)
  if !gap.2 then finish
  else if close.any fun mark => gap.1.isAt mark then return ⟨(), gap.1, gapReached⟩
  else match found : OperatorReading.read options close.isSome gap.1 with
  | .error error => throw error
  | .ok none => finish
  | .ok (some (op, next)) => do
    have later : gap.1.Passes next := OperatorReading.passes_of_read found
    let applied ← apply options root op next
    have appliedReached := applied.reached
    let rest ← operators options close root applied.rest
    return rest.widen (gapReached.trans (later.1.trans appliedReached))
termination_by 8 * input.size + 2
decreasing_by
  all_goals
    have := Gap.size_skip_le options close.isNone input
    have := later.2
    simp only [gap] at *
  · omega
  · have := appliedReached.size_le
    omega

/-- An operator that has just been read, added to the tree at a place, and its right side. -/
def apply (options : ParseOptions) (root : Nat) (op : Op) (input : Input) :
    FillM (Parsed Unit input) := do
  let some right ← insert op root | return .here input ()
  match Enclosure.ofOp? op with
  | none => operand options op right input
  | some enclosure =>
    let chosen ← group options enclosure right input
    if op = .condition then
      have _chosenLe := chosen.le
      let some otherwise ← insert .alternative root | return chosen
      let other ← operand options .alternative otherwise chosen.rest
      return other.widen chosen.reached
    else return chosen
termination_by 8 * input.size + 4
decreasing_by all_goals omega

end

/-- One expression at the start of an input. -/
def row (options : ParseOptions) (root : Nat) (input : Input) : FillM (Parsed Unit input) := do
  let first ← operand options .group root input
  let tree ← operators options none root first.rest
  return tree.widen first.reached

/-- One expression at the start of an input, in a place of its own. -/
def expression (options : ParseOptions) (input : Input) : FillM (Parsed Nat input) := do
  let root ← alloc .blank
  let tree ← row options root input
  return tree.map fun _ => root

end Filling

namespace Arena

/-- Reads one expression from a byte offset of a source on. Gives the place of the expression and where it
ends. If there is an error, the arena is left as it was. -/
def parse (arena : Arena) (options : ParseOptions) (source : List Char) (pos : Nat) :
    Except ParseError (Nat × Nat) × Arena :=
  let start := min pos (byteLength source)
  match dropBytes? start source with
  | none => (.error (.here .missingOperand start), arena)
  | some rest =>
    match Filling.expression options ⟨start, rest⟩ arena with
    | (.ok parsed, after) => (.ok (parsed.value, parsed.rest.pos), after)
    | (.error error, after) => (.error error, after.take arena.length)

end Arena

end HtmlTemplate
