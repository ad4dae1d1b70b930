import HtmlTemplate.Token.Basic
import HtmlTemplate.Token.Fault
import HtmlTemplate.Token.Line

/-! Indentation. The first indented line fixes what one step of it is: one tab, or the spaces
that this line begins with. A line may be nested in the line before it or in one that this
line is nested in, but it cannot skip a step. -/

namespace HtmlTemplate

/-- One step of indentation. -/
inductive IndentUnit where
  | tab
  | spaces (width : Nat)
  deriving DecidableEq, Repr

namespace IndentUnit

/-- The unit that the first indented line fixes, unless it mixes tabs and spaces. -/
def ofSpacing? (spacing : List Char) : Option IndentUnit :=
  if spacing.all (· == '\t') then some tab
  else if spacing.all (· == ' ') then some (spaces spacing.length)
  else none

/-- How many steps a line is indented; nothing if it is not indented in this unit. -/
def depth? (unit : IndentUnit) (spacing : List Char) : Option Nat :=
  match unit with
  | tab => if spacing.all (· == '\t') then some spacing.length else none
  | spaces width => if spacing.all (· == ' ') then some (spacing.length / width) else none

end IndentUnit

/-- What has to be known of the lines before a line to place it. -/
structure Outline where
  unit : Option IndentUnit
  /-- Of each line that is open, the innermost one first, whether its nested lines are text. -/
  parents : List Bool
  /-- The same of the last line. -/
  last : Option Bool
  deriving DecidableEq, Repr

namespace Outline

def start : Outline := { unit := none, parents := [], last := none }

/-- The depth of the last line. -/
def depth (outline : Outline) : Nat := outline.parents.length

/-- Whether a line at this place is text. -/
def isText (outline : Outline) : Bool := outline.parents.headD false

/-- The depth that indentation gives, and the unit it is counted in. -/
def measure (outline : Outline) (spacing : List Char) :
    Except LexFault (Nat × Option IndentUnit) :=
  if spacing.isEmpty then .ok (0, outline.unit)
  else match outline.unit with
    | none =>
      match IndentUnit.ofSpacing? spacing with
      | some unit => .ok (1, some unit)
      | none => .error .mixedIndent
    | some unit =>
      match unit.depth? spacing with
      | some depth => .ok (depth, some unit)
      | none => .error .mixedIndent

/-- Opens the last line, or closes the lines that a line of this depth is not nested in. -/
def open? (outline : Outline) (depth : Nat) : Option Outline :=
  if depth ≤ outline.depth then
    some { outline with parents := outline.parents.drop (outline.depth - depth) }
  else if depth = outline.depth + 1 then
    outline.last.map fun last => { outline with parents := last :: outline.parents }
  else none

/-- The place of a line with some spacing before it. -/
def enter (outline : Outline) (spacing : List Char) : Except LexFault Outline := do
  let (depth, unit) ← outline.measure spacing
  match { outline with unit }.open? depth with
  | some entered => return entered
  | none => .error .wrongIndent

end Outline

/-! From lines with depths to a tree: a line is nested in the closest line before it that is
less deep, and lines chained to one another are nested in turn. -/

/-- What one line of the source holds: a line of markup and the lines chained to it. -/
structure Row where
  depth : Nat
  line : Token
  chained : List Token

namespace Row

/-- The line of a row that lines below the row are nested in. -/
def innermost (row : Row) : Token := row.chained.getLast?.getD row.line

/-- Nests chained lines in one another, and the other nested lines in the last of them. -/
def link (line : Token) (nested : List Token) : List Token → Token
  | [] => line.addChildren nested
  | next :: chained => line.addChildren [link next nested chained]

/-- The lines of some rows with their depths, each with what is nested in it. -/
def nest : List Row → List (Nat × Token)
  | [] => []
  | row :: rows =>
    let lines := nest rows
    let nested := lines.takeWhile fun line => row.depth < line.1
    let others := lines.dropWhile fun line => row.depth < line.1
    (row.depth, link row.line (nested.map Prod.snd) row.chained) :: others

end Row

/-! The parts of a whole template, read line by line. -/

namespace Document

open CharClass

/-- Goes on after the end of the line. -/
def finishLine (input : Input) : Input :=
  let stop := input.skipRestOfLine
  stop.eatNewline?.getD stop

theorem size_finishLine_lt {input : Input} (nonempty : 0 < input.size) :
    (finishLine input).size < input.size := by
  obtain ⟨pos, _ | ⟨char, rest⟩⟩ := input
  · simp [Input.size] at nonempty
  · by_cases newline : isLineEnd char = true
    · have stays : Input.skipRestOfLine ⟨pos, char :: rest⟩ = ⟨pos, char :: rest⟩ := by
        simp [Input.skipRestOfLine, Input.dropUntil, Input.dropWhile, Input.dropFrom, newline]
      cases eaten : Input.eatNewline? ⟨pos, char :: rest⟩ with
      | some next =>
        simp only [finishLine, stays, eaten, Option.getD]
        exact (Input.passes_of_eatNewline? eaten).2
      | none =>
        simp only [isLineEnd, Bool.or_eq_true] at newline
        simp [Input.eatNewline?, Input.eat?, Input.isAt, Input.isClass] at eaten
        simp_all
    · have shorter : (Input.skipRestOfLine ⟨pos, char :: rest⟩).size < (char :: rest).length := by
        simp only [Input.skipRestOfLine, Input.dropUntil, Input.size, Input.rest_dropWhile]
        simp only [List.dropWhile, newline]
        exact Nat.lt_succ_of_le (Input.length_dropWhile_le _ _)
      simp only [finishLine]
      cases eaten : (Input.skipRestOfLine ⟨pos, char :: rest⟩).eatNewline? with
      | none => exact shorter
      | some next => exact Nat.lt_trans (Input.passes_of_eatNewline? eaten).2 shorter

/-- After anything has been read of a line, its end is later than its start. -/
theorem size_finishLine_lt_of_reaches {start stop : Input} (nonempty : 0 < start.size)
    (reaches : start.Reaches stop) : (finishLine stop).size < start.size := by
  rcases Nat.eq_zero_or_pos stop.size with atEnd | more
  · have : (finishLine stop).size ≤ stop.size := by
      simp only [finishLine]
      cases eaten : stop.skipRestOfLine.eatNewline? with
      | none => exact Input.size_skipRestOfLine_le _
      | some next =>
        exact Nat.le_trans (Nat.le_of_lt (Input.passes_of_eatNewline? eaten).2)
          (Input.size_skipRestOfLine_le _)
    omega
  · exact Nat.lt_of_lt_of_le (size_finishLine_lt more) reaches.size_le

/-- The lines chained to a line, each after a colon. -/
def readChained (lineStart input : Input) : Except LexError (Parsed (List Token) input) :=
  if colon : input.isAt ':' then do
    let start := input.advance.skipSpacing
    have later : input.Passes start := (Input.passes_advance_of_isClass colon).of_reaches
      (Input.reaches_skipSpacing _)
    if start.atLineEnd then return ⟨[], start, later.1⟩
    else
      let line ← Line.read lineStart start
      have lineReached := line.reached
      let more ← readChained lineStart line.rest
      return (more.map (line.value :: ·)).widen (later.1.trans lineReached)
  else .ok (.here input [])
termination_by input.size
decreasing_by exact (later.of_reaches lineReached).2

/-- One line of the source, as text or as markup, from after its indentation on. -/
def readRow (outline : Outline) (lineStart input : Input) :
    Except LexError (Parsed Row input) := do
  if outline.isText then
    let line ← Line.readPlain input
    return line.map fun line => { depth := outline.depth, line, chained := [] }
  else
    let line ← Line.read lineStart input
    let chained ← readChained lineStart line.rest
    return (chained.map fun chained =>
      { depth := outline.depth, line := line.value, chained }).widen line.reached

/-- The rows of a source; blank lines are none. -/
def readRows (outline : Outline) (input : Input) : Except LexError (List Row) :=
  if _atEnd : input.atEnd then .ok []
  else
    let content := input.skipSpacing
    have _contentReached : input.Reaches content := Input.reaches_skipSpacing _
    if content.atLineEnd then readRows outline (finishLine content)
    else match outline.enter (input.takeWhile isSpacing) with
      | .error fault => .error ⟨fault, input.pos⟩
      | .ok entered => do
        let row ← readRow entered input content
        have _rowReached := row.reached
        let outline := { entered with last := some row.value.innermost.nestsText }
        return row.value :: (← readRows outline (finishLine row.rest))
termination_by input.size
decreasing_by
  · rw [Input.atEnd_iff] at _atEnd
    exact size_finishLine_lt_of_reaches (by omega) _contentReached
  · rw [Input.atEnd_iff] at _atEnd
    exact size_finishLine_lt_of_reaches (by omega) (_contentReached.trans _rowReached)

end Document

namespace Token

/-- The parts of a template. -/
def ofSource (source : List Char) : Except LexError Token := do
  let rows ← Document.readRows .start (.ofText source)
  return { kind := .root, span := ⟨0, byteLength source⟩, text := String.ofList source,
           expr := none, children := (Row.nest rows).map Prod.snd }

end Token

end HtmlTemplate
