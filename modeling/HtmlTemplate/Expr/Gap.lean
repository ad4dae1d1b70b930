import HtmlTemplate.Text.Input
import HtmlTemplate.Expr.Options

/-! White space between the parts of an expression, and the line ends that are none. -/

namespace HtmlTemplate.Gap

open CharClass

/-- At the end of a line: the end of the next line, if that line is blank. -/
def blankLine? (input : Input) : Option Input :=
  match input.eatNewline? with
  | none => none
  | some next => if next.skipSpacing.isClass isLineEnd then some next.skipSpacing else none

theorem passes_of_blankLine? {input next : Input} (found : blankLine? input = some next) :
    input.Passes next := by
  unfold blankLine? at found
  split at found
  · cases found
  · rename_i after eaten
    split at found
    · cases found
      exact (Input.passes_of_eatNewline? eaten).of_reaches (Input.reaches_skipSpacing _)
    · cases found

/-- Skips spacing, and line ends with blank lines and a continuation after them. `lineEnd` is
the line end to go back to if there is no continuation. `complete` tells that the expression
may end here; then it does. The flag tells whether the expression can go on. -/
def skipContinued (continuation : List Char) (complete : Bool) (lineEnd : Option Input)
    (input : Input) : Input × Bool :=
  let spaced := input.skipSpacing
  if spaced.isClass isLineEnd then
    let stop := lineEnd.getD spaced
    match _found : blankLine? spaced with
    | some next => skipContinued continuation complete (some stop) next
    | none =>
      if _nonempty : complete ∨ continuation = [] then (stop, false)
      else match _eaten : spaced.eatWord? continuation with
        | none => (stop, false)
        | some next => skipContinued continuation complete none next
  else (spaced, !spaced.atEnd)
termination_by input.size
decreasing_by
  · have := (passes_of_blankLine? _found).2
    have := Input.size_skipSpacing_le input
    simp only [spaced] at *
    omega
  · have := Input.size_of_eatWord? _eaten
    have := Input.size_skipSpacing_le input
    have : continuation.length ≠ 0 := by simp_all
    simp only [spaced] at *
    omega

theorem reaches_skipContinued (start : Input) (continuation : List Char) (complete : Bool)
    (lineEnd : Option Input) (input : Input) (reached : start.Reaches input)
    (endReached : ∀ stop ∈ lineEnd, start.Reaches stop) :
    start.Reaches (skipContinued continuation complete lineEnd input).1 := by
  have stopReached : ∀ (lineEnd : Option Input) (spaced : Input),
      (∀ stop ∈ lineEnd, start.Reaches stop) → start.Reaches spaced →
      start.Reaches (lineEnd.getD spaced) := by
    intro lineEnd spaced endReached reached
    cases lineEnd with
    | none => exact reached
    | some last => exact endReached last rfl
  fun_induction skipContinued continuation complete lineEnd input with
  | case1 lineEnd input spaced atEnd stop next found step =>
    have spacedReached := reached.trans (Input.reaches_skipSpacing input)
    apply step
    · exact spacedReached.trans (passes_of_blankLine? found).1
    · intro other member
      cases member
      exact stopReached lineEnd spaced endReached spacedReached
  | case2 lineEnd input spaced atEnd stop found nonempty =>
    exact stopReached lineEnd spaced endReached (reached.trans (Input.reaches_skipSpacing input))
  | case3 lineEnd input spaced atEnd stop found nonempty eaten =>
    exact stopReached lineEnd spaced endReached (reached.trans (Input.reaches_skipSpacing input))
  | case4 lineEnd input spaced atEnd found nonempty next eaten step =>
    apply step
    · exact (reached.trans (Input.reaches_skipSpacing input)).trans
        (Input.reaches_of_eatWord? eaten)
    · intro other member
      cases member
  | case5 lineEnd input spaced atEnd =>
    exact reached.trans (Input.reaches_skipSpacing input)

/-- Skips what may stand between two parts of an expression. `complete` tells that the
expression may end here: then the end of the line ends it. The flag tells whether the
expression can go on. -/
def skip (options : ParseOptions) (complete : Bool) (input : Input) : Input × Bool :=
  if options.stops.unlessContinued then skipContinued options.continuation complete none input
  else
    let spaced := input.skipSpacing
    if (options.stops.line || complete) && spaced.isClass isLineEnd then (spaced, false)
    else if options.stops.line then (spaced, !spaced.atEnd)
    else (input.skipWhitespace, !input.skipWhitespace.atEnd)

theorem reaches_skip (options : ParseOptions) (complete : Bool) (input : Input) :
    input.Reaches (skip options complete input).1 := by
  unfold skip
  split
  · exact reaches_skipContinued input _ _ _ _ (.refl _) (by simp)
  · simp only
    split
    · exact Input.reaches_skipSpacing _
    · split
      · exact Input.reaches_skipSpacing _
      · exact Input.reaches_skipWhitespace _

theorem size_skip_le (options : ParseOptions) (complete : Bool) (input : Input) :
    (skip options complete input).1.size ≤ input.size :=
  (reaches_skip options complete input).size_le

end HtmlTemplate.Gap
