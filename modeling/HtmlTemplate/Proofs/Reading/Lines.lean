import HtmlTemplate.Proofs.Respelling.Nesting

/-! Lines of markup that are not indented. -/

namespace HtmlTemplate.Reading

open CharClass Document

theorem enter_unindented (outline : Outline) : outline.enter [] = .ok { outline with parents := [] } := by
  have opened : outline.open? 0 = some { outline with parents := [] } := by
    rw [Outline.open?, if_pos (Nat.zero_le _), Nat.sub_zero, Outline.depth, List.drop_length]
  change (outline.open? 0).elim (Except.error LexFault.wrongIndent) Except.ok = _
  rw [opened]
  rfl

section

variable {input : Input} {char : Char} {text : List Char} (rest : input.rest = char :: text)
  (visible : isWhitespace char = false)
include rest visible

theorem skipSpacing_unindented : input.skipSpacing = input := by
  obtain ⟨pos, _⟩ := input
  obtain rfl := rest
  rw [Input.skipSpacing, Input.dropWhile, Input.dropFrom, not_isSpacing visible, if_neg Bool.false_ne_true]

/-- A line that is not indented, and the rows after it. -/
theorem readRows_unindented (outline : Outline) : readRows outline input =
    readRow .start input input >>= fun row =>
      readRows ⟨outline.unit, [], some row.value.innermost.nestsText⟩ (finishLine row.rest) >>= fun rows =>
        .ok (row.value :: rows) := by
  have filled : ¬ input.atEnd = true := by
    rw [Input.atEnd, rest]
    exact Bool.false_ne_true
  have within : ¬ input.atLineEnd = true := by
    rw [Input.atLineEnd, Input.atEnd, isClass_eq rest, rest, not_isLineEnd visible]
    exact Bool.false_ne_true
  have spacing : input.takeWhile isSpacing = [] := by
    rw [Input.takeWhile, rest, List.takeWhile_cons_of_neg (Bool.eq_false_iff.mp (not_isSpacing visible))]
  rw [readRows_eq, skipSpacing_unindented rest visible, if_neg filled, if_neg within, spacing, enter_unindented]
  rfl

end

/-- A line that nothing is chained to. -/
theorem readRow_unchained {lineStart input : Input} {line : Parsed Token input}
    (read : Line.read lineStart input = .ok line) (ended : line.rest.isAt ':' = false) :
    readRow .start lineStart input =
      .ok (line.map fun line => { depth := 0, line, chained := [] }) := by
  have alone : readChained lineStart line.rest = .ok (.here line.rest []) := by
    rw [readChained, dif_neg (Bool.eq_false_iff.mp ended)]
  rw [readRow, read]
  change readChained lineStart line.rest >>= _ = _
  rw [alone]
  rfl

theorem readRows_end (outline : Outline) {input : Input} (rest : input.rest = []) :
    readRows outline input = .ok [] := by
  rw [readRows_eq, Input.atEnd, rest, List.isEmpty_nil, if_pos rfl]

theorem link_alone (line : Token) : Row.link line [] [] = line := by
  rw [Row.link]
  cases line
  simp [Token.addChildren]

/-- A source that is one line. -/
theorem ofSource_line {char : Char} {text : List Char} (visible : isWhitespace char = false)
    {line : Parsed Token (.ofText (char :: text))}
    (read : Line.read (.ofText (char :: text)) (.ofText (char :: text)) = .ok line) (ended : line.rest.rest = []) :
    ∃ root, Token.ofSource (char :: text) = .ok root ∧ root.children = [line.value] := by
  obtain ⟨value, ⟨stop, _⟩, reached⟩ := line
  obtain rfl := ended
  have rows : readRows .start (.ofText (char :: text)) = .ok [⟨0, value, []⟩] := by
    rw [readRows_unindented rfl visible, readRow_unchained read rfl]
    change readRows _ (finishLine ⟨stop, []⟩) >>= _ = _
    rw [readRows_end _ rfl]
    rfl
  refine ⟨_, by rw [Token.ofSource, rows]; rfl, ?_⟩
  simp [Row.nest, link_alone]

end HtmlTemplate.Reading
