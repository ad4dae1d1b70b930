import HtmlTemplate.Expr.Operator

/-! What can be wrong with the text of an expression. -/

namespace HtmlTemplate

inductive ParseFault where
  | unclosed (close : Char)
  | disabled (op : Op)
  | unterminatedString
  | malformedEscape
  | missingOperand
  | trailingInput
  deriving DecidableEq, Repr

namespace ParseFault

def message : ParseFault → String
  | unclosed close => "missing closing `" ++ close.toString ++ "`"
  | disabled op => "operator `" ++ op.symbol ++ "` is not allowed here"
  | unterminatedString => "unterminated string literal"
  | malformedEscape => "malformed escape sequence"
  | missingOperand => "expected an operand"
  | trailingInput => "unexpected input after the expression"

end ParseFault

/-- A fault, the offset it is reported at, and the offset at which reading was given up. -/
structure ParseError where
  fault : ParseFault
  offset : Nat
  reached : Nat
  deriving DecidableEq, Repr

namespace ParseError

/-- A fault at the place that was reached. -/
def here (fault : ParseFault) (pos : Nat) : ParseError := ⟨fault, pos, pos⟩

/-- The same error in a text that starts later by some bytes. -/
def shift (error : ParseError) (bytes : Nat) : ParseError :=
  { error with offset := bytes + error.offset, reached := bytes + error.reached }

end ParseError

end HtmlTemplate
