import HtmlTemplate.Expr.Parser
import HtmlTemplate.Token.Basic
import HtmlTemplate.Token.Fault

/-! Expressions in the middle of markup. -/

namespace HtmlTemplate

/-- An expression, and the text and the span it was written in. -/
structure Embedded where
  expr : Expr
  span : Span
  text : String

namespace Embedded

/-- One expression without the spacing at its end, which is skipped. -/
def read (options : ParseOptions) (place : ExprPlace) (input : Input) :
    Except LexError (Parsed Embedded input) :=
  match Expr.parseFrom options input with
  | .error error => .error ⟨.inExpr place error.fault, error.offset⟩
  | .ok parsed =>
    let text := Blank.stripEnd CharClass.isSpacing (input.textTo parsed.rest.pos)
    let embedded : Embedded :=
      { expr := parsed.value, span := ⟨input.pos, input.pos + byteLength text⟩,
        text := String.ofList text }
    .ok ⟨embedded, parsed.rest.skipSpacing,
      parsed.reached.trans (Input.reaches_skipSpacing _)⟩

def token (kind : TokenKind) (embedded : Embedded) : Token :=
  { kind, span := embedded.span, text := embedded.text, expr := some embedded.expr,
    children := [] }

end Embedded

end HtmlTemplate
