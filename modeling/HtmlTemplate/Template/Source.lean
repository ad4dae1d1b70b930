import HtmlTemplate.Eval.Reported
import HtmlTemplate.Template.Compilation
import HtmlTemplate.Token.Document

/-! Templates from their sources. Expressions whose value is known before a template is run are evaluated when it
is compiled. -/

namespace HtmlTemplate

/-- The value of a constant. A constant that fails has none: it is left for a run to report. -/
def Expr.constant? (expr : Expr) : Option Value :=
  if expr.isConst then
    let (value, after) := Context.new.execValue? expr
    if after.reports.last.isSome then none else value
  else none

/-- What keeps a source from being a template. -/
inductive TemplateError where
  | lexical (error : LexError)
  | structural (error : StructureError)
  deriving DecidableEq, Repr

namespace TemplateError

def message : TemplateError → String
  | lexical error => error.fault.message
  | structural error => error.fault.message

def offset : TemplateError → Nat
  | lexical error => error.offset
  | structural error => error.offset

def diagnostic (error : TemplateError) (source : List Char) : Diagnostic :=
  match error with
  | lexical error => error.diagnostic source
  | structural error => error.diagnostic source

end TemplateError

structure TemplateOptions where
  /-- Puts block tags and lines of text on lines of their own. -/
  pretty : Bool
  /-- Ends a run at its first error. -/
  stopOnError : Bool
  deriving DecidableEq, Repr

namespace Template

/-- The template of a source. `fold` gives the values of expressions that are known already. -/
def ofSourceWith (fold : Expr → Option Value) (options : TemplateOptions) (source : List Char) :
    Except TemplateError Template :=
  match Token.ofSource source with
  | .error error => .error (.lexical error)
  | .ok root =>
    match Compilation.compile fold options.pretty root with
    | .error error => .error (.structural error)
    | .ok (chunks, includes) =>
      .ok { chunks, includes, pretty := options.pretty, stopOnError := options.stopOnError }

/-- The template of a source, with all constants folded. -/
def ofSource (options : TemplateOptions) (source : List Char) : Except TemplateError Template :=
  ofSourceWith Expr.constant? options source

end Template

end HtmlTemplate
