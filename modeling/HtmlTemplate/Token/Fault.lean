import HtmlTemplate.Expr.Fault
import HtmlTemplate.Diagnostic.Report

/-! What can be wrong with the markup of a template. -/

namespace HtmlTemplate

/-- The places of a template that hold an expression. -/
inductive ExprPlace where
  | outputLine
  | mixinCall
  | control
  | each
  | interpolation
  | tagOutput
  | attributes
  | attributeValue
  | codeLine
  | codeBlock
  deriving DecidableEq, Repr

namespace ExprPlace

def label : ExprPlace → String
  | outputLine => "Invalid expression in output block"
  | mixinCall => "Invalid expression in mixin call block"
  | control => "Invalid expression in control statement"
  | each => "Invalid expression in 'each' statement"
  | interpolation => "Invalid interpolation expression"
  | tagOutput => "Invalid expression in tag attribute output block"
  | attributes => "Invalid expression in &attributes"
  | attributeValue => "Invalid attribute value"
  | codeLine => "Fail to read line of code"
  | codeBlock => "Fail to read block of code"

/-- The wording for something else that follows the expression. -/
def labelAfter : ExprPlace → String
  | outputLine => "Invalid expression after output expression block"
  | mixinCall => "Invalid expression after mixin call block"
  | place => place.label

end ExprPlace

inductive LexFault where
  | mixedIndent
  | wrongIndent
  | unknownLine
  | inExpr (place : ExprPlace) (fault : ParseFault)
  | afterExpr (place : ExprPlace)
  | mixinName
  | mixinDefinition
  | elseIf
  | elseLine
  | defaultLine
  | includeTarget
  | eachVariable
  | eachLine
  | inlineTag
  | afterTagEnd
  | unknownTagPart
  | attributeOperator
  | attributeList
  | attributeName
  deriving DecidableEq, Repr

namespace LexFault

def message : LexFault → String
  | mixedIndent => "Inconsistent indentation"
  | wrongIndent => "Wrong indentation markup"
  | unknownLine => "Fail to recognize line type"
  | inExpr place fault => place.label ++ ": " ++ fault.message
  | afterExpr place => place.labelAfter
  | mixinName => "Invalid mixin name"
  | mixinDefinition => "Invalid mixin definition"
  | elseIf => "Invalid expression in 'else if' statement"
  | elseLine => "Invalid 'else' line"
  | defaultLine => "Invalid 'default' line"
  | includeTarget => "Invalid include target"
  | eachVariable => "Invalid variable expression in 'each' statement"
  | eachLine => "Invalid 'each' statement"
  | inlineTag => "Invalid tag interpolation expression"
  | afterTagEnd => "Data after endline tag"
  | unknownTagPart => "Unknown expression in tag"
  | attributeOperator => "Invalid attribute operator"
  | attributeList => "Invalid attribute list"
  | attributeName => "Invalid attribute name"

end LexFault

/-- A fault and the offset it is reported at. -/
structure LexError where
  fault : LexFault
  offset : Nat
  deriving DecidableEq, Repr

namespace LexError

def diagnostic (error : LexError) (source : List Char) : Diagnostic :=
  .atOffset .lexer source error.offset error.fault.message

end LexError

end HtmlTemplate
