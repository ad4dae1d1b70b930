import HtmlTemplate.Expr.Operator

/-! What can go wrong when an expression is evaluated. -/

namespace HtmlTemplate

inductive EvalFault where
  | unknownName (name : String)
  | alreadyDefined (name : String)
  | nullOperand (op : Op)
  | operands (op : Op) (left right : String)
  | operand (op : Op) (kind : String)
  | divisionByZero
  | notAssignable
  | readOnly
  | notCallable
  | unsupported (op : Op)
  | invalidDictionary
  | invalidMixin
  | mixinRedefined (name : String)
  | mixinNotFound (name : String)
  | missingArgument (mixin parameter : String)
  | stepLimit
  /-- An error of a function of the host. -/
  | host (message : String)
  deriving DecidableEq, Repr

namespace EvalFault

def message : EvalFault → String
  | unknownName name => "Invalid variable name: " ++ name
  | alreadyDefined name => "Variable already defined: " ++ name
  | nullOperand op => "Invalid null operand for '" ++ op.symbol ++ "'"
  | operands op left right =>
    "Invalid operands for '" ++ op.symbol ++ "': " ++ left ++ " and " ++ right
  | operand op kind => "Invalid operand for '" ++ op.symbol ++ "': " ++ kind
  | divisionByZero => "Division by zero"
  | notAssignable => "Invalid assignment target"
  | readOnly => "Assignment to a read-only value"
  | notCallable => "Value is not callable"
  | unsupported op => "Operator '" ++ op.symbol ++ "' is not supported"
  | invalidDictionary => "Invalid dictionary literal"
  | invalidMixin => "Invalid mixin definition"
  | mixinRedefined name => "Mixin already defined: " ++ name
  | mixinNotFound name => "Mixin not found: " ++ name
  | missingArgument mixin parameter =>
    "Missing argument '" ++ parameter ++ "' for mixin " ++ mixin
  | stepLimit => "Step limit exceeded"
  | host message => message

end EvalFault

end HtmlTemplate
