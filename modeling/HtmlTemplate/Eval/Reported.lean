import HtmlTemplate.Eval.Basic

/-! Evaluation as templates use it: a fault is reported, and the result is undefined. -/

namespace HtmlTemplate

/-- What a loop goes over. -/
inductive LoopSource where
  | empty
  | scalar (value : Value)
  | array (place : Place) (length : Nat) (mutable : Bool)
  | dict (place : Place) (keys : List String) (mutable : Bool)

namespace Context

def evaluate (mode : EvalMode) (expr : Expr) (context : Context) : Handle × Context :=
  match Eval.eval mode expr context with
  | (.ok handle, after) => (handle, after)
  | (.error fault, after) => (.undefined, after.reportFault fault)

def exec (expr : Expr) (context : Context) : Handle × Context := context.evaluate .strict expr

/-- Evaluates a guard: unknown names are absent. -/
def probe (expr : Expr) (context : Context) : Handle × Context := context.evaluate .guard expr

/-- The value of an expression, if it has one. -/
def execValue? (expr : Expr) (context : Context) : Option Value × Context :=
  let (handle, after) := context.exec expr
  (after.read? handle, after)

/-- The value of an expression, or null. -/
def execValue (expr : Expr) (context : Context) : Value × Context :=
  let (value, after) := context.execValue? expr
  (value.getD .null, after)

/-- Whether a guard holds; one that fails does not. -/
def holds (guard : Expr) (context : Context) : Bool × Context :=
  let (handle, after) := context.probe guard
  (after.truthy handle, after)

/-- The values of the arguments in brackets, unless one of them fails. -/
def execArguments (arguments : Expr) (context : Context) : Option (List Value) × Context :=
  match Eval.evalItems .strict arguments.items context with
  | (.ok values, after) => (some values, after)
  | (.error fault, after) => (none, after.reportFault fault)

/-- What a loop over the value at a place goes over. -/
def loopAt (context : Context) (place : Place) (mutable : Bool) : LoopSource :=
  match context.resolve? place with
  | some (.array items) => if items.isEmpty then .empty else .array place items.length mutable
  | some (.dict entries) =>
    if entries.isEmpty then .empty else .dict place (Entries.names entries) mutable
  | some .null | none => .empty
  | some value => .scalar value

/-- What a loop goes over. A container of its own is kept by the scope, so that the loop can
refer to its elements. -/
def loopSource (handle : Handle) (context : Context) : LoopSource × Context :=
  match handle with
  | .owned .null => (.empty, context)
  | .owned value =>
    if value.isContainer then
      let (place, after) := context.pushTemp value
      (after.loopAt place true, after)
    else (.scalar value, context)
  | handle =>
    match handle.place? with
    | some place => (context.loopAt (context.canonical place) (context.isMutable place), context)
    | none => (.empty, context)

end Context

end HtmlTemplate
