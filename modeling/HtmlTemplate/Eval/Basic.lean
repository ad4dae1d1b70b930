import HtmlTemplate.Eval.Arithmetic
import HtmlTemplate.Eval.Handle
import HtmlTemplate.Expr.Basic

/-! Evaluation of expressions. An operand is looked at when the operator is applied, so that
the effects of the other operand come first; what has happened before a fault stays. -/

namespace HtmlTemplate

/-- How an expression is evaluated. -/
structure EvalMode where
  /-- Unknown names are no fault. -/
  soft : Bool
  /-- The result will be written: a dictionary need not have its last key. -/
  target : Bool
  deriving DecidableEq

namespace EvalMode

def strict : EvalMode := { soft := false, target := false }

/-- For guards. -/
def guard : EvalMode := { soft := true, target := false }

def writing : EvalMode := { soft := false, target := true }

/-- For the parts of an expression that are only read. -/
def operand (mode : EvalMode) : EvalMode := { mode with target := false }

end EvalMode

namespace Eval

/-- What a name stands for. -/
def lookupName (mode : EvalMode) (name : String) : EvalM Handle := do
  let context ← get
  match context.find? name with
  | none => if mode.soft then return .absent else throw (.unknownName name)
  | some frame =>
    match context.binding? frame name with
    | some (.function function) => return .function function none
    | some (.hostClass hostClass) => return .hostClass hostClass
    | _ => return .slot frame name

/-- Declares a name in the innermost scope. -/
def declare (name : String) : EvalM Handle := do
  let context ← get
  if (context.binding? context.current name).isSome then throw (.alreadyDefined name)
  else
    set (context.bind name .unset)
    return .slot context.current name

def call (callee : Handle) (arguments : List Value) : EvalM Handle :=
  match callee with
  | .function function receiver =>
    match function receiver arguments with
    | .ok value => return .owned value
    | .error message => throw (.host message)
  | _ => throw .notCallable

/-- The operand that decides a conjunction or a disjunction. Null counts as false. -/
def deciding (handle : Handle) : EvalM Handle := do
  return if ((← get).valueOf handle).isNull then .owned (.bool false) else handle

def ofResult (result : Except EvalFault Value) : EvalM Handle :=
  match result with
  | .ok value => return .owned value
  | .error fault => throw fault

def valueOf (handle : Handle) : EvalM Value := do return (← get).valueOf handle

/-- Changes a target by one and gives the target. -/
def stepBefore (up : Bool) (target : Handle) : EvalM Handle := do
  Assignment.update target (Value.stepped up)
  return target.settled

/-- Changes a target by one and gives the value it had. -/
def stepAfter (up : Bool) (target : Handle) : EvalM Handle := do
  let old ← valueOf target
  Assignment.update target (Value.stepped up)
  return .owned old

/-- The operators that take two values. -/
def takesValues : Op → Bool
  | .multiply | .divide | .remainder | .add | .subtract | .shiftLeft | .shiftRight | .less
  | .lessEq | .greater | .greaterEq | .equal | .notEqual | .bitAnd | .bitXor | .bitOr
  | .comma => true
  | _ => false

/-- What is asked for in brackets after a value. -/
def subscriptKey : Expr → Expr
  | .bracketed _ inner => inner
  | expr => expr

theorem sizeOf_subscriptKey_le (expr : Expr) : sizeOf (subscriptKey expr) ≤ sizeOf expr := by
  cases expr <;> simp [subscriptKey]

mutual

def eval (mode : EvalMode) (expr : Expr) : EvalM Handle :=
  match expr with
  | .name name => lookupName mode name
  | .literal value => return .owned value
  | .noArguments => return .owned .null
  | .emptyArray => return .owned (.array [])
  | .emptyDict => return .owned (.dict [])
  | .bracketed .round inner => eval mode inner
  | .bracketed .square inner => do
    return .owned (.array (← evalItems mode.operand (Expr.items (.bracketed .square inner))))
  | .bracketed .curly inner => do
    return .owned (.dict (← evalEntries mode.operand [] (Expr.items (.bracketed .curly inner))))
  | .unary op operand =>
    match op with
    | .declare =>
      match operand.name? with
      | some name => declare name
      | none => throw .notAssignable
    | .preIncrement => do stepBefore true (← eval .writing operand)
    | .preDecrement => do stepBefore false (← eval .writing operand)
    | .postIncrement => do stepAfter true (← eval .writing operand)
    | .postDecrement => do stepAfter false (← eval .writing operand)
    | .negate | .not | .complement => do
      let handle ← eval mode.operand operand
      ofResult (Value.unary op (← valueOf handle))
    | _ => throw (.unsupported op)
  | .binary op left right =>
    match op with
    | .member => do
      let base ← eval mode.operand left
      let member : Member := .name (right.name?.getD "")
      return Member.ofHandle (← get) base mode.target member
    | .subscript => do
      let base ← eval mode.operand left
      let key ← eval mode.operand (subscriptKey right)
      let member := Member.ofValue (← valueOf key)
      return Member.ofHandle (← get) base mode.target member
    | .call => do
      let callee ← eval mode.operand left
      call callee (← evalItems mode.operand (Expr.items right))
    | .and => do
      let first ← eval mode.operand left
      if (← get).truthy first then deciding (← eval mode.operand right) else deciding first
    | .or => do
      let first ← eval mode.operand left
      if (← get).truthy first then deciding first else deciding (← eval mode.operand right)
    | .alternative =>
      match left with
      | .binary .condition condition chosen => do
        let decision ← eval .guard condition
        if (← get).truthy decision then eval mode chosen else eval mode right
      | _ => throw (.unsupported .alternative)
    | .sequence => do
      let _ ← eval mode.operand left
      eval mode right
    | .assign => do
      let value ← eval mode.operand right
      let target ← eval .writing left
      Assignment.assign target value
    | _ =>
      if op.isAssignment then do
        let value ← valueOf (← eval mode.operand right)
        let target ← eval .writing left
        Assignment.update target (Value.assigned op · value)
        return target.settled
      else if takesValues op then do
        let first ← eval mode.operand left
        let second ← eval mode.operand right
        ofResult (Value.binary op (← valueOf first) (← valueOf second))
      else throw (.unsupported op)
termination_by 2 * sizeOf expr
decreasing_by
  · simp
  · have := Expr.totalSize_items_bracketed_lt .square inner
    omega
  · have := Expr.totalSize_items_bracketed_lt .curly inner
    omega
  all_goals
    try have := sizeOf_subscriptKey_le right
    try have := Expr.totalSize_items_le right
    simp only [Expr.unary.sizeOf_spec, Expr.binary.sizeOf_spec]
    omega

/-- The values of some expressions, in their order. -/
def evalItems (mode : EvalMode) (items : List Expr) : EvalM (List Value) :=
  match items with
  | [] => return []
  | item :: rest => do
    let value ← valueOf (← eval mode item)
    return value :: (← evalItems mode rest)
termination_by 2 * Expr.totalSize items + 1
decreasing_by
  all_goals
    have := Expr.sizeOf_pos item
    simp only [Expr.totalSize_cons]
    omega

/-- Adds the entries of a dictionary to those read before. -/
def evalEntries (mode : EvalMode) (dict : List (String × Value)) (items : List Expr) :
    EvalM (List (String × Value)) :=
  match items with
  | [] => return dict
  | item :: rest =>
    match _found : item.entry? with
    | none => throw .invalidDictionary
    | some (key, element) => do
      let name ← match key.name? with
        | some name => pure name
        | none => do pure (← valueOf (← eval mode key)).toText
      let value ← valueOf (← eval mode element)
      evalEntries mode (Entries.insert name value dict) rest
termination_by 2 * Expr.totalSize items + 1
decreasing_by
  all_goals
    have := Expr.sizeOf_entry?_lt _found
    have := Expr.sizeOf_pos item
    simp only [Expr.totalSize_cons]
    omega

end

end Eval

end HtmlTemplate
