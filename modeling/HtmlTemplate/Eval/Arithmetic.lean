import HtmlTemplate.Eval.Fault
import HtmlTemplate.Value.Coercion

/-! Operators on values. Integers and truth values are computed with in 64 bits, all other
numbers and texts in floating point. -/

namespace HtmlTemplate.Value

/-- Values that integer operators take. -/
def asInt? : Value → Option Int64
  | int number => some number
  | bool flag => some (ofBool flag)
  | _ => none

/-- How two floats compare, if both are numbers. -/
def compareFloats (left right : Float) : Option Ordering :=
  if left < right then some .lt
  else if left == right then some .eq
  else if right < left then some .gt
  else none

def invalidOperands (op : Op) (left right : Value) : EvalFault :=
  .operands op left.kindName right.kindName

/-- How two values compare: texts by their characters, integers as such and everything else
as floats. What is not a number has no order. -/
def compare? (op : Op) (left right : Value) : Except EvalFault (Option Ordering) :=
  match left, right with
  | text first, text second => .ok (some (compare first second))
  | _, _ =>
    if left.isBasic && right.isBasic then
      match left.asInt?, right.asInt? with
      | some first, some second => .ok (some (compare first.toInt second.toInt))
      | _, _ => .ok (compareFloats left.toFloat right.toFloat)
    else .error (invalidOperands op left right)

/-- Whether an order makes a comparison true. -/
def ordered (op : Op) (ordering : Ordering) : Bool :=
  match op with
  | .less => ordering == .lt
  | .lessEq => ordering != .gt
  | .greater => ordering == .gt
  | _ => ordering != .lt

/-- Comparisons with null are false. -/
def comparison (op : Op) (left right : Value) : Except EvalFault Value :=
  if left.isNull || right.isNull then .ok (bool false)
  else (compare? op left right).map fun ordering => bool (ordering.any (ordered op))

def integerArithmetic (op : Op) (left right : Int64) : Except EvalFault Value :=
  match op with
  | .add => .ok (int (left + right))
  | .subtract => .ok (int (left - right))
  | .multiply => .ok (int (left * right))
  | .divide => if right = 0 then .error .divisionByZero else .ok (int (left / right))
  | _ => .error (.unsupported op)

def floatArithmetic (op : Op) (left right : Float) : Except EvalFault Value :=
  match op with
  | .add => .ok (float (left + right))
  | .subtract => .ok (float (left - right))
  | .multiply => .ok (float (left * right))
  | .divide => .ok (float (left / right))
  | _ => .error (.unsupported op)

/-- Arithmetic of integers if both sides are, else of floats. -/
def arithmetic (op : Op) (left right : Value) : Except EvalFault Value :=
  if left.isBasic && right.isBasic then
    match left.asInt?, right.asInt? with
    | some first, some second => integerArithmetic op first second
    | _, _ => floatArithmetic op left.toFloat right.toFloat
  else .error (invalidOperands op left right)

/-- Addition also joins: texts with anything but containers, arrays, and dictionaries, of
which the right one wins. -/
def add (left right : Value) : Except EvalFault Value :=
  match left, right with
  | array first, array second => .ok (array (first ++ second))
  | dict first, dict second => .ok (dict (Entries.union first second))
  | _, _ =>
    if (left.isText || right.isText) && !left.isContainer && !right.isContainer then
      .ok (text (left.toText ++ right.toText))
    else arithmetic .add left right

/-- The number of places of a shift. -/
def shiftCount? (places : Int64) : Option Nat :=
  if 0 ≤ places.toInt ∧ places.toInt ≤ 0xFFFFFFFF then some places.toInt.toNat else none

/-- Shifting by the width or more leaves nothing. -/
def shiftLeft (number : Int64) (places : Nat) : Int64 :=
  if places < 64 then number <<< Int64.ofNat places else 0

/-- Shifting by the width or more leaves the sign. -/
def shiftRight (number : Int64) (places : Nat) : Int64 :=
  if places < 64 then number >>> Int64.ofNat places else if number < 0 then -1 else 0

/-- Operators that are for integers alone. -/
def integerOperation (op : Op) (left right : Value) : Except EvalFault Value :=
  match left.asInt?, right.asInt? with
  | some first, some second =>
    match op with
    | .remainder => if second = 0 then .error .divisionByZero else .ok (int (first % second))
    | .shiftLeft =>
      match shiftCount? second with
      | some places => .ok (int (shiftLeft first places))
      | none => .error (invalidOperands op left right)
    | .shiftRight =>
      match shiftCount? second with
      | some places => .ok (int (shiftRight first places))
      | none => .error (invalidOperands op left right)
    | .bitAnd => .ok (int (first &&& second))
    | .bitXor => .ok (int (first ^^^ second))
    | .bitOr => .ok (int (first ||| second))
    | _ => .error (.unsupported op)
  | _, _ => .error (invalidOperands op left right)

/-- The operators between two values, but for those that decide whether to evaluate their
right side at all. Only equality, comparisons and the comma take null. -/
def binary (op : Op) (left right : Value) : Except EvalFault Value :=
  match op with
  | .equal => .ok (bool (eq left right))
  | .notEqual => .ok (bool (!eq left right))
  | .less | .lessEq | .greater | .greaterEq => comparison op left right
  | .comma => .ok (text (left.toText ++ right.toText))
  | _ =>
    if left.isNull || right.isNull then .error (.nullOperand op)
    else match op with
      | .add => add left right
      | .subtract | .multiply | .divide => arithmetic op left right
      | .remainder | .shiftLeft | .shiftRight | .bitAnd | .bitXor | .bitOr =>
        integerOperation op left right
      | _ => .error (.unsupported op)

/-- The operators in front of a value. -/
def unary (op : Op) (value : Value) : Except EvalFault Value :=
  match op with
  | .not => .ok (bool !value.toBool)
  | _ =>
    if value.isNull then .error (.nullOperand op)
    else match op, value with
      | .negate, float number => .ok (float (-number))
      | .negate, text _ => .ok (float (-value.toFloat))
      | .negate, _ => integer (- ·)
      | .complement, _ => integer (~~~ ·)
      | _, _ => .error (.unsupported op)
where
  integer (operation : Int64 → Int64) : Except EvalFault Value :=
    match value.asInt? with
    | some number => .ok (int (operation number))
    | none => .error (.operand op value.kindName)

/-- The value that a compound assignment stores. Adding to null gives the right side, and a
text takes anything but containers, null included. -/
def assigned (op : Op) (target value : Value) : Except EvalFault Value :=
  match op.assignmentBase with
  | none => .error (.unsupported op)
  | some .add =>
    match target, value with
    | null, _ => .ok value
    | text content, _ =>
      if value.isContainer then binary .add target value
      else .ok (text (content ++ value.toText))
    | _, _ => binary .add target value
  | some base => binary base target value

/-- The value after an increment or a decrement. -/
def stepped (up : Bool) (value : Value) : Except EvalFault Value :=
  let op : Op := if up then .preIncrement else .preDecrement
  match value with
  | int number => .ok (int (if up then number + 1 else number - 1))
  | float number => .ok (float (number + if up then 1 else -1))
  | null => .error (.nullOperand op)
  | _ => .error (.operand op value.kindName)

end HtmlTemplate.Value
