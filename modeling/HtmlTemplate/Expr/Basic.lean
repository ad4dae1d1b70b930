import HtmlTemplate.Expr.Operator
import HtmlTemplate.Value.Coercion

/-! Expression trees. -/

namespace HtmlTemplate

inductive Bracket where
  | round
  | square
  | curly
  deriving DecidableEq, Repr

inductive Expr where
  | name (text : String)
  | literal (value : Value)
  /-- What stands between the brackets of a call without arguments. -/
  | noArguments
  | emptyArray
  | emptyDict
  | unary (op : Op) (operand : Expr)
  | binary (op : Op) (left right : Expr)
  /-- An expression in brackets: grouped, or the elements of an array or a dictionary. -/
  | bracketed (bracket : Bracket) (inner : Expr)
  deriving Inhabited

namespace Expr

/-- Bracketed expressions are finished: no operator reaches into them. -/
def isBracketed : Expr → Bool
  | emptyArray | emptyDict | bracketed _ _ => true
  | _ => false

/-- The name that an expression consists of, in one bracket or in none. -/
def name? : Expr → Option String
  | name text => some text
  | bracketed _ (name text) => some text
  | _ => none

/-- An operator with its operands; without a right one it stands after its operand. -/
def join (op : Op) (left : Expr) : Option Expr → Expr
  | some right => binary op left right
  | none => unary op left

/-- Adds an operator at the end of a chain of right-grouping operators of its strength. -/
def extend (op : Op) (right : Option Expr) : Expr → Expr
  | binary link left chain =>
    if link.priority = op.priority then binary link left (extend op right chain)
    else join op (binary link left chain) right
  | tree => join op tree right

/-- Adds the next operator of a row to the tree of what stands before it. It goes down the
right edge past every weaker operator, and there takes what it finds as its left side. -/
def insert (op : Op) (right : Option Expr) : Expr → Expr
  | binary link left chain =>
    if op.priority < link.priority then binary link left (insert op right chain)
    else if op.isRightAssoc ∧ link.priority = op.priority then
      binary link left (extend op right chain)
    else join op (binary link left chain) right
  | unary link operand =>
    if op.priority < link.priority then unary link (insert op right operand)
    else join op (unary link operand) right
  | tree => join op tree right

/-- The elements of a row joined by commas. -/
def sequence : Expr → List Expr
  | binary .comma left right => sequence left ++ sequence right
  | tree => [tree]

/-- The elements inside a pair of brackets. -/
def elements : Expr → List Expr
  | noArguments | emptyArray | emptyDict => []
  | tree => sequence tree

/-- The elements of a bracketed expression, or of a row without brackets. A bracket around
a bracket has that one element. -/
def items : Expr → List Expr
  | bracketed _ inner => if inner.isBracketed then [inner] else elements inner
  | tree => elements tree

/-- Key and value of a dictionary entry, in one bracket or in none. -/
def entry? : Expr → Option (Expr × Expr)
  | binary .colon key value => some (key, value)
  | bracketed _ (binary .colon key value) => some (key, value)
  | _ => none

/-- The two sides of an assignment, in one bracket or in none. -/
def assignment? : Expr → Option (Expr × Expr)
  | binary .assign target value => some (target, value)
  | bracketed _ (binary .assign target value) => some (target, value)
  | _ => none

/-- What is called and the arguments of a call, in one bracket or in none. -/
def call? : Expr → Option (Expr × Expr)
  | binary .call callee arguments => some (callee, arguments)
  | bracketed _ (binary .call callee arguments) => some (callee, arguments)
  | _ => none

/-- The name that an expression defines: it is the name, or a call of it. -/
def definedName? (expr : Expr) : Option String :=
  match expr, expr.call? with
  | name text, _ | _, some (name text, _) => some text
  | _, _ => none

/-- Whether an expression has a value of its own: it calls nothing and names nothing but
the keys of dictionaries. `asKey` tells that it stands before a colon. -/
def isConstAt (asKey : Bool) : Expr → Bool
  | name _ | noArguments => asKey
  | literal _ | emptyArray | emptyDict => true
  | unary op operand => op != .call && isConstAt false operand
  | binary op left right =>
    op != .call && isConstAt (op == .colon) left && isConstAt false right
  | bracketed _ inner => isConstAt (asKey && !inner.isBracketed) inner

def isConst : Expr → Bool := isConstAt false

def literalText : Value → String
  | .null => "null"
  | .text content => Quoted.json content
  | .float number =>
    let text := Decimal.plainText number
    if number.isFinite && !text.toList.contains '.' then text ++ ".0" else text
  | value => value.toText

def bracketText (bracket : Bracket) (inner : String) : String :=
  match bracket with
  | .round => inner
  | .square => "[" ++ inner ++ "]"
  | .curly => "\x7b" ++ inner ++ "\x7d"

/-- The tree in nested round brackets, operators first. -/
def dump : Expr → String
  | name text => text
  | literal value => literalText value
  | noArguments => "()"
  | emptyArray => "[]"
  | emptyDict => "\x7b\x7d"
  | unary op operand => "(" ++ op.dumpName ++ " " ++ dump operand ++ ")"
  | binary op left right =>
    "(" ++ op.dumpName ++ " " ++ dump left ++ " " ++ dump right ++ ")"
  | bracketed bracket inner =>
    bracketText bracket
      (if inner.isBracketed then "(" ++ Op.group.dumpName ++ " " ++ dump inner ++ ")"
        else dump inner)

/-! The parts of an expression are smaller than the expression, so that evaluation can go
from an expression to its elements and entries. -/

/-- The sizes of some expressions together. -/
noncomputable def totalSize : List Expr → Nat
  | [] => 0
  | first :: rest => sizeOf first + totalSize rest

@[simp] theorem totalSize_nil : totalSize [] = 0 := rfl

@[simp] theorem totalSize_cons (first : Expr) (rest : List Expr) :
    totalSize (first :: rest) = sizeOf first + totalSize rest := rfl

@[simp] theorem totalSize_append (first second : List Expr) :
    totalSize (first ++ second) = totalSize first + totalSize second := by
  induction first with
  | nil => simp
  | cons expr first step => simp only [List.cons_append, totalSize_cons, step, Nat.add_assoc]

theorem sizeOf_pos (expr : Expr) : 0 < sizeOf expr :=
  Nat.pos_of_ne_zero (by cases expr <;> simp)

theorem totalSize_sequence_le (expr : Expr) : totalSize (sequence expr) ≤ sizeOf expr := by
  fun_induction sequence expr with
  | case1 left right leftLe rightLe =>
    simp only [totalSize_append, binary.sizeOf_spec]
    omega
  | case2 => simp

theorem totalSize_elements_le (expr : Expr) : totalSize (elements expr) ≤ sizeOf expr := by
  unfold elements
  split
  case h_4 => exact totalSize_sequence_le _
  all_goals simp

theorem totalSize_items_le (expr : Expr) : totalSize (items expr) ≤ sizeOf expr := by
  unfold items
  split
  · have := totalSize_elements_le ‹Expr›
    split
    · simp
    · simp
      omega
  · exact totalSize_elements_le _

theorem totalSize_items_bracketed_lt (bracket : Bracket) (inner : Expr) :
    totalSize (items (bracketed bracket inner)) < sizeOf (bracketed bracket inner) := by
  have := totalSize_elements_le inner
  simp only [items, bracketed.sizeOf_spec]
  split
  · simp only [totalSize_cons, totalSize_nil]
    omega
  · omega

theorem sizeOf_entry?_lt {expr key value : Expr} (found : expr.entry? = some (key, value)) :
    sizeOf key < sizeOf expr ∧ sizeOf value < sizeOf expr := by
  unfold entry? at found
  split at found <;> cases found <;> simp <;> omega

end Expr

end HtmlTemplate
