/-! The operators of expressions: how tightly each binds, which way it groups, and how it
is written. -/

namespace HtmlTemplate

inductive Op where
  /-- A bracket around a bracket. -/
  | group
  | declare
  | postIncrement
  | postDecrement
  | sharp
  | member
  | scope
  | call
  | subscript
  | construct
  | preIncrement
  | preDecrement
  | negate
  | not
  | complement
  | multiply
  | divide
  | remainder
  | add
  | subtract
  | shiftLeft
  | shiftRight
  | less
  | lessEq
  | greater
  | greaterEq
  | equal
  | notEqual
  | bitAnd
  | bitXor
  | bitOr
  | and
  | or
  /-- Condition and first branch of a ternary; stands only on the left of `alternative`. -/
  | condition
  | alternative
  | assign
  | addAssign
  | subtractAssign
  | multiplyAssign
  | divideAssign
  | remainderAssign
  | shiftLeftAssign
  | shiftRightAssign
  | andAssign
  | xorAssign
  | orAssign
  | colon
  | comma
  | sequence
  deriving DecidableEq, Repr, Inhabited

namespace Op

/-- Every operator, in the order of the operator table. -/
def all : List Op :=
  [group, declare, postIncrement, postDecrement, sharp, member, scope, call, subscript,
    construct, preIncrement, preDecrement, negate, not, complement, multiply, divide, remainder,
    add, subtract, shiftLeft, shiftRight, less, lessEq, greater, greaterEq, equal, notEqual,
    bitAnd, bitXor, bitOr, and, or, condition, alternative, assign, addAssign, subtractAssign,
    multiplyAssign, divideAssign, remainderAssign, shiftLeftAssign, shiftRightAssign, andAssign,
    xorAssign, orAssign, colon, comma, sequence]

/-- The place of an operator in the table. -/
def index (op : Op) : Nat := all.idxOf op

/-- Binding strength: the lower the number, the tighter the operator binds. -/
def priority : Op → Nat
  | group => 0
  | declare | postIncrement | postDecrement | sharp | member | scope | call | subscript
  | construct => 1
  | preIncrement | preDecrement | negate | not | complement => 2
  | multiply | divide | remainder => 3
  | add | subtract => 4
  | shiftLeft | shiftRight => 5
  | less | lessEq | greater | greaterEq => 6
  | equal | notEqual => 7
  | bitAnd => 8
  | bitXor => 9
  | bitOr => 10
  | and => 11
  | or => 12
  | condition => 13
  | alternative => 14
  | assign | addAssign | subtractAssign | multiplyAssign | divideAssign | remainderAssign
  | shiftLeftAssign | shiftRightAssign | andAssign | xorAssign | orAssign => 15
  | colon => 16
  | comma => 17
  | sequence => 18

def isAssignment : Op → Bool
  | assign | addAssign | subtractAssign | multiplyAssign | divideAssign | remainderAssign
  | shiftLeftAssign | shiftRightAssign | andAssign | xorAssign | orAssign => true
  | _ => false

/-- Operators of equal strength group to the right. -/
def isRightAssoc : Op → Bool
  | preIncrement | preDecrement | negate | not | complement | condition | alternative => true
  | op => op.isAssignment

/-- Written before the operand. -/
def isLeading : Op → Bool
  | declare | preIncrement | preDecrement | negate | not | complement => true
  | _ => false

/-- Written after the operand, without a right side. -/
def isTrailing : Op → Bool
  | postIncrement | postDecrement => true
  | _ => false

/-- The operator as it is written. -/
def symbol : Op → String
  | group => ""
  | declare => "var"
  | postIncrement | preIncrement => "++"
  | postDecrement | preDecrement => "--"
  | sharp => "#"
  | member => "."
  | scope => "::"
  | call => "()"
  | subscript => "[]"
  | construct => "\x7b\x7d"
  | negate | subtract => "-"
  | not => "!"
  | complement => "~"
  | multiply => "*"
  | divide => "/"
  | remainder => "%"
  | add => "+"
  | shiftLeft => "<<"
  | shiftRight => ">>"
  | less => "<"
  | lessEq => "<="
  | greater => ">"
  | greaterEq => ">="
  | equal => "=="
  | notEqual => "!="
  | bitAnd => "&"
  | bitXor => "^"
  | bitOr => "|"
  | and => "&&"
  | or => "||"
  | condition => "?"
  | alternative => "?:"
  | assign => "="
  | addAssign => "+="
  | subtractAssign => "-="
  | multiplyAssign => "*="
  | divideAssign => "/="
  | remainderAssign => "%="
  | shiftLeftAssign => "<<="
  | shiftRightAssign => ">>="
  | andAssign => "&="
  | xorAssign => "^="
  | orAssign => "|="
  | colon => ":"
  | comma => ","
  | sequence => ";"

/-- The name that tells operators of one spelling apart in a dump. -/
def dumpName : Op → String
  | group => "group"
  | postIncrement => "post++"
  | postDecrement => "post--"
  | preIncrement => "pre++"
  | preDecrement => "pre--"
  | negate => "neg"
  | call => "call"
  | subscript => "index"
  | construct => "construct"
  | op => op.symbol

/-- The operator that a compound assignment applies before it stores. -/
def assignmentBase : Op → Option Op
  | addAssign => some add
  | subtractAssign => some subtract
  | multiplyAssign => some multiply
  | divideAssign => some divide
  | remainderAssign => some remainder
  | shiftLeftAssign => some shiftLeft
  | shiftRightAssign => some shiftRight
  | andAssign => some bitAnd
  | xorAssign => some bitXor
  | orAssign => some bitOr
  | _ => none

theorem mem_all (op : Op) : op ∈ all := by cases op <;> decide

end Op

end HtmlTemplate
