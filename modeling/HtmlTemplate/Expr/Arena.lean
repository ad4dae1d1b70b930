import HtmlTemplate.Expr.Basic

/-! Expression trees that share one list of nodes, in which they refer to their children by place. An
operator is added to a tree without looking for what refers to it: the node at which it goes is moved to a
new place, and the operator takes the old one. -/

namespace HtmlTemplate

/-- A node of an expression tree. Its children are places in an arena. -/
structure Node where
  op : Op
  left : Option Nat
  right : Option Nat
  /-- The brackets that it has been written in. -/
  bracket : Option Bracket
  /-- A leaf is a name or a literal. A name without text is what stands between the brackets of a call
  without arguments. -/
  isName : Bool
  value : Value

namespace Node

/-- A node that is still to be filled. -/
def blank : Node :=
  { op := .group, left := none, right := none, bracket := none, isName := false, value := .null }

def ofOp (op : Op) (left right : Option Nat) : Node := { blank with op, left, right }

/-- The node of a name or a literal, or of no arguments. -/
def ofLeaf : Expr → Node
  | .name text => { blank with isName := true, value := .text text }
  | .literal value => { blank with value }
  | _ => { blank with isName := true }

end Node

/-- Nodes by place. There is no bound on places. -/
abbrev Arena := List Node

namespace Arena

def node (arena : Arena) (place : Nat) : Node := (arena[place]?).getD .blank

/-- Goes down the right edge of a tree past every weaker operator, by so many steps at most. -/
def descend (arena : Arena) (op : Op) : Nat → Nat → Nat
  | 0, current => current
  | steps + 1, current =>
    let node := arena.node current
    if node.op.priority ≤ op.priority || node.bracket.isSome then current
    else match node.right.or node.left with
      | some child => descend arena op steps child
      | none => current

/-- Whether a node goes on with a chain of operators of one strength. -/
def continues (arena : Arena) (op : Op) (place : Nat) : Bool :=
  let node := arena.node place
  node.left.isSome && node.right.isSome && node.op.priority == op.priority && node.bracket.isNone

/-- Goes down a chain of operators of one strength to the last one, by so many steps at most. -/
def chainEnd (arena : Arena) (op : Op) : Nat → Nat → Nat
  | 0, last => last
  | steps + 1, last =>
    match (arena.node last).right with
    | some next => if arena.continues op next then chainEnd arena op steps next else last
    | none => last

/-- Adds an operator to the tree at a place. Gives the place of the operator, whose right side is still to
be filled. No way down is longer than the arena. -/
def insert (op : Op) (root : Nat) (arena : Arena) : Nat × Arena :=
  let current := arena.descend op arena.length root
  let node := arena.node current
  let free := arena.length
  if op.isRightAssoc && op.priority ≤ node.op.priority && node.bracket.isNone && node.right.isSome then
    let last := arena.chainEnd op arena.length current
    let linked := { arena.node last with right := some (free + 1) }
    (free + 1, (arena ++ [Node.blank, .ofOp op (arena.node last).right (some free)]).set last linked)
  else if op.isTrailing then (current, (arena ++ [node]).set current (.ofOp op (some free) none))
  else (current, (arena ++ [node, .blank]).set current (.ofOp op (some free) (some (free + 1))))

/-- Marks a tree with the brackets around it. A tree that has brackets already keeps them, below a node for
the outer ones. -/
def enclose (bracket : Bracket) (place : Nat) (arena : Arena) : Arena :=
  let node := arena.node place
  if node.bracket.isSome then
    (arena ++ [node]).set place { Node.blank with left := some arena.length, bracket := some bracket }
  else arena.set place { node with bracket := some bracket }

end Arena

end HtmlTemplate
