import HtmlTemplate.Proofs.Arena.Agreement
import HtmlTemplate.Proofs.Arena.Shapes

/-! Reading an expression into an arena is done as a whole or not at all. What has been read is one tree of
exactly the nodes that have been added, each of them in the shape of its operator. -/

namespace HtmlTemplate

namespace Node

/-- A name, a literal or the missing arguments of a call, or a pair of empty brackets. -/
def IsLeaf (node : Node) : Prop :=
  node.left = none ∧ node.right = none ∧
    (node.op = .group ∧ (node.isName = true → node.value = .null ∨ ∃ text, node.value = .text text) ∨
      node.op = .subscript ∧ node.bracket = some .square ∨
      node.op = .construct ∧ node.bracket = some .curly)

/-- An operator before or after its operand, or brackets around brackets. -/
def HasOne (node : Node) (left : Nat) : Prop :=
  node.left = some left ∧ node.right = none ∧
    ((node.op.isLeading || node.op.isTrailing) = true ∨ node.op = .group ∧ node.bracket.isSome = true)

/-- An operator between its operands. -/
def HasTwo (node : Node) (left right : Nat) : Prop :=
  node.left = some left ∧ node.right = some right ∧
    (node.op.isLeading || node.op.isTrailing || node.op == .group) = false

end Node

namespace Arena

/-- One tree of nodes in the shapes of their operators, and the places of all of its nodes. It is told of a
tree whether it is the first two parts of a ternary, which have to be the left side of the whole. -/
inductive Spans (arena : Arena) : Bool → Nat → List Nat → Prop where
  | leaf {place : Nat} {node : Node} (found : arena[place]? = some node) (shape : node.IsLeaf) :
      Spans arena false place [place]
  | one {place left : Nat} {node : Node} {below : List Nat} (found : arena[place]? = some node)
      (shape : node.HasOne left) (child : Spans arena false left below) :
      Spans arena false place (place :: below)
  | two {place left right : Nat} {node : Node} {first second : List Nat} (found : arena[place]? = some node)
      (shape : node.HasTwo left right) (childLeft : Spans arena (node.op == .alternative) left first)
      (childRight : Spans arena false right second) :
      Spans arena (node.op == .condition) place (place :: first ++ second)

variable {arena after : Arena} {mark : Option Bracket} {place root : Nat} {tree : Expr} {below : List Nat}

theorem Holds.spans (held : Holds arena mark place tree below) (formed : tree.Formed) :
    Spans arena tree.isCondition place (place :: below) := by
  induction held with
  | name found => exact .leaf found ⟨rfl, rfl, .inl ⟨rfl, fun _ => .inr ⟨_, rfl⟩⟩⟩
  | literal found => exact .leaf found ⟨rfl, rfl, .inl ⟨rfl, nofun⟩⟩
  | noArguments found => exact .leaf found ⟨rfl, rfl, .inl ⟨rfl, fun _ => .inl rfl⟩⟩
  | emptyArray found => exact .leaf found ⟨rfl, rfl, .inr (.inl ⟨rfl, rfl⟩)⟩
  | emptyDict found => exact .leaf found ⟨rfl, rfl, .inr (.inr ⟨rfl, rfl⟩)⟩
  | unary found held step =>
    obtain ⟨single, alone, formed⟩ := formed
    exact .one found ⟨rfl, rfl, .inl single⟩ (alone ▸ step formed)
  | binary found heldLeft heldRight stepLeft stepRight =>
    obtain ⟨double, ternary, left, alone, -, right⟩ := formed
    exact .two found ⟨rfl, rfl, double⟩ (ternary ▸ stepLeft left) (alone ▸ stepRight right)
  | marked plain held step => exact step formed.2
  | grouped found double held step =>
    obtain ⟨alone, formed⟩ := formed
    rw [Expr.isCondition, alone]
    exact .one found ⟨rfl, rfl, .inr ⟨rfl, rfl⟩⟩ (alone ▸ step formed)

/-- Where nothing old has been changed, nodes have been added at the end. -/
theorem Grown.take_eq (grown : Grown arena [] after) : after.take arena.length = arena := by
  refine List.ext_getElem? fun other => ?_
  by_cases old : other < arena.length
  · rw [List.getElem?_take_of_lt old, grown.kept other old List.not_mem_nil]
  · have short : (after.take arena.length).length = arena.length := by
      rw [List.length_take, Nat.min_eq_left grown.length]
    rw [List.getElem?_eq_none (by omega), List.getElem?_eq_none (by omega)]

theorem Grown.appended (grown : Grown arena [] after) : ∃ new, after = arena ++ new := by
  refine ⟨after.drop arena.length, ?_⟩
  conv => rhs; lhs; rw [← grown.take_eq]
  exact (List.take_append_drop arena.length after).symm

theorem grown_append (arena : Arena) (new : List Node) : Grown arena [] (arena ++ new) :=
  ⟨by simp, fun _ old _ => List.getElem?_append_left old⟩

theorem expression_grown (grown : Grown (arena ++ [Node.blank]) [arena.length] after) : Grown arena [] after :=
  (grown_append arena [.blank]).trans grown fun _ member => .inr (Nat.le_of_eq (List.mem_singleton.mp member).symm)

/-- The place that an expression is given is a part of it. -/
theorem expression_builds (builds : Builds (arena ++ [Node.blank]) [arena.length] arena.length tree after) :
    Builds arena [] arena.length tree after := by
  refine .trans (grown_append ..) ?_ builds
  have one : added arena (arena ++ [Node.blank]) = [arena.length] := by simp [added]
  rw [one]
  exact .refl _

/-- An expression is read into an arena just as it is read without one. -/
theorem parse_agrees (arena : Arena) (options : ParseOptions) (source : List Char) (pos : Nat) :
    (∃ error, Expr.parseAt options source pos = .error error ∧
      arena.parse options source pos = (.error error, arena)) ∨
    ∃ tree stop after, Expr.parseAt options source pos = .ok (tree, stop) ∧
      arena.parse options source pos = (.ok (arena.length, stop), after) ∧
      Builds arena [] arena.length tree after ∧ Expr.Whole Reading.weakest tree := by
  unfold Arena.parse Expr.parseAt
  dsimp only
  cases dropBytes? (min pos (byteLength source)) source with
  | none => exact .inl ⟨_, rfl, rfl⟩
  | some rest =>
    generalize min pos (byteLength source) = start
    have follows := row_follows options ⟨start, rest⟩ (arena ++ [Node.blank]) arena.length (by simp)
    have whole := Reading.readExpr_whole options ⟨start, rest⟩
    dsimp only
    unfold Expr.parseFrom
    generalize filled : Filling.row options arena.length ⟨start, rest⟩ (arena ++ [Node.blank]) = outcome at follows
    generalize Parser.readExpr options ⟨start, rest⟩ = result at follows whole
    cases follows with
    | ok parsed builds =>
      rw [show Filling.expression options ⟨start, rest⟩ arena = _ from (bind_ok rfl).trans (bind_ok filled)]
      exact .inr ⟨_, _, _, rfl, rfl, expression_builds builds, whole parsed rfl⟩
    | error grown =>
      rw [show Filling.expression options ⟨start, rest⟩ arena = _ from (bind_ok rfl).trans (bind_error filled)]
      refine .inl ⟨_, rfl, ?_⟩
      dsimp only
      rw [(expression_grown grown).take_eq]

/-- If an expression is read into an arena, the arena has got new nodes at its end, which are one tree that
has each of them once. If it is not read, the arena is as it was. -/
theorem parse_spans (arena : Arena) (options : ParseOptions) (source : List Char) (pos : Nat) :
    (∃ error, arena.parse options source pos = (.error error, arena)) ∨
    ∃ root stop new places, arena.parse options source pos = (.ok (root, stop), arena ++ new) ∧
      Spans (arena ++ new) false root places ∧
      List.Perm places (List.range' arena.length new.length) := by
  obtain ⟨error, -, failed⟩ | ⟨tree, stop, after, -, read, builds, whole⟩ :=
    parse_agrees arena options source pos
  · exact .inl ⟨error, failed⟩
  · obtain ⟨grown, below, held, places⟩ := builds
    obtain ⟨new, rfl⟩ := grown.appended
    refine .inr ⟨arena.length, stop, new, _, read, whole.alone ▸ held.spans whole.formed, ?_⟩
    rw [List.nil_append, added, List.length_append, Nat.add_sub_cancel_left] at places
    exact places

end Arena

end HtmlTemplate
