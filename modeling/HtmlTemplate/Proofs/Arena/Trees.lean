import HtmlTemplate.Expr.Arena

/-! Trees in an arena. The places of a tree are listed, so that what is changed elsewhere is seen to leave
the tree alone, and a tree may be moved or be put in the place of another one. -/

namespace HtmlTemplate.Arena

/-- The tree at a place, whose node is marked with a bracket or with none, and the places of the nodes
below it. -/
inductive Holds (arena : Arena) : Option Bracket → Nat → Expr → List Nat → Prop where
  | name {mark : Option Bracket} {place : Nat} {text : String}
      (found : arena[place]? = some { Node.ofLeaf (.name text) with bracket := mark }) :
      Holds arena mark place (.name text) []
  | literal {mark : Option Bracket} {place : Nat} {value : Value}
      (found : arena[place]? = some { Node.ofLeaf (.literal value) with bracket := mark }) :
      Holds arena mark place (.literal value) []
  | noArguments {mark : Option Bracket} {place : Nat}
      (found : arena[place]? = some { Node.ofLeaf .noArguments with bracket := mark }) :
      Holds arena mark place .noArguments []
  | emptyArray {place : Nat}
      (found : arena[place]? = some { Node.blank with op := .subscript, bracket := some .square }) :
      Holds arena none place .emptyArray []
  | emptyDict {place : Nat}
      (found : arena[place]? = some { Node.blank with op := .construct, bracket := some .curly }) :
      Holds arena none place .emptyDict []
  | unary {mark : Option Bracket} {place left : Nat} {op : Op} {operand : Expr} {below : List Nat}
      (found : arena[place]? = some { Node.ofOp op (some left) none with bracket := mark })
      (held : Holds arena none left operand below) :
      Holds arena mark place (.unary op operand) (left :: below)
  | binary {mark : Option Bracket} {place left right : Nat} {op : Op} {first second : Expr}
      {belowLeft belowRight : List Nat}
      (found : arena[place]? = some { Node.ofOp op (some left) (some right) with bracket := mark })
      (heldLeft : Holds arena none left first belowLeft)
      (heldRight : Holds arena none right second belowRight) :
      Holds arena mark place (.binary op first second) (left :: belowLeft ++ right :: belowRight)
  /-- Brackets around a tree without brackets are marked on its node. -/
  | marked {bracket : Bracket} {place : Nat} {inner : Expr} {below : List Nat}
      (plain : inner.isBracketed = false) (held : Holds arena (some bracket) place inner below) :
      Holds arena none place (.bracketed bracket inner) below
  /-- Brackets around brackets have a node of their own. -/
  | grouped {bracket : Bracket} {place left : Nat} {inner : Expr} {below : List Nat}
      (found : arena[place]? = some { Node.blank with left := some left, bracket := some bracket })
      (double : inner.isBracketed = true) (held : Holds arena none left inner below) :
      Holds arena none place (.bracketed bracket inner) (left :: below)

variable {arena after : Arena} {mark : Option Bracket} {place root : Nat} {tree : Expr} {below : List Nat}

/-- A tree is not concerned by what is changed elsewhere, and may be moved. -/
theorem Holds.moved (held : Holds arena mark place tree below) {target : Nat}
    (top : after[target]? = arena[place]?) (rest : ∀ other ∈ below, after[other]? = arena[other]?) :
    Holds after mark target tree below := by
  induction held generalizing target with
  | name found => exact .name (top.trans found)
  | literal found => exact .literal (top.trans found)
  | noArguments found => exact .noArguments (top.trans found)
  | emptyArray found => exact .emptyArray (top.trans found)
  | emptyDict found => exact .emptyDict (top.trans found)
  | unary found _ step =>
    obtain ⟨left, rest⟩ := List.forall_mem_cons.mp rest
    exact .unary (top.trans found) (step left rest)
  | binary found _ _ stepLeft stepRight =>
    obtain ⟨first, second⟩ := List.forall_mem_append.mp rest
    obtain ⟨left, first⟩ := List.forall_mem_cons.mp first
    obtain ⟨right, second⟩ := List.forall_mem_cons.mp second
    exact .binary (top.trans found) (stepLeft left first) (stepRight right second)
  | marked plain _ step => exact .marked plain (step top rest)
  | grouped found double _ step =>
    obtain ⟨left, rest⟩ := List.forall_mem_cons.mp rest
    exact .grouped (top.trans found) double (step left rest)

theorem Holds.congr (held : Holds arena mark place tree below)
    (same : ∀ other ∈ place :: below, after[other]? = arena[other]?) : Holds after mark place tree below := by
  obtain ⟨top, rest⟩ := List.forall_mem_cons.mp same
  exact held.moved top rest

/-- The nodes of a tree are in the arena. -/
theorem Holds.inside (held : Holds arena mark place tree below) :
    ∀ other ∈ place :: below, other < arena.length := by
  have within {place : Nat} {node : Node} (found : arena[place]? = some node) : place < arena.length :=
    (List.getElem?_eq_some_iff.mp found).1
  induction held with
  | unary found _ step => exact List.forall_mem_cons.mpr ⟨within found, step⟩
  | binary found _ _ stepLeft stepRight =>
    exact List.forall_mem_cons.mpr ⟨within found, List.forall_mem_append.mpr ⟨stepLeft, stepRight⟩⟩
  | marked _ _ step => exact step
  | grouped found _ _ step => exact List.forall_mem_cons.mpr ⟨within found, step⟩
  | _ found => exact List.forall_mem_cons.mpr ⟨within found, nofun⟩

/-- The brackets of a tree are marked on its node, whether they are around it or it begins with them. -/
theorem Holds.bracket (held : Holds arena mark place tree below) :
    ∃ node, arena[place]? = some node ∧ node.bracket.isSome = (mark.isSome || tree.isBracketed) := by
  induction held with
  | marked _ _ step => 
    obtain ⟨node, found, bracket⟩ := step
    exact ⟨node, found, bracket⟩
  | emptyArray found => exact ⟨_, found, rfl⟩
  | emptyDict found => exact ⟨_, found, rfl⟩
  | grouped found => exact ⟨_, found, rfl⟩
  | _ found => exact ⟨_, found, (Bool.or_false _).symm⟩

/-- A part of a tree, at a place of its own. What is put there in its place is a part of the whole. `plug`
puts it there, and `outer` are the places of the nodes around it. -/
def Around (arena : Arena) (root place : Nat) (plug : Expr → Expr) (outer : List Nat) : Prop :=
  ∀ {after : Arena} {part : Expr} {below : List Nat},
    (∀ other ∈ outer, after[other]? = arena[other]?) → Holds after none place part below →
    ∃ all, Holds after none root (plug part) all ∧ List.Perm (root :: all) (outer ++ place :: below)

theorem Around.here (arena : Arena) (place : Nat) : Around arena place place id [] :=
  fun _ held => ⟨_, held, .refl _⟩

theorem Around.trans {middle : Nat} {plug change : Expr → Expr} {outer inner : List Nat}
    (around : Around arena root middle plug outer) (further : Around arena middle place change inner) :
    Around arena root place (plug ∘ change) (outer ++ inner) := by
  intro after part below same held
  obtain ⟨sameOuter, sameInner⟩ := List.forall_mem_append.mp same
  obtain ⟨between, heldMiddle, first⟩ := further sameInner held
  obtain ⟨all, whole, second⟩ := around sameOuter heldMiddle
  refine ⟨all, whole, second.trans ?_⟩
  rw [List.append_assoc]
  exact first.append_left outer

theorem around_unary {left : Nat} {op : Op}
    (found : arena[root]? = some (.ofOp op (some left) none)) :
    Around arena root left (.unary op) [root] := by
  intro after part below same held
  have top : after[root]? = some (.ofOp op (some left) none) :=
    (same root (List.mem_singleton_self root)).trans found
  exact ⟨_, .unary top held, .refl _⟩

theorem around_binary {left right : Nat} {op : Op} {first : Expr} {below : List Nat}
    (found : arena[root]? = some (.ofOp op (some left) (some right)))
    (held : Holds arena none left first below) :
    Around arena root right (.binary op first) (root :: left :: below) := by
  intro after part belowRight same heldRight
  obtain ⟨top, rest⟩ := List.forall_mem_cons.mp same
  exact ⟨_, .binary (top.trans found) (held.congr rest) heldRight, .refl _⟩

/-- A part of a tree at a place. What is put there is put into the tree by `plug`. -/
structure Part (arena : Arena) (root : Nat) (below : List Nat) (place : Nat) (part : Expr)
    (inner : List Nat) (plug : Expr → Expr) : Prop where
  held : Holds arena none place part inner
  around : ∃ outer, Around arena root place plug outer ∧ List.Perm (root :: below) (outer ++ place :: inner)

namespace Part

variable {part : Expr} {inner : List Nat} {plug : Expr → Expr}

theorem here (held : Holds arena none root tree below) : Part arena root below root tree below id :=
  ⟨held, [], Around.here arena root, .refl _⟩

theorem within {middle : Nat} {between : List Nat} {change : Expr → Expr}
    (part : Part arena middle between place tree inner change) {outer : List Nat}
    (around : Around arena root middle plug outer)
    (places : List.Perm (root :: below) (outer ++ middle :: between)) :
    Part arena root below place tree inner (plug ∘ change) := by
  obtain ⟨held, nearer, inside, rest⟩ := part
  refine ⟨held, outer ++ nearer, around.trans inside, places.trans ?_⟩
  rw [List.append_assoc]
  exact rest.append_left outer

/-- A part is replaced where it stands. -/
theorem replaced (part : Part arena root below place tree inner plug) (once : (root :: below).Nodup)
    (same : ∀ other ∈ root :: below, other ≠ place → after[other]? = arena[other]?)
    {change : Expr} {instead : List Nat} (held : Holds after none place change instead) {more : List Nat}
    (places : List.Perm (place :: instead) (place :: inner ++ more)) :
    ∃ all, Holds after none root (plug change) all ∧ List.Perm (root :: all) (root :: below ++ more) := by
  obtain ⟨-, outer, around, split⟩ := part
  have apart : ∀ other ∈ outer, after[other]? = arena[other]? := by
    intro other member
    have all := split.nodup_iff.mp once
    refine same other (split.mem_iff.mpr (List.mem_append_left _ member)) ?_
    exact fun found => (List.nodup_append.mp all).2.2 other member place (List.mem_cons_self ..) found
  obtain ⟨all, whole, joined⟩ := around apart held
  refine ⟨all, whole, joined.trans ?_⟩
  have filled := places.append_left outer
  rw [← List.append_assoc] at filled
  exact filled.trans (split.symm.append_right more)

end Part

/-! Going down. -/

theorem node_eq {node : Node} (found : arena[place]? = some node) : arena.node place = node := by
  unfold Arena.node
  rw [found, Option.getD_some]

/-- An operator goes no further than the top of a tree. -/
def Stops (op : Op) : Expr → Prop
  | .unary link _ | .binary link _ _ => link.priority ≤ op.priority
  | _ => True

theorem descend_stops {op : Op} {node : Node} (found : arena[root]? = some node)
    (stops : node.op.priority ≤ op.priority ∨ node.bracket.isSome = true) (steps : Nat) :
    arena.descend op steps root = root := by
  cases steps with
  | zero => rfl
  | succ steps =>
    unfold Arena.descend
    rw [node_eq found]
    exact if_pos (by simpa using stops)

theorem descend_child {op : Op} {node : Node} (found : arena[root]? = some node)
    (weaker : op.priority < node.op.priority) (unmarked : node.bracket = none) {child : Nat}
    (next : node.right.or node.left = some child) (steps : Nat) :
    arena.descend op (steps + 1) root = arena.descend op steps child := by
  conv => lhs; unfold Arena.descend
  rw [node_eq found]
  dsimp only
  rw [unmarked, next, if_neg (by simpa using weaker)]

theorem descend_here {op : Op} (held : Holds arena none root tree below) {node : Node}
    (found : arena[root]? = some node)
    (ends : node.op.priority ≤ op.priority ∨ node.bracket.isSome = true) (stops : Stops op tree)
    (steps : Nat) :
    ∃ part inner plug, Part arena root below (arena.descend op steps root) part inner plug ∧ Stops op part ∧
      ∀ right, tree.insert op right = plug (part.insert op right) := by
  rw [descend_stops found ends]
  exact ⟨tree, below, id, .here held, stops, fun _ => rfl⟩

/-- An operator is added to a tree where the way down ends. -/
theorem descend_part {op : Op} (held : Holds arena mark root tree below) (unmarked : mark = none)
    {steps : Nat} (enough : below.length < steps) :
    ∃ part inner plug, Part arena root below (arena.descend op steps root) part inner plug ∧ Stops op part ∧
      ∀ right, tree.insert op right = plug (part.insert op right) := by
  induction held generalizing steps with
  | @unary _ place left link operand below found held step =>
    subst unmarked
    by_cases weaker : op.priority < link.priority
    · obtain ⟨steps, rfl⟩ : ∃ fewer, steps = fewer + 1 := ⟨steps - 1, by omega⟩
      have fewer : below.length < steps := Nat.lt_of_succ_lt_succ enough
      obtain ⟨part, inner, plug, reached, stops, same⟩ := step rfl fewer
      rw [descend_child found weaker rfl rfl]
      refine ⟨part, inner, _, reached.within (around_unary found) (.refl _), stops, fun right => ?_⟩
      rw [Expr.insert, if_pos weaker, same]
      rfl
    · have ends : link.priority ≤ op.priority := Nat.le_of_not_lt weaker
      exact descend_here (.unary found held) found (.inl ends) ends steps
  | @binary _ place left right link first second belowLeft belowRight found heldLeft heldRight _ step =>
    subst unmarked
    by_cases weaker : op.priority < link.priority
    · obtain ⟨steps, rfl⟩ : ∃ fewer, steps = fewer + 1 := ⟨steps - 1, by omega⟩
      have fewer : belowRight.length < steps := by
        simp only [List.length_append, List.length_cons] at enough
        omega
      obtain ⟨part, inner, plug, reached, stops, same⟩ := step rfl fewer
      rw [descend_child found weaker rfl rfl]
      refine ⟨part, inner, _, reached.within (around_binary found heldLeft) (.refl _), stops, fun right => ?_⟩
      rw [Expr.insert, if_pos weaker, same]
      rfl
    · have ends : link.priority ≤ op.priority := Nat.le_of_not_lt weaker
      exact descend_here (.binary found heldLeft heldRight) found (.inl ends) ends steps
  | marked plain held =>
    obtain ⟨node, found, bracket⟩ := held.bracket
    exact descend_here (.marked plain held) found (.inr (by rw [bracket]; rfl)) trivial steps
  | grouped found double held => exact descend_here (.grouped found double held) found (.inr rfl) trivial steps
  | emptyArray found => exact descend_here (.emptyArray found) found (.inr rfl) trivial steps
  | emptyDict found => exact descend_here (.emptyDict found) found (.inr rfl) trivial steps
  | name found =>
    subst unmarked
    exact descend_here (.name found) found (.inl (Nat.zero_le _)) trivial steps
  | literal found =>
    subst unmarked
    exact descend_here (.literal found) found (.inl (Nat.zero_le _)) trivial steps
  | noArguments found =>
    subst unmarked
    exact descend_here (.noArguments found) found (.inl (Nat.zero_le _)) trivial steps

end HtmlTemplate.Arena
