import HtmlTemplate.Proofs.Arena.Trees
import Mathlib.Data.List.Nodup
import Mathlib.Data.List.Perm.Subperm

/-! Adding an operator to a tree in an arena adds it to the tree. The place for its right side is left open,
and the tree is whole once that has been filled. -/

namespace HtmlTemplate.Arena

variable {arena after : Arena} {place root : Nat} {tree : Expr} {below : List Nat} {op : Op}

/-- Nodes have been added, and none has been changed but those at some places. -/
structure Grown (arena : Arena) (region : List Nat) (after : Arena) : Prop where
  length : arena.length ≤ after.length
  kept : ∀ other < arena.length, other ∉ region → after[other]? = arena[other]?

/-! Nodes that are added while one is changed. -/

section

variable (more : List Node) (node : Node)

theorem stored_kept {other : Nat} (apart : other ≠ place) (old : other < arena.length) :
    ((arena ++ more).set place node)[other]? = arena[other]? := by
  rw [List.getElem?_set_ne (Ne.symm apart), List.getElem?_append_left old]

theorem stored_here (old : place < arena.length) :
    ((arena ++ more).set place node)[place]? = some node := by
  apply List.getElem?_set_self
  rw [List.length_append]
  omega

theorem stored_new (old : place < arena.length) (index : Nat) :
    ((arena ++ more).set place node)[arena.length + index]? = more[index]? := by
  rw [List.getElem?_set_ne (by omega), List.getElem?_append_right (by omega), Nat.add_sub_cancel_left]

theorem node_here (old : place < arena.length) : Arena.node ((arena ++ more).set place node) place = node :=
  node_eq (stored_here more node old)

theorem stored_grown (arena : Arena) (place : Nat) : Grown arena [place] ((arena ++ more).set place node) where
  length := by
    rw [List.length_set, List.length_append]
    omega
  kept _ old outside := stored_kept more node (fun same => outside (same ▸ List.mem_singleton_self place)) old

end

/-! Chains of operators. -/

/-- A chain goes on with a tree of an operator of its strength, and ends with any other tree. -/
theorem Holds.continues (held : Holds arena none place tree below) (op : Op) :
    (arena.continues op place = true ∧ ∃ link first second, tree = .binary link first second ∧
      link.priority = op.priority) ∨
    (arena.continues op place = false ∧ ∀ right, Expr.extend op right tree = Expr.join op tree right) := by
  have ends {node : Node} (found : arena[place]? = some node)
      (ends : node.left = none ∨ node.right = none ∨ node.bracket.isSome = true) :
      arena.continues op place = false := by
    unfold Arena.continues
    rw [node_eq found]
    rcases ends with left | right | bracket
    · simp [left]
    · simp [right]
    · simp [bracket]
  cases held with
  | name found => exact .inr ⟨ends found (.inl rfl), fun _ => rfl⟩
  | literal found => exact .inr ⟨ends found (.inl rfl), fun _ => rfl⟩
  | noArguments found => exact .inr ⟨ends found (.inl rfl), fun _ => rfl⟩
  | emptyArray found => exact .inr ⟨ends found (.inl rfl), fun _ => rfl⟩
  | emptyDict found => exact .inr ⟨ends found (.inl rfl), fun _ => rfl⟩
  | unary found => exact .inr ⟨ends found (.inr (.inl rfl)), fun _ => rfl⟩
  | grouped found => exact .inr ⟨ends found (.inr (.inl rfl)), fun _ => rfl⟩
  | marked plain held =>
    obtain ⟨node, found, bracket⟩ := held.bracket
    exact .inr ⟨ends found (.inr (.inr (by rw [bracket]; rfl))), fun _ => rfl⟩
  | binary found =>
    rename_i link first second _ _ _ _
    by_cases same : link.priority = op.priority
    · refine .inl ⟨?_, link, first, second, rfl, same⟩
      unfold Arena.continues
      rw [node_eq found]
      simpa [Node.ofOp, Node.blank] using same
    · refine .inr ⟨?_, fun right => by rw [Expr.extend, if_neg same]⟩
      unfold Arena.continues
      rw [node_eq found]
      simp [Node.ofOp, Node.blank, same]

/-- An operator is added to a chain at its last operator. -/
theorem chainEnd_part (op : Op) {link : Op} {first chain : Expr}
    (held : Holds arena none root (.binary link first chain) below) {steps : Nat}
    (enough : below.length < steps) :
    ∃ last left right inner plug,
      Part arena root below (arena.chainEnd op steps root) (.binary last left right) inner plug ∧
      ∀ added, .binary link first (chain.extend op added) = plug (.binary last left (.join op right added)) := by
  induction steps generalizing root below link first chain with
  | zero => omega
  | succ steps step =>
    cases held with
    | binary found heldLeft heldRight =>
      rename_i left right belowLeft belowRight
      conv in arena.chainEnd op (steps + 1) root => unfold Arena.chainEnd
      rw [node_eq found]
      dsimp only [Node.ofOp]
      rcases heldRight.continues op with ⟨goesOn, next, nextFirst, nextChain, rfl, same⟩ | ⟨ends, joins⟩
      · have fewer : belowRight.length < steps := by
          simp only [List.length_append, List.length_cons] at enough
          omega
        obtain ⟨last, lastLeft, lastRight, inner, plug, reached, all⟩ := step heldRight fewer
        rw [goesOn]
        refine ⟨last, lastLeft, lastRight, inner, _, reached.within (around_binary found heldLeft) (.refl _),
          fun added => ?_⟩
        rw [Expr.extend, if_pos same, all]
        rfl
      · rw [ends]
        refine ⟨link, first, chain, _, id, .here (.binary found heldLeft heldRight), fun added => ?_⟩
        rw [joins]
        rfl

/-! Adding an operator. -/

/-- Whether an operator goes to the end of the chain that begins at a place. -/
def chains (arena : Arena) (op : Op) (place : Nat) : Bool :=
  let node := arena.node place
  op.isRightAssoc && op.priority ≤ node.op.priority && node.bracket.isNone && node.right.isSome

theorem Holds.chains (held : Holds arena none place tree below) (stops : Stops op tree) :
    (arena.chains op place = true ∧ ∃ link first second, tree = .binary link first second ∧
      ∀ right, tree.insert op right = .binary link first (second.extend op right)) ∨
    (arena.chains op place = false ∧ ∀ right, tree.insert op right = .join op tree right) := by
  have joins {node : Node} (found : arena[place]? = some node)
      (ends : node.right = none ∨ node.bracket.isSome = true) : arena.chains op place = false := by
    unfold Arena.chains
    rw [node_eq found]
    rcases ends with right | bracket
    · simp [right]
    · obtain ⟨kind, bracket⟩ := Option.isSome_iff_exists.mp bracket
      simp [bracket]
  cases held with
  | name found => exact .inr ⟨joins found (.inl rfl), fun _ => rfl⟩
  | literal found => exact .inr ⟨joins found (.inl rfl), fun _ => rfl⟩
  | noArguments found => exact .inr ⟨joins found (.inl rfl), fun _ => rfl⟩
  | emptyArray found => exact .inr ⟨joins found (.inl rfl), fun _ => rfl⟩
  | emptyDict found => exact .inr ⟨joins found (.inl rfl), fun _ => rfl⟩
  | grouped found => exact .inr ⟨joins found (.inl rfl), fun _ => rfl⟩
  | marked plain held =>
    obtain ⟨node, found, bracket⟩ := held.bracket
    exact .inr ⟨joins found (.inr (by rw [bracket]; rfl)), fun _ => rfl⟩
  | unary found =>
    rename_i left link operand _ _
    have stops : link.priority ≤ op.priority := stops
    exact .inr ⟨joins found (.inl rfl), fun _ => by rw [Expr.insert, if_neg (by omega)]⟩
  | binary found =>
    rename_i link first second _ _ _ _
    have stops : link.priority ≤ op.priority := stops
    have value : arena.chains op place = (op.isRightAssoc && decide (op.priority ≤ link.priority)) := by
      unfold Arena.chains
      rw [node_eq found]
      exact (Bool.and_true _).trans (Bool.and_true _)
    by_cases chained : op.isRightAssoc = true ∧ link.priority = op.priority
    · refine .inl ⟨?_, link, first, second, rfl, fun _ => ?_⟩
      · rw [value, chained.1, chained.2]
        simp
      · rw [Expr.insert, if_neg (by omega), if_pos chained]
    · refine .inr ⟨?_, fun _ => ?_⟩
      · rw [value, Bool.and_eq_false_iff, decide_eq_false_iff_not]
        by_contra both
        simp only [not_or, Bool.not_eq_false, not_not] at both
        exact chained ⟨both.1, Nat.le_antisymm stops both.2⟩
      · rw [Expr.insert, if_neg (by omega), if_neg chained]

/-- A tree that has no node twice is no larger than the arena. -/
theorem Holds.length_lt {mark : Option Bracket} (held : Holds arena mark place tree below)
    (once : (place :: below).Nodup) : below.length < arena.length := by
  have subset : (place :: below) ⊆ List.range arena.length :=
    fun other member => List.mem_range.mpr (held.inside other member)
  have least := (List.subperm_of_subset once subset).length_le
  rw [List.length_range, List.length_cons] at least
  exact least

theorem Grown.refl (arena : Arena) (region : List Nat) : Grown arena region arena :=
  ⟨Nat.le_refl _, fun _ _ _ => rfl⟩

theorem Grown.mono {region wider : List Nat} (grown : Grown arena region after) (within : region ⊆ wider) :
    Grown arena wider after :=
  ⟨grown.length, fun other old outside => grown.kept other old fun member => outside (within member)⟩

/-- What is changed later may be new. -/
theorem Grown.trans {region more : List Nat} {last : Arena} (first : Grown arena region after)
    (second : Grown after more last) (within : ∀ other ∈ more, other ∈ region ∨ arena.length ≤ other) :
    Grown arena region last where
  length := Nat.le_trans first.length second.length
  kept other old outside := by
    have apart : other ∉ more := by
      intro member
      rcases within other member with inside | new
      · exact outside inside
      · omega
    rw [second.kept other (Nat.lt_of_lt_of_le old first.length) apart, first.kept other old outside]

/-- An operator has been added to a tree, and its right side is still to be put at a place. -/
structure Opened (arena : Arena) (root : Nat) (tree : Expr) (below : List Nat) (op : Op) (slot : Nat)
    (after : Arena) : Prop where
  length : after.length = arena.length + 2
  grown : Grown arena (root :: below) after
  new : arena.length ≤ slot ∧ slot < after.length
  /-- Once the right side stands at its place, the tree is whole. -/
  filled : ∀ {last : Arena} {right : Expr} {inner : List Nat}, Grown after [slot] last →
    Holds last none slot right inner →
    ∃ all, Holds last none root (tree.insert op (some right)) all ∧
      List.Perm (root :: all) (root :: below ++ arena.length :: (arena.length + 1) :: inner)

theorem Part.place_mem {part : Expr} {inner : List Nat} {plug : Expr → Expr}
    (reached : Part arena root below place part inner plug) : place ∈ root :: below := by
  obtain ⟨-, outer, -, split⟩ := reached
  exact split.mem_iff.mpr (List.mem_append_right _ (List.mem_cons_self ..))

theorem Part.once {part : Expr} {inner : List Nat} {plug : Expr → Expr}
    (reached : Part arena root below place part inner plug) (once : (root :: below).Nodup) :
    (place :: inner).Nodup := by
  obtain ⟨-, outer, -, split⟩ := reached
  exact (List.nodup_append.mp (split.nodup_iff.mp once)).2.1

theorem Part.inner_mem {part : Expr} {inner : List Nat} {plug : Expr → Expr}
    (reached : Part arena root below place part inner plug) (once : (root :: below).Nodup) {other : Nat}
    (member : other ∈ inner) : other ∈ root :: below ∧ other ≠ place := by
  have apart : place ∉ inner := (List.nodup_cons.mp (reached.once once)).1
  obtain ⟨-, outer, -, split⟩ := reached
  exact ⟨split.mem_iff.mpr (List.mem_append_right _ (List.mem_cons_of_mem _ member)),
    fun same => apart (same ▸ member)⟩

section

variable {part : Expr} {inner : List Nat} {plug : Expr → Expr} (more : List Node)

/-- A node of a tree is changed. -/
theorem Part.grown (reached : Part arena root below place part inner plug) (node : Node) :
    Grown arena (root :: below) ((arena ++ more).set place node) := by
  refine (stored_grown more node arena place).mono fun other member => ?_
  rw [List.mem_singleton.mp member]
  exact reached.place_mem

/-- The other nodes of the tree stay as they are. -/
theorem Holds.others (held : Holds arena none root tree below) {slot : Nat} (new : arena.length ≤ slot)
    {last : Arena} {node : Node} (grown : Grown ((arena ++ more).set place node) [slot] last) :
    ∀ other ∈ root :: below, other ≠ place → last[other]? = arena[other]? := by
  intro other member apart
  have old : other < arena.length := held.inside other member
  have elsewhere : other ∉ [slot] := by
    rw [List.mem_singleton]
    omega
  rw [grown.kept other (Nat.lt_of_lt_of_le old (stored_grown more node arena place).length) elsewhere,
    stored_kept more node apart old]

end

/-- A part of a tree whose node has gone to a new place. -/
theorem Part.moved {part : Expr} {inner : List Nat} {plug : Expr → Expr}
    (reached : Part arena root below place part inner plug) (once : (root :: below).Nodup) {target : Nat}
    (top : after[target]? = some (arena.node place))
    (others : ∀ other ∈ root :: below, other ≠ place → after[other]? = arena[other]?) :
    Holds after none target part inner := by
  refine reached.held.moved ?_ fun other member => ?_
  · obtain ⟨node, found, -⟩ := reached.held.bracket
    rw [top, found, node_eq found]
  · obtain ⟨inTree, apart⟩ := reached.inner_mem once member
    exact others other inTree apart

/-- The node at a place goes to a new one, and the operator takes its place. -/
theorem opened_join (held : Holds arena none root tree below) (once : (root :: below).Nodup) {part : Expr}
    {inner : List Nat} {plug : Expr → Expr} (reached : Part arena root below place part inner plug)
    (same : ∀ right, tree.insert op right = plug (.join op part right)) :
    Opened arena root tree below op (arena.length + 1)
      ((arena ++ [arena.node place, .blank]).set place (.ofOp op (some arena.length) (some (arena.length + 1)))) := by
  have old : place < arena.length := held.inside place reached.place_mem
  refine ⟨by simp, reached.grown _ _, by simp, fun {last right more} grown filled => ?_⟩
  have others := held.others _ (by omega) grown
  have kept (other : Nat) (stored : other ≤ arena.length) :=
    grown.kept other (by simp only [List.length_set, List.length_append, List.length_cons]; omega)
      (by rw [List.mem_singleton]; omega)
  have top : last[place]? = some (.ofOp op (some arena.length) (some (arena.length + 1))) := by
    rw [kept place (by omega), stored_here _ _ old]
  have moved : Holds last none arena.length part inner :=
    reached.moved once ((kept _ (Nat.le_refl _)).trans (stored_new _ _ old 0)) others
  rw [same]
  refine reached.replaced once others (.binary top moved filled) (List.perm_iff_count.mpr fun other => ?_)
  simp only [List.count_append, List.count_cons]
  omega

/-- The same, of an operator that has no right side. -/
theorem join_trailing (held : Holds arena none root tree below) (once : (root :: below).Nodup) {part : Expr}
    {inner : List Nat} {plug : Expr → Expr} (reached : Part arena root below place part inner plug)
    (same : tree.insert op none = plug (.unary op part)) :
    ∃ all, Holds ((arena ++ [arena.node place]).set place (.ofOp op (some arena.length) none)) none root
        (tree.insert op none) all ∧
      List.Perm (root :: all) (root :: below ++ [arena.length]) := by
  have old : place < arena.length := held.inside place reached.place_mem
  have others := held.others [arena.node place] (Nat.le_refl _) (.refl (List.set _ place
    (.ofOp op (some arena.length) none)) _)
  have moved : Holds _ none arena.length part inner := reached.moved once (stored_new _ _ old 0) others
  rw [same]
  refine reached.replaced once others (.unary (stored_here _ _ old) moved) (List.perm_iff_count.mpr fun other => ?_)
  simp only [List.count_append, List.count_cons, List.count_nil]
  omega

/-- The last operator of a chain goes on with the operator. -/
theorem opened_chain (held : Holds arena none root tree below) (once : (root :: below).Nodup) {link : Op}
    {left right : Expr} {inner : List Nat} {plug : Expr → Expr}
    (reached : Part arena root below place (.binary link left right) inner plug)
    (same : ∀ added, tree.insert op added = plug (.binary link left (.join op right added))) :
    Opened arena root tree below op arena.length
      ((arena ++ [Node.blank, Node.ofOp op (arena.node place).right (some arena.length)]).set place
        { arena.node place with right := some (arena.length + 1) }) := by
  have old : place < arena.length := held.inside place reached.place_mem
  refine ⟨by simp, reached.grown _ _, by simp, fun {last added more} grown filled => ?_⟩
  have others := held.others _ (Nat.le_refl _) grown
  have kept (other : Nat) (stored : other < arena.length + 2) (apart : other ≠ arena.length) :=
    grown.kept other (by simp only [List.length_set, List.length_append, List.length_cons]; omega)
      (by rw [List.mem_singleton]; exact apart)
  have whole := reached.held
  cases whole with
  | binary found heldLeft heldRight =>
    rename_i leftPlace rightPlace belowLeft belowRight
    have top : last[place]? = some (.ofOp link (some leftPlace) (some (arena.length + 1))) := by
      rw [kept place (by omega) (by omega), stored_here _ _ old, node_eq found]
      rfl
    have next : last[arena.length + 1]? = some (.ofOp op (some rightPlace) (some arena.length)) := by
      rw [kept _ (by omega) (by omega), stored_new _ _ old, node_eq found]
      rfl
    have stays {other : Nat} (member : other ∈ leftPlace :: belowLeft ++ rightPlace :: belowRight) :
        last[other]? = arena[other]? := by
      obtain ⟨inTree, apart⟩ := reached.inner_mem once member
      exact others other inTree apart
    have heldLeft := heldLeft.congr fun other member => stays (List.mem_append_left _ member)
    have heldRight := heldRight.congr fun other member => stays (List.mem_append_right _ member)
    rw [same]
    refine reached.replaced once others (.binary top heldLeft (.binary next heldRight filled))
      (List.perm_iff_count.mpr fun other => ?_)
    simp only [List.count_append, List.count_cons]
    omega

theorem not_isTrailing {op : Op} (rightward : op.isRightAssoc = true) : op.isTrailing = false := by
  cases op <;> first | rfl | cases rightward

theorem isRightAssoc_of_chains (chained : arena.chains op place = true) : op.isRightAssoc = true := by
  unfold Arena.chains at chained
  simp only [Bool.and_eq_true] at chained
  exact chained.1.1.1

/-- The way down that an operator takes. -/
theorem Holds.descend_part (held : Holds arena none root tree below) (once : (root :: below).Nodup) (op : Op) :
    ∃ part inner plug, Part arena root below (arena.descend op arena.length root) part inner plug ∧
      Stops op part ∧ ∀ right, tree.insert op right = plug (part.insert op right) :=
  Arena.descend_part held rfl (held.length_lt once)

/-- An operator with a right side has been added. -/
theorem insert_opened (held : Holds arena none root tree below) (once : (root :: below).Nodup)
    (sided : op.isTrailing = false) :
    ∃ place after slot, arena.insert op root = (place, after) ∧ (after.node place).right = some slot ∧
      Opened arena root tree below op slot after := by
  obtain ⟨part, inner, plug, reached, stops, same⟩ := held.descend_part once op
  obtain ⟨chained, link, first, second, rfl, joins⟩ | ⟨single, joins⟩ := reached.held.chains stops
  · have enough : inner.length < arena.length := reached.held.length_lt (reached.once once)
    obtain ⟨last, left, right, further, change, deeper, all⟩ := chainEnd_part op reached.held enough
    obtain ⟨-, outer, around, split⟩ := reached
    have ending := deeper.within around split
    have old : arena.chainEnd op arena.length _ < arena.length := held.inside _ ending.place_mem
    refine ⟨_, _, _, if_pos chained, ?_, opened_chain held once ending fun added => ?_⟩
    · rw [Arena.node, stored_new _ _ old 1]
      rfl
    · rw [same, joins, all]
      rfl
  · have old : arena.descend op arena.length root < arena.length := held.inside _ reached.place_mem
    have way : arena.insert op root = _ :=
      (if_neg (by rw [← Arena.chains, single]; nofun)).trans (if_neg (by rw [sided]; nofun))
    refine ⟨_, _, _, way, ?_, opened_join held once reached fun added => ?_⟩
    · exact congrArg Node.right (node_here _ _ old)
    · rw [same, joins]

/-- An operator without a right side has been added. -/
theorem insert_trailing (held : Holds arena none root tree below) (once : (root :: below).Nodup)
    (trailing : op.isTrailing = true) :
    ∃ place after all, arena.insert op root = (place, after) ∧ (after.node place).right = none ∧
      after.length = arena.length + 1 ∧ Grown arena (root :: below) after ∧
      Holds after none root (tree.insert op none) all ∧
      List.Perm (root :: all) (root :: below ++ [arena.length]) := by
  obtain ⟨part, inner, plug, reached, stops, same⟩ := held.descend_part once op
  obtain ⟨chained, -⟩ | ⟨single, joins⟩ := reached.held.chains stops
  · rw [not_isTrailing (isRightAssoc_of_chains chained)] at trailing
    cases trailing
  have old : arena.descend op arena.length root < arena.length := held.inside _ reached.place_mem
  have way : arena.insert op root = _ :=
    (if_neg (by rw [← Arena.chains, single]; nofun)).trans (if_pos trailing)
  obtain ⟨all, whole, places⟩ := join_trailing held once reached ((same none).trans (congrArg plug (joins none)))
  exact ⟨_, _, all, way, congrArg Node.right (node_here _ _ old), by simp, reached.grown _ _, whole, places⟩

end HtmlTemplate.Arena
