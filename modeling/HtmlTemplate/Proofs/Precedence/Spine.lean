import HtmlTemplate.Proofs.Precedence.Row

/-! Adding the operators of a row to a finished tree, one after the other, gives the tree of
precedence climbing. The right edge of the tree is kept as a list of frames, the outermost
one first, whose operators get stronger towards the end of the edge.
Main statement: `insert_plug_link`, an operator added to the tree is a frame grafted on the edge,
and `finish_cons`, climbing over the operator grafts the same frame. -/

namespace HtmlTemplate.Precedence

/-- An operator on the right edge of a tree and its left side. -/
structure Frame where
  link : Link
  left : Expr

/-- The tree of an edge and of what stands at its end. -/
def plug : List Frame → Expr → Expr
  | [], tree => tree
  | frame :: inner, tree => frame.link.join frame.left (plug inner tree)

/-- The operators that frames are made of. -/
def linkOps : List Op := .alternative :: betweenOps

/-- Every operator of an edge is within the limit of the one around it. -/
def Nested : Nat → List Frame → Prop
  | _, [] => True
  | limit, frame :: inner =>
    frame.link.op ∈ linkOps ∧ frame.link.op.priority ≤ limit ∧ Nested frame.link.rightLimit inner

/-- An operator is put above a tree as a whole, also at the end of a chain of its strength. -/
structure Tight (op : Op) (tree : Expr) : Prop where
  insert : ∀ right, Expr.insert op right tree = Expr.join op tree right
  extend : op.isRightAssoc = true → ∀ right, Expr.extend op right tree = Expr.join op tree right

/-- What the operators of a row do not reach into: their strength is that of a leading
operator at most. -/
def Steady : Expr → Prop
  | .unary op _ | .binary op _ _ => op.priority ≤ 2
  | _ => True

/-- Adds a link of a row to the tree before it. -/
def Link.insert (link : Link) (right tree : Expr) : Expr :=
  match link with
  | between op => tree.insert op (some right)
  | ternary chosen =>
    (tree.insert .condition (some (.bracketed .round chosen))).insert .alternative (some right)

/-- What stands on the left of the operator of a link. -/
def Link.side (link : Link) (left : Expr) : Expr :=
  match link with
  | between _ => left
  | ternary chosen => .binary .condition left (.bracketed .round chosen)

theorem Link.join_eq (link : Link) (left right : Expr) :
    link.join left right = .binary link.op (link.side left) right := by
  cases link <;> rfl

theorem plug_append (outer inner : List Frame) (tree : Expr) :
    plug (outer ++ inner) tree = plug outer (plug inner tree) := by
  induction outer with
  | nil => rfl
  | cons frame outer step => simp only [List.cons_append, plug, step]

/-! Facts of the operator table. -/

theorem priority_le_weakest {op : Op} (member : op ∈ linkOps) : op.priority ≤ weakest := by
  revert op
  decide

theorem Link.rightLimit_le (link : Link) : link.rightLimit ≤ link.op.priority := by
  unfold Link.rightLimit
  split <;> omega

/-- The limit of the right side of an operator. -/
def opLimit (op : Op) : Nat :=
  if op.isAssignment || op == .alternative then op.priority else op.priority - 1

theorem three_le_priority {op : Op} (member : op ∈ .condition :: linkOps) : 3 ≤ op.priority := by
  revert op
  decide

/-- An operator goes past a link on whose right side it may stand. -/
theorem past_of_within {op : Op} {link : Link} (member : op ∈ .condition :: linkOps)
    (linkMember : link.op ∈ linkOps) (within : op.priority ≤ link.rightLimit) :
    op.priority < link.op.priority ∨ op.isRightAssoc = true ∧ link.op.priority = op.priority := by
  have all : ∀ op ∈ Op.condition :: linkOps, ∀ outer ∈ linkOps,
      op.priority ≤ opLimit outer →
      op.priority < outer.priority ∨ op.isRightAssoc = true ∧ outer.priority = op.priority := by
    decide
  exact all op member link.op linkMember within

/-- An operator goes past no link on whose right side it may not stand. -/
theorem not_past_of_beyond {op : Op} {link : Link} (member : op ∈ .condition :: linkOps)
    (linkMember : link.op ∈ linkOps) (beyond : ¬ op.priority ≤ link.rightLimit) :
    ¬ op.priority < link.op.priority ∧
      ¬ (op.isRightAssoc = true ∧ link.op.priority = op.priority) := by
  have all : ∀ op ∈ Op.condition :: linkOps, ∀ outer ∈ linkOps,
      ¬ op.priority ≤ opLimit outer →
      ¬ op.priority < outer.priority ∧
        ¬ (op.isRightAssoc = true ∧ outer.priority = op.priority) := by
    decide
  exact all op member link.op linkMember beyond

/-- The two parts of a ternary go past the same links. -/
theorem condition_within_iff {link : Link} (member : link.op ∈ linkOps) :
    Op.condition.priority ≤ link.rightLimit ↔ Op.alternative.priority ≤ link.rightLimit := by
  have all : ∀ outer ∈ linkOps,
      (Op.condition.priority ≤ opLimit outer ↔ Op.alternative.priority ≤ opLimit outer) := by
    decide
  exact all link.op member

/-! Insertion along the edge. -/

theorem tight_of_steady {op : Op} {tree : Expr} (member : op ∈ .condition :: linkOps)
    (steady : Steady tree) : Tight op tree := by
  have weak := three_le_priority member
  constructor
  · intro right
    cases tree with
    | unary link operand =>
      have : link.priority ≤ 2 := steady
      rw [Expr.insert, if_neg (by omega)]
    | binary link left chain =>
      have : link.priority ≤ 2 := steady
      rw [Expr.insert, if_neg (by omega), if_neg (by omega)]
    | _ => rfl
  · intro _ right
    cases tree with
    | binary link left chain =>
      have : link.priority ≤ 2 := steady
      rw [Expr.extend, if_neg (by omega)]
    | _ => rfl

theorem tight_join {op : Op} {link : Link} (member : op ∈ .condition :: linkOps)
    (linkMember : link.op ∈ linkOps) (beyond : ¬ op.priority ≤ link.rightLimit)
    (left right : Expr) : Tight op (link.join left right) := by
  obtain ⟨notLess, notEqual⟩ := not_past_of_beyond member linkMember beyond
  constructor
  · intro inserted
    rw [Link.join_eq, Expr.insert, if_neg notLess, if_neg notEqual]
  · intro rightward inserted
    rw [Link.join_eq, Expr.extend, if_neg fun same => notEqual ⟨rightward, same⟩]

theorem tight_condition (left right : Expr) : Tight .alternative (.binary .condition left right) :=
  ⟨fun _ => rfl, fun _ _ => rfl⟩

theorem extend_join {op : Op} {link : Link} (same : link.op.priority = op.priority)
    (left chain : Expr) (right : Option Expr) :
    Expr.extend op right (link.join left chain) = link.join left (Expr.extend op right chain) := by
  rw [Link.join_eq, Link.join_eq, Expr.extend, if_pos same]

/-- In a chain of its strength an operator goes to the end. -/
theorem extend_plug {op : Op} (rightward : op.isRightAssoc = true) {frames : List Frame}
    {tree : Expr} (tight : Tight op tree) (nested : Nested op.priority frames)
    (within : ∀ frame ∈ frames, op.priority ≤ frame.link.rightLimit) (right : Option Expr) :
    Expr.extend op right (plug frames tree) = plug frames (Expr.join op tree right) := by
  induction frames with
  | nil => exact tight.extend rightward right
  | cons frame inner step =>
    obtain ⟨member, least, deeper⟩ := nested
    have most := within frame (List.mem_cons_self ..)
    have limit := frame.link.rightLimit_le
    have same : frame.link.op.priority = op.priority := by omega
    have inside : Nested op.priority inner := by
      have : frame.link.rightLimit = op.priority := by omega
      rwa [this] at deeper
    rw [plug, extend_join same, plug]
    rw [step inside fun other found => within other (List.mem_cons_of_mem _ found)]

/-- An operator goes past all frames on whose right side it may stand. -/
theorem insert_plug {op : Op} (member : op ∈ .condition :: linkOps) {limit : Nat}
    {frames : List Frame} {tree : Expr} (tight : Tight op tree) (nested : Nested limit frames)
    (within : ∀ frame ∈ frames, op.priority ≤ frame.link.rightLimit) (right : Option Expr) :
    Expr.insert op right (plug frames tree) = plug frames (Expr.join op tree right) := by
  induction frames generalizing limit with
  | nil => exact tight.insert right
  | cons frame inner step =>
    obtain ⟨linkMember, _, deeper⟩ := nested
    have most := within frame (List.mem_cons_self ..)
    have further : ∀ other ∈ inner, op.priority ≤ other.link.rightLimit := fun other found =>
      within other (List.mem_cons_of_mem _ found)
    rw [plug, plug, Link.join_eq, Link.join_eq, Expr.insert]
    rcases past_of_within member linkMember most with less | ⟨rightward, same⟩
    · rw [if_pos less, step deeper further]
    · have inside : Nested op.priority inner := by
        have limit := frame.link.rightLimit_le
        have : frame.link.rightLimit = op.priority := by omega
        rwa [this] at deeper
      rw [if_neg (by omega), if_pos ⟨rightward, same⟩]
      rw [extend_plug rightward tight inside further]

/-- The edge after a link has been added at its place. -/
def graft (link : Link) (tree : Expr) : List Frame → List Frame
  | [] => [⟨link, tree⟩]
  | frame :: inner =>
    if link.op.priority ≤ frame.link.rightLimit then frame :: graft link tree inner
    else [⟨link, plug (frame :: inner) tree⟩]

theorem nested_graft {link : Link} (member : link.op ∈ linkOps) (tree : Expr) {limit : Nat}
    {frames : List Frame} (nested : Nested limit frames) (within : link.op.priority ≤ limit) :
    Nested limit (graft link tree frames) := by
  induction frames generalizing limit with
  | nil => exact ⟨member, within, trivial⟩
  | cons frame inner step =>
    obtain ⟨linkMember, least, deeper⟩ := nested
    unfold graft
    split
    · rename_i most
      exact ⟨linkMember, least, step deeper most⟩
    · exact ⟨member, within, trivial⟩

/-- Where a link is grafted: past the frames of a first part, above the tree of the others. -/
theorem graft_split {link : Link} (tree : Expr) {limit : Nat} {frames : List Frame}
    (nested : Nested limit frames) :
    ∃ outer inner, frames = outer ++ inner ∧
      graft link tree frames = outer ++ [⟨link, plug inner tree⟩] ∧ Nested limit outer ∧
      (∀ frame ∈ outer, link.op.priority ≤ frame.link.rightLimit) ∧
      (∀ frame ∈ inner.head?,
        frame.link.op ∈ linkOps ∧ ¬ link.op.priority ≤ frame.link.rightLimit) := by
  induction frames generalizing limit with
  | nil => exact ⟨[], [], rfl, rfl, trivial, by simp, by simp⟩
  | cons frame inner step =>
    obtain ⟨linkMember, least, deeper⟩ := nested
    unfold graft
    split
    · rename_i most
      obtain ⟨outer, rest, parts, grafted, around, within, beyond⟩ := step deeper
      refine ⟨frame :: outer, rest, by rw [parts]; rfl, by rw [grafted]; rfl, ?_, ?_, beyond⟩
      · exact ⟨linkMember, least, around⟩
      · intro other found
        cases found with
        | head => exact most
        | tail _ found => exact within other found
    · rename_i least
      refine ⟨[], frame :: inner, rfl, rfl, trivial, by simp, ?_⟩
      intro other found
      cases found
      exact ⟨linkMember, least⟩

theorem tight_plug {op : Op} (member : op ∈ .condition :: linkOps) {tree : Expr}
    (steady : Steady tree) {frames : List Frame}
    (beyond : ∀ frame ∈ frames.head?,
      frame.link.op ∈ linkOps ∧ ¬ op.priority ≤ frame.link.rightLimit) :
    Tight op (plug frames tree) := by
  cases frames with
  | nil => exact tight_of_steady member steady
  | cons frame inner =>
    obtain ⟨linkMember, least⟩ := beyond frame rfl
    exact tight_join member linkMember least _ _

/-- Adding a link to the tree of an edge grafts it on the edge. -/
theorem insert_plug_link {link : Link} (member : link.op ∈ linkOps) {tree : Expr}
    (steady : Steady tree) {limit : Nat} {frames : List Frame} (nested : Nested limit frames)
    (right : Expr) :
    link.insert right (plug frames tree) = plug (graft link tree frames) right := by
  obtain ⟨outer, inner, rfl, grafted, around, within, beyond⟩ := graft_split tree nested
  rw [grafted, plug_append, plug_append]
  cases link with
  | between op =>
    have member := List.mem_cons_of_mem Op.condition member
    exact insert_plug member (tight_plug member steady beyond) around within _
  | ternary chosen =>
    -- Both marks of the ternary go past the same frames.
    have outerMember : ∀ frame ∈ outer, frame.link.op ∈ linkOps := by
      clear grafted within nested
      induction outer generalizing limit with
      | nil => simp
      | cons frame outer step =>
        obtain ⟨linkMember, _, deeper⟩ := around
        intro other found
        cases found with
        | head => exact linkMember
        | tail _ found => exact step deeper other found
    have marked : Op.condition ∈ Op.condition :: linkOps := List.mem_cons_self ..
    have first := insert_plug marked
      (tight_plug marked steady fun frame found => by
        obtain ⟨linkMember, least⟩ := beyond frame found
        exact ⟨linkMember, fun most => least ((condition_within_iff linkMember).mp most)⟩)
      around
      (fun frame found => (condition_within_iff (outerMember frame found)).mpr (within frame found))
      (some (.bracketed .round chosen))
    have second := insert_plug (List.mem_cons_of_mem _ member)
      (tight_condition (plug inner tree) (.bracketed .round chosen)) around within (some right)
    simp only [Link.insert, first]
    exact second

/-! Climbing along the edge. -/

/-- The tree of climbing and what has not been joined. -/
def climbed (limit : Nat) (left : Expr) (rest : List (Link × Expr)) :
    Expr × List (Link × Expr) :=
  ((climb limit left rest).1, (climb limit left rest).2.val)

theorem climbed_nil (limit : Nat) (left : Expr) : climbed limit left [] = (left, []) := by
  unfold climbed climb
  rfl

theorem climbed_beyond {limit : Nat} {link : Link} (beyond : ¬ link.op.priority ≤ limit)
    (left operand : Expr) (rest : List (Link × Expr)) :
    climbed limit left ((link, operand) :: rest) = (left, (link, operand) :: rest) := by
  unfold climbed climb
  rw [if_neg beyond]

theorem climbed_within {limit : Nat} {link : Link} (within : link.op.priority ≤ limit)
    (left operand : Expr) (rest : List (Link × Expr)) :
    climbed limit left ((link, operand) :: rest) =
      climbed limit (link.join left (climbed link.rightLimit operand rest).1)
        (climbed link.rightLimit operand rest).2 := by
  unfold climbed
  rw [climb, if_pos within]

/-- Climbing that has come to the end of an edge, with the tree that stands there. -/
def finish (limit : Nat) (frames : List Frame) (tree : Expr) (rest : List (Link × Expr)) :
    Expr × List (Link × Expr) :=
  match frames with
  | [] => climbed limit tree rest
  | frame :: inner =>
    let right := finish frame.link.rightLimit inner tree rest
    climbed limit (frame.link.join frame.left right.1) right.2

theorem finish_nil (limit : Nat) (frames : List Frame) (tree : Expr) :
    finish limit frames tree [] = (plug frames tree, []) := by
  induction frames generalizing limit with
  | nil => exact climbed_nil limit tree
  | cons frame inner step => simp only [finish, step, climbed_nil, plug]

theorem finish_beyond {link : Link} {limit : Nat} {frames : List Frame}
    (nested : Nested limit frames) (beyond : ¬ link.op.priority ≤ limit) (tree operand : Expr)
    (rest : List (Link × Expr)) :
    finish limit frames tree ((link, operand) :: rest) =
      (plug frames tree, (link, operand) :: rest) := by
  induction frames generalizing limit with
  | nil => exact climbed_beyond beyond tree operand rest
  | cons frame inner step =>
    obtain ⟨_, least, deeper⟩ := nested
    have limit := frame.link.rightLimit_le
    simp only [finish, step deeper (by omega), climbed_beyond beyond, plug]

/-- Climbing over the next link grafts it on the edge. -/
theorem finish_cons {link : Link} {limit : Nat} {frames : List Frame}
    (nested : Nested limit frames) (within : link.op.priority ≤ limit) (tree operand : Expr)
    (rest : List (Link × Expr)) :
    finish limit frames tree ((link, operand) :: rest) =
      finish limit (graft link tree frames) operand rest := by
  induction frames generalizing limit with
  | nil => exact climbed_within within tree operand rest
  | cons frame inner step =>
    obtain ⟨_, least, deeper⟩ := nested
    unfold graft
    split
    · rename_i most
      simp only [finish, step deeper most]
    · rename_i beyond
      have stopped := finish_beyond deeper beyond tree operand rest
      simp only [finish, stopped, plug, climbed_within within]

/-! What belongs to an operand. -/

/-- What the marks after a name do not reach into. -/
def Base : Expr → Prop
  | .unary op _ | .binary op _ _ => op.priority = 1
  | _ => True

theorem steady_leadingTree {base : Expr} (basic : Base base) (leading : List Leading) :
    Steady (leadingTree leading base) := by
  cases leading with
  | nil =>
    cases base with
    | unary op operand =>
      have : op.priority = 1 := basic
      change op.priority ≤ 2
      omega
    | binary op left right =>
      have : op.priority = 1 := basic
      change op.priority ≤ 2
      omega
    | _ => trivial
  | cons op leading =>
    have all : ∀ op ∈ leadingOps, op.priority ≤ 2 := by decide
    exact all op.val op.property

/-- A mark after a name goes past the frames and the leading operators to the name. -/
theorem insert_plug_leading {op : Op} (strong : op.priority = 1)
    (leftward : op.isRightAssoc = false) {limit : Nat} {frames : List Frame}
    (nested : Nested limit frames) (leading : List Leading) {base : Expr} (basic : Base base)
    (right : Option Expr) :
    Expr.insert op right (plug frames (leadingTree leading base)) =
      plug frames (leadingTree leading (Expr.join op base right)) := by
  have atBase : Expr.insert op right base = Expr.join op base right := by
    cases base with
    | unary link operand =>
      have : link.priority = 1 := basic
      rw [Expr.insert, if_neg (by omega)]
    | binary link left chain =>
      have : link.priority = 1 := basic
      rw [Expr.insert, if_neg (by omega), if_neg (by simp [leftward])]
    | _ => rfl
  have atLeading : Expr.insert op right (leadingTree leading base) =
      leadingTree leading (Expr.join op base right) := by
    induction leading with
    | nil => exact atBase
    | cons first leading step =>
      have all : ∀ op ∈ leadingOps, op.priority = 2 := by decide
      have : first.val.priority = 2 := all first.val first.property
      change Expr.insert op right (.unary first.val (leadingTree leading base)) = _
      rw [Expr.insert, if_pos (by omega), step]
      rfl
  induction frames generalizing limit with
  | nil => exact atLeading
  | cons frame inner step =>
    obtain ⟨linkMember, _, deeper⟩ := nested
    have := three_le_priority (List.mem_cons_of_mem Op.condition linkMember)
    rw [plug, plug, Link.join_eq, Link.join_eq, Expr.insert, if_pos (by omega), step deeper]

end HtmlTemplate.Precedence
