import HtmlTemplate.Proofs.Reading.Basic

/-! The shapes of trees that are read: how many operands each operator has, and where the first two parts of a
ternary stand. An operator on the right edge of a tree is never weaker than the one above it, so that what
stands after the colon of a ternary joins what stands before it. -/

namespace HtmlTemplate

namespace Expr

/-- The first two parts of a ternary, with brackets around them or without. -/
def isCondition : Expr → Bool
  | binary op _ _ => op == .condition
  | bracketed _ inner => inner.isCondition
  | _ => false

/-- How strongly the top of a tree binds what is in it. Brackets bind most. -/
def weakness : Expr → Nat
  | unary op _ | binary op _ _ => op.priority
  | _ => 0

/-- Every operator has the operands that it is written with, and the first two parts of a ternary stand on
the left side of the whole and nowhere else. -/
def Formed : Expr → Prop
  | unary op operand => (op.isLeading || op.isTrailing) = true ∧ operand.isCondition = false ∧ operand.Formed
  | binary op left right =>
    (op.isLeading || op.isTrailing || op == .group) = false ∧
      left.isCondition = (op == .alternative) ∧ left.Formed ∧
      right.isCondition = false ∧ right.weakness ≤ op.priority ∧ right.Formed
  | bracketed _ inner => inner.isCondition = false ∧ inner.Formed
  | _ => True

/-- A tree that may stand by itself, and on the right side of an operator that is no stronger than a bound. -/
structure Whole (bound : Nat) (tree : Expr) : Prop where
  formed : tree.Formed
  alone : tree.isCondition = false
  weakness : tree.weakness ≤ bound

theorem Whole.mono {bound wider : Nat} {tree : Expr} (whole : Whole bound tree) (within : bound ≤ wider) :
    Whole wider tree :=
  ⟨whole.formed, whole.alone, Nat.le_trans whole.weakness within⟩

/-- What may stand on the right side of an operator, which may be nothing. -/
def Suits (op : Op) : Option Expr → Prop
  | none => op.isTrailing = true
  | some right => op.isTrailing = false ∧ Whole op.priority right

/-- An operator with one operand is no weaker than this. -/
def unaryBound : Nat := 2

theorem priority_le_unaryBound {op : Op} (single : (op.isLeading || op.isTrailing) = true) :
    op.priority ≤ unaryBound := by
  cases op <;> revert single <;> decide

/-- The operators that a row is written with. -/
def rowOps : List Op :=
  Op.all.filter fun op => !(op.isLeading || op == .group || op == .alternative)

theorem rowOps_spec : ∀ op ∈ rowOps, op.isLeading = false ∧ op ≠ .group ∧ op ≠ .alternative := by
  decide

variable {op : Op} {right : Option Expr} {tree : Expr} {bound : Nat}

/-- An operator takes a whole tree for its left side. -/
theorem whole_join (member : op ∈ rowOps) (plain : op ≠ .condition) (suits : Suits op right)
    (whole : Whole bound tree) : Whole op.priority (join op tree right) := by
  obtain ⟨unled, ungrouped, unswitched⟩ := rowOps_spec op member
  cases right with
  | none =>
    refine ⟨⟨?_, whole.alone, whole.formed⟩, rfl, Nat.le_refl _⟩
    rw [show op.isTrailing = true from suits, Bool.or_true]
  | some right =>
    obtain ⟨sided, side⟩ := suits
    refine ⟨⟨?_, ?_, whole.formed, side.alone, side.weakness, side.formed⟩, ?_, Nat.le_refl _⟩
    · simp [unled, sided, ungrouped]
    · simp [whole.alone, unswitched]
    · simpa [join, isCondition] using plain

/-- The right side of an operator is changed. -/
theorem whole_right {link : Op} {left chain instead : Expr} (whole : Whole bound (.binary link left chain))
    (changed : Whole link.priority instead) : Whole bound (.binary link left instead) := by
  obtain ⟨⟨sides, joined, formed, -, -, -⟩, alone, weakness⟩ := whole
  exact ⟨⟨sides, joined, formed, changed.alone, changed.weakness, changed.formed⟩, alone, weakness⟩

theorem Whole.chain {link : Op} {left chain : Expr} (whole : Whole bound (.binary link left chain)) :
    Whole link.priority chain :=
  ⟨whole.formed.2.2.2.2.2, whole.formed.2.2.2.1, whole.formed.2.2.2.2.1⟩

theorem whole_extend (member : op ∈ rowOps) (plain : op ≠ .condition) (suits : Suits op right)
    (whole : Whole op.priority tree) : Whole op.priority (extend op right tree) := by
  induction tree with
  | binary link left chain _ step =>
    rw [extend]
    split
    · rename_i same
      exact whole_right whole (same ▸ step (same ▸ whole.chain))
    · exact whole_join member plain suits whole
  | _ => exact whole_join member plain suits whole

/-- An operator that does not belong to a ternary is added to a tree. -/
theorem whole_insert (member : op ∈ rowOps) (plain : op ≠ .condition) (suits : Suits op right)
    (whole : Whole bound tree) (within : op.priority ≤ bound) : Whole bound (insert op right tree) := by
  induction tree generalizing bound with
  | binary link left chain _ step =>
    rw [insert]
    split
    · rename_i weaker
      exact whole_right whole (step whole.chain (Nat.le_of_lt weaker))
    · split
      · rename_i chained
        exact whole_right whole (chained.2 ▸ whole_extend member plain suits (chained.2 ▸ whole.chain))
      · exact (whole_join member plain suits whole).mono within
  | unary link operand step =>
    rw [insert]
    split
    · rename_i weaker
      obtain ⟨⟨sides, alone, formed⟩, -, weakness⟩ := whole
      obtain ⟨formed, alone, -⟩ := step ⟨formed, alone, Nat.le_max_left _ op.priority⟩ (Nat.le_max_right ..)
      exact ⟨⟨sides, alone, formed⟩, rfl, weakness⟩
    · exact (whole_join member plain suits whole).mono within
  | _ => exact (whole_join member plain suits whole).mono within

/-! Ternaries. -/

theorem eq_condition_iff {op : Op} : op.priority = Op.priority .condition ↔ op = .condition := by
  cases op <;> decide

variable {first other : Expr}

theorem insert_condition (whole : Whole (Op.priority .condition) tree) :
    insert .condition right tree = join .condition tree right := by
  cases tree with
  | binary link left chain =>
    have bounded : link.priority ≤ Op.priority .condition := whole.weakness
    have alone : ¬link.priority = Op.priority .condition := by
      rw [eq_condition_iff]
      exact ne_of_beq_false whole.alone
    rw [insert, if_neg (Nat.not_lt.mpr bounded), if_neg fun chained => alone chained.2]
  | unary link operand =>
    have bounded : link.priority ≤ Op.priority .condition := whole.weakness
    rw [insert, if_neg (Nat.not_lt.mpr bounded)]
  | _ => rfl

theorem whole_alternative (chosen : Whole (Op.priority .condition) first)
    (otherwise : Whole (Op.priority .alternative) other) (whole : Whole (Op.priority .condition) tree) :
    Whole (Op.priority .alternative) (.binary .alternative (.binary .condition tree first) other) where
  formed := ⟨rfl, rfl, ⟨rfl, whole.alone, whole.formed, chosen.alone, chosen.weakness, chosen.formed⟩,
    otherwise.alone, otherwise.weakness, otherwise.formed⟩
  alone := rfl
  weakness := Nat.le_refl _

/-- The ternary goes below an operator that is weaker, or has the tree for its condition. -/
theorem whole_cases (whole : Whole bound tree) :
    Whole (Op.priority .condition) tree ∨
      ∃ link left chain, tree = .binary link left chain ∧ Op.priority .condition < link.priority ∧
        sizeOf chain < sizeOf tree := by
  cases tree with
  | binary link left chain =>
    by_cases weaker : Op.priority .condition < link.priority
    · refine .inr ⟨link, left, chain, rfl, weaker, ?_⟩
      rw [binary.sizeOf_spec]
      omega
    · exact .inl ⟨whole.formed, whole.alone, Nat.not_lt.mp weaker⟩
  | unary link operand =>
    have strong := priority_le_unaryBound whole.formed.1
    exact .inl ⟨whole.formed, whole.alone, Nat.le_trans strong (by decide)⟩
  | _ => exact .inl ⟨whole.formed, whole.alone, Nat.zero_le _⟩

section

variable (chosen : Whole (Op.priority .condition) first) (otherwise : Whole (Op.priority .alternative) other)
include chosen otherwise

/-- A ternary goes to the end of a chain of ternaries. -/
theorem whole_chained {tree : Expr} (whole : Whole (Op.priority .alternative) tree) :
    Whole (Op.priority .alternative)
      (extend .alternative (some other) (insert .condition (some first) tree)) := by
  rcases whole_cases whole with strong | ⟨link, left, chain, rfl, weaker, shorter⟩
  · rw [insert_condition strong]
    exact whole_alternative chosen otherwise strong
  · have same : link.priority = Op.priority .alternative := Nat.le_antisymm whole.weakness weaker
    rw [insert, if_pos weaker, extend, if_pos same]
    exact whole_right whole (same ▸ whole_chained (same ▸ whole.chain))
termination_by sizeOf tree
decreasing_by all_goals omega

/-- A ternary is added to a tree. -/
theorem whole_ternary {bound : Nat} {tree : Expr} (whole : Whole bound tree)
    (within : Op.priority .alternative ≤ bound) :
    Whole bound (insert .alternative (some other) (insert .condition (some first) tree)) := by
  rcases whole_cases whole with strong | ⟨link, left, chain, rfl, weaker, shorter⟩
  · rw [insert_condition strong]
    exact (whole_alternative chosen otherwise strong).mono within
  · rw [insert, if_pos weaker, insert]
    split
    · rename_i weakest
      exact whole_right whole (whole_ternary whole.chain (Nat.le_of_lt weakest))
    · rename_i bounded
      have same : link.priority = Op.priority .alternative := Nat.le_antisymm (Nat.not_lt.mp bounded) weaker
      rw [if_pos ⟨rfl, same⟩]
      exact whole_right whole (same ▸ whole_chained chosen otherwise (same ▸ whole.chain))
termination_by sizeOf tree
decreasing_by all_goals omega

end

end Expr

namespace Reading

open HtmlTemplate.Expr

variable {options : ParseOptions} {input : Input}

/-! What is read. -/

theorem of_check {α : Type} {op : Op} {pos : Nat} {value result : α}
    (found : ((OperatorReading.check options op pos).map fun _ => value) = .ok result) : value = result := by
  unfold OperatorReading.check at found
  split at found
  · cases found
    rfl
  · cases found

theorem mem_rowOps_of_readSymbol? {op : Op} {next : Input}
    (found : OperatorReading.readSymbol? input = some (op, next)) : op ∈ rowOps := by
  have all : ∀ symbol ∈ OperatorReading.symbols, symbol.2.2 ∈ rowOps := by decide
  obtain ⟨⟨first, more, symbol⟩, member, eaten⟩ := List.exists_of_findSome?_eq_some found
  obtain ⟨after, -, same⟩ := Option.map_eq_some_iff.mp eaten
  cases same
  exact all _ member

theorem mem_rowOps_of_opening? {char : Char} {op : Op} (found : OperatorReading.opening? char = some op) :
    op ∈ rowOps := by
  unfold OperatorReading.opening? at found
  repeat' split at found
  all_goals
    cases found
    try decide

theorem mem_rowOps_of_single? {char : Char} {op : Op} (found : OperatorReading.single? char = some op) :
    op ∈ rowOps := by
  unfold OperatorReading.single? at found
  repeat' split at found
  all_goals
    cases found
    try decide

theorem mem_rowOps_of_separator? {stops : Stops} {enclosed : Bool} {char : Char} {op : Op}
    (found : OperatorReading.separator? stops enclosed char = some op) : op ∈ rowOps := by
  unfold OperatorReading.separator? at found
  repeat' split at found
  all_goals
    cases found
    try decide

theorem mem_rowOps_of_read {enclosed : Bool} {op : Op} {next : Input}
    (found : OperatorReading.read options enclosed input = .ok (some (op, next))) : op ∈ rowOps := by
  unfold OperatorReading.read at found
  split at found
  · rename_i symbol
    cases of_check found
    exact mem_rowOps_of_readSymbol? symbol
  · split at found
    · cases found
    · split at found
      · rename_i opening
        cases of_check found
        exact mem_rowOps_of_opening? opening
      · split at found
        · rename_i simple
          cases of_check found
          rcases Option.or_eq_some_iff.mp simple with single | ⟨-, separator⟩
          · exact mem_rowOps_of_single? single
          · exact mem_rowOps_of_separator? separator
        · cases found

theorem isLeading_of_readLeading {mark : Option Op} {next : Input}
    (found : OperatorReading.readLeading options input = .ok (some (mark, next))) :
    ∀ op ∈ mark, op.isLeading = true := by
  have checked (op : Op) (leading : op.isLeading = true) (after : Input)
      (found : ((OperatorReading.check options op after.pos).map fun _ => some (some op, after)) =
        .ok (some (mark, next))) : ∀ op ∈ mark, op.isLeading = true := by
    cases of_check found
    rintro _ ⟨⟩
    exact leading
  unfold OperatorReading.readLeading at found
  dsimp only at found
  repeat' split at found
  · exact checked .declare rfl _ found
  · exact checked .preIncrement rfl _ found
  · exact checked .preDecrement rfl _ found
  · exact checked .not rfl _ found
  · exact checked .negate rfl _ found
  · exact checked .complement rfl _ found
  · cases found
    exact nofun
  · cases found

/-! What is read. -/

/-- Operators whose right side is a name or stands in brackets bind more than those with one operand. -/
def boundOf (op : Op) : Nat :=
  if op = .member ∨ op = .sharp ∨ op = .scope then 0 else unaryBound

theorem boundOf_le {op : Op} (member : op ∈ rowOps) (unclosed : Enclosure.ofOp? op = none)
    (sided : op.isTrailing = false) : boundOf op ≤ op.priority := by
  revert op
  decide

theorem whole_leaf {leaf : Expr} (isLeaf : leaf.IsLeaf) (bound : Nat) : Whole bound leaf := by
  cases leaf with
  | name _ => exact ⟨trivial, rfl, Nat.zero_le bound⟩
  | literal _ => exact ⟨trivial, rfl, Nat.zero_le bound⟩
  | noArguments => exact ⟨trivial, rfl, Nat.zero_le bound⟩
  | _ => cases isLeaf

theorem whole_lead {mark : Option Op} (leading : ∀ op ∈ mark, op.isLeading = true) {operand : Expr}
    (whole : Whole unaryBound operand) : Whole unaryBound (Parser.lead mark operand) := by
  cases mark with
  | none => exact whole
  | some op =>
    have leads : op.isLeading = true := leading op rfl
    refine ⟨⟨by rw [leads, Bool.true_or], whole.alone, whole.formed⟩, rfl, ?_⟩
    exact priority_le_unaryBound (by rw [leads, Bool.true_or])

theorem whole_empty {enclosure : Enclosure} {empty : Expr} (empties : enclosure.empty? = some empty)
    (bound : Nat) : Whole bound empty := by
  cases enclosure with
  | branch => cases empties
  | bracket bracket => cases bracket <;> cases empties <;> exact ⟨trivial, rfl, Nat.zero_le bound⟩

/-- No operator is weaker than this. -/
def weakest : Nat := Op.priority .sequence

theorem boundOf_le_weakest (op : Op) : boundOf op ≤ weakest := by
  unfold boundOf
  split <;> decide

theorem priority_le_weakest (op : Op) : op.priority ≤ weakest := by
  cases op <;> decide

/-- An expression that is read is whole. -/
def Reads (bound : Nat) (read : Except ParseError (Parsed Expr input)) : Prop :=
  ∀ parsed, read = .ok parsed → Whole bound parsed.value

theorem Reads.map {start : Input} {bound wider : Nat} {read : Except ParseError (Parsed Expr input)}
    {change : Parsed Expr input → Parsed Expr start} (reads : Reads bound read)
    (changed : ∀ parsed, Whole bound parsed.value → Whole wider (change parsed).value) :
    Reads wider (read.map change) := by
  intro result done
  cases read with
  | error fault => cases done
  | ok parsed =>
    cases done
    exact changed parsed (reads parsed rfl)

theorem Reads.bind {start : Input} {bound wider : Nat} {read : Except ParseError (Parsed Expr input)}
    {next : Parsed Expr input → Except ParseError (Parsed Expr start)} (reads : Reads bound read)
    (further : ∀ parsed, Whole bound parsed.value → Reads wider (next parsed)) : Reads wider (read >>= next) := by
  intro result done
  obtain ⟨parsed, first, second⟩ := bind_eq_ok.mp done
  exact further parsed (reads parsed first) result second

section

variable (options : ParseOptions)

mutual

theorem readOperand_whole (op : Op) (input : Input) :
    Reads (boundOf op) (Parser.readOperand options op input) := by
  have shorter := Gap.size_skip_le options false input
  rw [Parser.readOperand]
  split
  · exact nofun
  split
  · exact .map (fun parsed read => whole_leaf (isLeaf_readName read) _) fun _ => id
  · rename_i unnamed
    rw [boundOf, if_neg unnamed]
    exact .map (readLed_whole op _) fun _ => id
termination_by 8 * input.size + 1
decreasing_by all_goals omega

theorem readLed_whole (op : Op) (input : Input) : Reads unaryBound (Parser.readLed options op input) := by
  have value : Reads unaryBound (Parser.readValue op input) :=
    fun parsed read => whole_leaf (isLeaf_readValue read) _
  cases found : OperatorReading.readLeading options input with
  | error fault =>
    rw [readLed_failed found]
    exact nofun
  | ok leading =>
    cases leading with
    | some marked =>
      obtain ⟨mark, next⟩ := marked
      have later := (OperatorReading.passes_of_readLeading found).2
      have shorter := Gap.size_skip_le options false next
      obtain ⟨reached, read⟩ := readLed_marked found op
      rw [read]
      split
      · exact nofun
      · exact .map (readLed_whole op _) fun _ => whole_lead (isLeading_of_readLeading found)
    | none =>
      rw [readLed_unmarked found]
      cases start : input.rest with
      | nil => exact value
      | cons char text =>
        dsimp only
        cases Enclosure.ofOpening? char with
        | none => exact value
        | some enclosure =>
          have shorter : input.advance.size < input.size := by
            have : input.advance.size = input.size - 1 := Input.size_advance input
            have : 0 < input.size := by simp [Input.size, start]
            omega
          exact .map (readGroup_whole enclosure _) fun _ whole => whole.mono (Nat.zero_le _)
termination_by 8 * input.size
decreasing_by all_goals omega

theorem readGroup_whole (enclosure : Enclosure) (input : Input) :
    Reads 0 (Parser.readGroup options enclosure input) := by
  have shorter := Gap.size_skip_le options false input
  have operand := readOperand_whole enclosure.op (Gap.skip options false input).1
  rw [Parser.readGroup]
  dsimp only
  split
  · exact nofun
  · split
    · rename_i empty next empties eaten
      rintro _ ⟨⟩
      exact whole_empty empties 0
    · refine operand.bind fun first whole => ?_
      have := first.le
      refine (readOperators_whole _ _ first.rest (whole.mono (boundOf_le_weakest _))).bind fun inner whole => ?_
      rintro _ ⟨⟩
      exact ⟨⟨whole.alone, whole.formed⟩, whole.alone, Nat.le_refl _⟩
termination_by 8 * input.size + 3
decreasing_by all_goals omega

theorem readOperators_whole (close : Option Char) (tree : Expr) (input : Input) (whole : Whole weakest tree) :
    Reads weakest (Parser.readOperators options close tree input) := by
  have shorter := Gap.size_skip_le options close.isNone input
  have ended : Reads weakest (finish close tree (Gap.reaches_skip options close.isNone input)) := by
    cases close with
    | none =>
      rintro _ ⟨⟩
      exact whole
    | some mark => exact nofun
  cases goesOn : (Gap.skip options close.isNone input).2 with
  | false =>
    rw [readOperators_ended tree (.inl goesOn)]
    exact ended
  | true =>
    cases closed : close.any fun mark => (Gap.skip options close.isNone input).1.isAt mark with
    | true =>
      rw [readOperators_closed tree goesOn closed]
      rintro _ ⟨⟩
      exact whole
    | false =>
      cases found : OperatorReading.read options close.isSome (Gap.skip options close.isNone input).1 with
      | error fault =>
        rw [readOperators_failed tree goesOn closed found]
        exact nofun
      | ok next =>
        cases next with
        | none =>
          rw [readOperators_ended tree (.inr ⟨closed, found⟩)]
          exact ended
        | some next =>
          obtain ⟨op, next⟩ := next
          have later := (OperatorReading.passes_of_read found).2
          obtain ⟨reached, read⟩ := readOperators_applied tree goesOn closed found
          rw [read]
          refine (readApplied_whole op tree next (mem_rowOps_of_read found) whole).bind fun parsed whole => ?_
          have := parsed.le
          exact .map (readOperators_whole close parsed.value parsed.rest whole) fun _ => id
termination_by 8 * input.size + 2
decreasing_by all_goals omega

theorem readApplied_whole (op : Op) (tree : Expr) (input : Input) (member : op ∈ rowOps)
    (whole : Whole weakest tree) : Reads weakest (Parser.readApplied options tree op input) := by
  rw [Parser.readApplied]
  split
  · rename_i trailing
    rintro _ ⟨⟩
    exact whole_insert member (by rintro rfl; cases trailing) trailing whole (priority_le_weakest op)
  · rename_i sided
    have sided : op.isTrailing = false := Bool.not_eq_true _ ▸ sided
    split
    · rename_i unclosed
      refine .bind (readOperand_whole op input) fun right side => ?_
      rintro _ ⟨⟩
      have suits : Suits op (some right.value) := ⟨sided, side.mono (boundOf_le member unclosed sided)⟩
      exact whole_insert member (by rintro rfl; cases unclosed) suits whole (priority_le_weakest op)
    · refine .bind (readGroup_whole _ input) fun right side => ?_
      have := right.le
      split
      · rename_i ternary
        refine .bind (readOperand_whole .alternative right.rest) fun otherwise other => ?_
        rintro _ ⟨⟩
        subst ternary
        exact whole_ternary (side.mono (Nat.zero_le _)) (other.mono (by decide)) whole
          (priority_le_weakest .alternative)
      · rename_i plain
        rintro _ ⟨⟩
        have suits : Suits op (some right.value) := ⟨sided, side.mono (Nat.zero_le _)⟩
        exact whole_insert member plain suits whole (priority_le_weakest op)
termination_by 8 * input.size + 4
decreasing_by all_goals omega

end

/-- Every expression that is read is whole. -/
theorem readExpr_whole (input : Input) : Reads weakest (Parser.readExpr options input) := by
  refine .bind (readOperand_whole options .group input) fun first whole => ?_
  refine .bind (readOperators_whole options none _ _ (whole.mono (boundOf_le_weakest _))) fun tree whole => ?_
  rintro _ ⟨⟩
  exact whole

end

end Reading

end HtmlTemplate
