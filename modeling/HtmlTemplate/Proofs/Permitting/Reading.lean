import HtmlTemplate.Expr.Parser
import HtmlTemplate.Proofs.Arena.Shapes

/-! The operators of a tree. What an operator is added to keeps its operators and gets those of the right side. -/

namespace HtmlTemplate

namespace Expr

/-- The operators that a tree is written with, from the left. Brackets around something are none, nor are those of
an empty array or dictionary, and the two marks of a ternary are one operator, the condition. -/
def operators : Expr → List Op
  | unary op operand => op :: operators operand
  | binary .alternative left right => operators left ++ operators right
  | binary op left right => op :: (operators left ++ operators right)
  | bracketed _ inner => operators inner
  | name _ | literal _ | noArguments | emptyArray | emptyDict => []

/-- Every operator of the tree may be used. -/
def Within (set : OperatorSet) (tree : Expr) : Prop := ∀ op ∈ tree.operators, set.contains op = true

instance (set : OperatorSet) (tree : Expr) : Decidable (tree.Within set) :=
  List.decidableBAll (fun op => set.contains op = true) tree.operators

end Expr

namespace OperatorSet

/-- An operator in a tree may be used. Of a ternary, the condition decides. -/
def Permits (set : OperatorSet) (op : Op) : Prop := op = .alternative ∨ set.contains op = true

theorem permits_iff {set : OperatorSet} {op : Op} (other : op ≠ .alternative) :
    set.Permits op ↔ set.contains op = true :=
  or_iff_right other

end OperatorSet

namespace Expr

variable {set : OperatorSet}

theorem within_unary (op : Op) (operand : Expr) :
    (unary op operand).Within set ↔ set.contains op = true ∧ operand.Within set :=
  List.forall_mem_cons

theorem within_binary (op : Op) (left right : Expr) :
    (binary op left right).Within set ↔ set.Permits op ∧ left.Within set ∧ right.Within set := by
  have operands : (∀ op ∈ left.operators ++ right.operators, set.contains op = true) ↔
      left.Within set ∧ right.Within set := List.forall_mem_append
  by_cases ternary : op = .alternative
  · subst ternary
    have permitted : set.Permits .alternative := .inl rfl
    rw [Within, operators, operands, and_iff_right permitted]
  · have written : (binary op left right).operators = op :: (left.operators ++ right.operators) := by
      cases op <;> first | rfl | exact absurd rfl ternary
    rw [Within, written, List.forall_mem_cons, operands, OperatorSet.permits_iff ternary]

/-- What is added to a tree: an operator and, unless it stands after its operand, a right side. -/
def Added (set : OperatorSet) (op : Op) (right : Option Expr) : Prop :=
  (right = none → set.contains op = true) ∧ ∀ tree ∈ right, set.Permits op ∧ tree.Within set

variable {op : Op} {right : Option Expr}

theorem added_none : Added set op none ↔ set.contains op = true :=
  ⟨fun added => added.1 rfl, fun contained => ⟨fun _ => contained, nofun⟩⟩

theorem added_some {tree : Expr} : Added set op (some tree) ↔ set.Permits op ∧ tree.Within set :=
  ⟨fun added => added.2 tree rfl, fun permitted => ⟨nofun, by rintro _ ⟨⟩; exact permitted⟩⟩

theorem within_join (left : Expr) : (join op left right).Within set ↔ left.Within set ∧ Added set op right := by
  cases right with
  | none => rw [join, within_unary, added_none, and_comm]
  | some right =>
    rw [join, within_binary, added_some]
    exact and_left_comm

theorem within_extend (tree : Expr) : (extend op right tree).Within set ↔ tree.Within set ∧ Added set op right := by
  induction tree with
  | binary link left chain _ step =>
    rw [extend]
    split
    · rw [within_binary, within_binary, step, and_assoc, and_assoc]
    · exact within_join _
  | _ => exact within_join _

/-- A tree with one more operator is within a set if the tree was and what has been added is. -/
theorem within_insert (tree : Expr) : (insert op right tree).Within set ↔ tree.Within set ∧ Added set op right := by
  induction tree with
  | unary link operand step =>
    rw [insert]
    split
    · rw [within_unary, within_unary, step, and_assoc]
    · exact within_join _
  | binary link left chain _ step =>
    rw [insert]
    split
    · rw [within_binary, within_binary, step, and_assoc, and_assoc]
    · split
      · rw [within_binary, within_binary, within_extend, and_assoc, and_assoc]
      · exact within_join _
  | _ => exact within_join _

end Expr

/-! Reading with some of the operators. An expression is read with a set of operators exactly if it is read with all
of them to a tree of operators in the set; then it is read the same. -/

/-- The same options with every operator. -/
def ParseOptions.unrestricted (options : ParseOptions) : ParseOptions := { options with operators := .all }

namespace Permitting

open Reading

/-- What one reader makes of what it begins with, another one makes, too, and nothing else that is of a kind. -/
def Permits {α : Type} (before : Prop) (after : α → Prop) (program full : Except ParseError α) : Prop :=
  ∀ result, before ∧ program = .ok result ↔ full = .ok result ∧ after result

namespace Permits

variable {α β : Type} {before : Prop} {after : α → Prop} {program full : Except ParseError α}

theorem ok {value : α} (same : before ↔ after value) : Permits before after (.ok value) (.ok value) := by
  intro result
  constructor
  · rintro ⟨holds, ⟨⟩⟩
    exact ⟨rfl, same.mp holds⟩
  · rintro ⟨⟨⟩, holds⟩
    exact ⟨same.mpr holds, rfl⟩

theorem error {fault other : ParseError} : Permits before after (.error fault) (.error other) := by
  intro result
  exact ⟨nofun, nofun⟩

theorem bind {last : β → Prop} {next follow : α → Except ParseError β} (permits : Permits before after program full)
    (goesOn : ∀ value, Permits (after value) last (next value) (follow value)) :
    Permits before last (program >>= next) (full >>= follow) := by
  intro result
  rw [bind_eq_ok, bind_eq_ok]
  constructor
  · rintro ⟨holds, value, found, further⟩
    obtain ⟨sought, kept⟩ := (permits value).mp ⟨holds, found⟩
    obtain ⟨read, final⟩ := (goesOn value result).mp ⟨kept, further⟩
    exact ⟨⟨value, sought, read⟩, final⟩
  · rintro ⟨⟨value, sought, read⟩, final⟩
    obtain ⟨kept, further⟩ := (goesOn value result).mpr ⟨read, final⟩
    obtain ⟨holds, found⟩ := (permits value).mpr ⟨sought, kept⟩
    exact ⟨holds, value, found, further⟩

theorem map {last : β → Prop} {change : α → β} (permits : Permits before after program full)
    (same : ∀ value, after value ↔ last (change value)) :
    Permits before last (program.map change) (full.map change) := by
  have mapped (program : Except ParseError α) :
      program.map change = program >>= fun value => .ok (change value) := by cases program <;> rfl
  rw [mapped, mapped]
  exact permits.bind fun value => .ok (same value)

theorem weaken {other : Prop} (permits : Permits before after program full) (same : other ↔ before) :
    Permits other after program full :=
  fun result => (and_congr_left' same).trans (permits result)

/-- What is known besides stays known. -/
theorem frame (permits : Permits before after program full) (besides : Prop) :
    Permits (besides ∧ before) (fun value => besides ∧ after value) program full := by
  intro result
  rw [and_assoc, permits result, and_left_comm]

theorem of_unrestricted (permits : Permits True after program full) (besides : Prop) :
    Permits besides (fun value => besides ∧ after value) program full :=
  (permits.frame besides).weaken (and_iff_left trivial).symm

/-- Where something that has to hold does not, reading may fail as well. -/
theorem refused (missing : ¬before) (permits : Permits before after program full) {known : Prop} {fault : ParseError} :
    Permits known after (.error fault) full := by
  intro result
  exact ⟨nofun, fun read => absurd ((permits result).mpr read).1 missing⟩

theorem granted (given : before) (permits : Permits before after program full) : Permits True after program full :=
  permits.weaken (iff_of_true trivial given)

theorem ite {asked : Prop} [Decidable asked] {first second other another : Except ParseError α}
    (holds : asked → Permits before after first second) (fails : ¬asked → Permits before after other another) :
    Permits before after (if asked then first else other) (if asked then second else another) := by
  split
  · exact holds ‹_›
  · exact fails ‹_›

end Permits

/-! Operators. -/

variable {options : ParseOptions}

/-- The operator that has been found, if there is one, may be used. -/
def Free {α : Type} (set : OperatorSet) (found : Option (Op × α)) : Prop :=
  ∀ passed ∈ found, set.contains passed.1 = true

theorem check_permits {α : Type} {op : Op} {pos : Nat} {value : α} {after : α → Prop}
    (same : after value ↔ options.operators.contains op = true) :
    Permits True after ((OperatorReading.check options op pos).map fun _ => value)
      ((OperatorReading.check options.unrestricted op pos).map fun _ => value) := by
  have all : (OperatorReading.check options.unrestricted op pos).map (fun _ => value) = .ok value := rfl
  rw [all, OperatorReading.check]
  split
  · rename_i contained
    exact .ok (iff_of_true trivial (same.mpr contained))
  · rename_i missing
    exact Permits.refused (fun holds => missing (same.mp holds)) (.ok Iff.rfl)

theorem free_some {α : Type} {set : OperatorSet} {op : Op} {value : α} :
    Free set (some (op, value)) ↔ set.contains op = true :=
  ⟨fun free => free _ rfl, by rintro contained _ ⟨⟩; exact contained⟩

theorem free_none {α : Type} {set : OperatorSet} : Free set (none : Option (Op × α)) := nofun

theorem read_permits (options : ParseOptions) (enclosed : Bool) (input : Input) :
    Permits True (Free options.operators) (OperatorReading.read options enclosed input)
      (OperatorReading.read options.unrestricted enclosed input) := by
  unfold OperatorReading.read
  have stops : options.unrestricted.stops = options.stops := rfl
  rw [stops]
  split
  · exact check_permits free_some
  · split
    · exact .ok (iff_of_true trivial free_none)
    · split
      · exact check_permits free_some
      · split
        · exact check_permits free_some
        · exact .ok (iff_of_true trivial free_none)

/-- The leading operator that has been found may be used, or it is a plus sign. -/
def FreeLeading (set : OperatorSet) (found : Option (Option Op × Input)) : Prop :=
  ∀ passed ∈ found, ∀ op ∈ passed.1, set.contains op = true

theorem freeLeading_some {set : OperatorSet} {op : Op} {next : Input} :
    FreeLeading set (some (some op, next)) ↔ set.contains op = true :=
  ⟨fun free => free _ rfl _ rfl, by rintro contained _ ⟨⟩ _ ⟨⟩; exact contained⟩

theorem readLeading_permits (options : ParseOptions) (input : Input) :
    Permits True (FreeLeading options.operators) (OperatorReading.readLeading options input)
      (OperatorReading.readLeading options.unrestricted input) := by
  unfold OperatorReading.readLeading
  dsimp only
  split
  · exact check_permits freeLeading_some
  split
  · exact check_permits freeLeading_some
  split
  · exact check_permits freeLeading_some
  split
  · exact check_permits freeLeading_some
  split
  · exact check_permits freeLeading_some
  split
  · exact check_permits freeLeading_some
  split
  · exact .ok (iff_of_true trivial (by rintro _ ⟨⟩ _ ⟨⟩))
  · exact .ok (iff_of_true trivial nofun)

/-- Either both readers fail, or both find the same and it is of the kind, or only the one that may do all finds
something. -/
theorem Permits.cases {α : Type} {after : α → Prop} {program full : Except ParseError α}
    (permits : Permits True after program full) :
    (∃ fault other, program = .error fault ∧ full = .error other) ∨
      ∃ found, full = .ok found ∧ (program = .ok found ∧ after found ∨ ¬after found ∧ ∃ fault, program = .error fault) := by
  cases read : full with
  | error other =>
    cases found : program with
    | error fault => exact .inl ⟨fault, other, rfl, rfl⟩
    | ok value => cases read.symm.trans ((permits value).mp ⟨trivial, found⟩).1
  | ok value =>
    refine .inr ⟨value, rfl, ?_⟩
    by_cases free : after value
    · exact .inl ⟨((permits value).mpr ⟨read, free⟩).2, free⟩
    · refine .inr ⟨free, ?_⟩
      cases found : program with
      | error fault => exact ⟨fault, rfl⟩
      | ok other =>
        obtain ⟨sought, kept⟩ := (permits other).mp ⟨trivial, found⟩
        cases read.symm.trans sought
        exact absurd kept free

/-! Operands and rows. -/

/-- What has been read is a tree of operators in the set. -/
def Allowed {input : Input} (set : OperatorSet) (parsed : Parsed Expr input) : Prop := parsed.value.Within set

theorem within_of_isLeaf {set : OperatorSet} {tree : Expr} (leaf : tree.IsLeaf) : tree.Within set := by
  cases tree with
  | name | literal | noArguments => exact nofun
  | _ => exact leaf.elim

/-- What holds no operators is read with any set of them. -/
theorem permits_leaf {input : Input} {set : OperatorSet} {program : Except ParseError (Parsed Expr input)}
    (leaf : ∀ parsed, program = .ok parsed → parsed.value.IsLeaf) : Permits True (Allowed set) program program := by
  intro parsed
  exact ⟨fun read => ⟨read.2, within_of_isLeaf (leaf parsed read.2)⟩, fun read => ⟨trivial, read.1⟩⟩

theorem within_lead {set : OperatorSet} (mark : Option Op) (tree : Expr) :
    (∀ op ∈ mark, set.contains op = true) ∧ tree.Within set ↔ (Parser.lead mark tree).Within set := by
  cases mark with
  | none => exact and_iff_right nofun
  | some op => simp [Parser.lead, Expr.within_unary]

theorem within_empty {set : OperatorSet} {enclosure : Enclosure} {empty : Expr}
    (empties : enclosure.empty? = some empty) : empty.Within set := by
  cases enclosure with
  | branch => cases empties
  | bracket bracket => cases bracket <;> cases empties <;> exact nofun

/-- A ternary has its condition, and what is chosen if that does not hold. -/
theorem within_ternary {set : OperatorSet} (tree otherwise : Expr) :
    tree.Within set ∧ otherwise.Within set ↔ (tree.insert .alternative (some otherwise)).Within set := by
  have permitted : set.Permits .alternative := .inl rfl
  rw [Expr.within_insert, Expr.added_some, and_iff_right permitted]

mutual

theorem readOperand_permits (options : ParseOptions) (op : Op) (input : Input) :
    Permits True (Allowed options.operators) (Parser.readOperand options op input)
      (Parser.readOperand options.unrestricted op input) := by
  have shorter := Gap.size_skip_le options false input
  rw [Parser.readOperand, Parser.readOperand]
  refine .ite (fun _ => .error) fun _ => .ite (fun _ => ?_) fun _ => ?_
  · have name : Permits True (Allowed options.operators) (Parser.readName (Gap.skip options false input).1)
        (Parser.readName (Gap.skip options false input).1) := permits_leaf fun _ => isLeaf_readName
    exact name.map fun _ => Iff.rfl
  · have led := readLed_permits options op (Gap.skip options false input).1
    exact led.map fun _ => Iff.rfl
termination_by 8 * input.size + 1
decreasing_by all_goals omega

theorem readLed_permits (options : ParseOptions) (op : Op) (input : Input) :
    Permits True (Allowed options.operators) (Parser.readLed options op input)
      (Parser.readLed options.unrestricted op input) := by
  obtain ⟨fault, other, one, two⟩ | ⟨found, sought, alike⟩ := (readLeading_permits options input).cases
  · rw [readLed_failed one, readLed_failed two]
    exact .error
  · cases found with
    | none =>
      obtain ⟨read, -⟩ | ⟨unfree, -⟩ := alike
      · rw [readLed_unmarked read, readLed_unmarked sought]
        split
        · exact permits_leaf fun _ => isLeaf_readValue
        · rename_i char text eq
          have nonempty : 0 < input.size := by simp [Input.size, eq]
          have shorter := (Input.passes_advance nonempty).2
          split
          · exact permits_leaf fun _ => isLeaf_readValue
          · rename_i enclosure _
            have group := readGroup_permits options enclosure input.advance
            exact group.map fun _ => Iff.rfl
      · exact absurd nofun unfree
    | some passed =>
      obtain ⟨mark, next⟩ := passed
      have later := (OperatorReading.passes_of_readLeading sought).2
      have shorter := Gap.size_skip_le options false next
      have led := (readLed_permits options op (Gap.skip options false next).1).of_unrestricted
        (∀ op ∈ mark, options.operators.contains op = true)
      obtain ⟨reaches, two⟩ := readLed_marked sought op
      have marked : Permits (∀ op ∈ mark, options.operators.contains op = true) (Allowed options.operators)
          ((Parser.readLed options op (Gap.skip options false next).1).map fun operand =>
            (operand.map (Parser.lead mark)).widen reaches)
          ((Parser.readLed options.unrestricted op (Gap.skip options false next).1).map fun operand =>
            (operand.map (Parser.lead mark)).widen reaches) :=
        led.map fun operand => within_lead mark operand.value
      rw [two]
      obtain ⟨read, free⟩ | ⟨unfree, fault, failed⟩ := alike
      · obtain ⟨reached, one⟩ := readLed_marked read op
        rw [one]
        exact .ite (fun _ => .error) fun _ => marked.granted (free _ rfl)
      · rw [readLed_failed failed]
        split
        · exact .error
        · exact marked.refused fun free => unfree (by rintro _ ⟨⟩; exact free)
termination_by 8 * input.size
decreasing_by all_goals omega

theorem readGroup_permits (options : ParseOptions) (enclosure : Enclosure) (input : Input) :
    Permits True (Allowed options.operators) (Parser.readGroup options enclosure input)
      (Parser.readGroup options.unrestricted enclosure input) := by
  have shorter := Gap.size_skip_le options false input
  rw [Parser.readGroup, Parser.readGroup]
  dsimp only
  refine .ite (fun _ => .error) fun _ => ?_
  have filled {reached : (first : Parsed Expr (Gap.skip options false input).1) → (inner : Parsed Expr first.rest) →
        input.Reaches inner.rest.advance} :
      Permits True (Allowed options.operators)
        (Parser.readOperand options enclosure.op (Gap.skip options false input).1 >>= fun first =>
          Parser.readOperators options (some enclosure.close) first.value first.rest >>= fun inner =>
            .ok ⟨.bracketed enclosure.mark inner.value, inner.rest.advance, reached first inner⟩)
        (Parser.readOperand options.unrestricted enclosure.op (Gap.skip options false input).1 >>= fun first =>
          Parser.readOperators options.unrestricted (some enclosure.close) first.value first.rest >>= fun inner =>
            .ok ⟨.bracketed enclosure.mark inner.value, inner.rest.advance, reached first inner⟩) := by
    refine (readOperand_permits options enclosure.op (Gap.skip options false input).1).bind fun first => ?_
    have rest := first.le
    exact (readOperators_permits options (some enclosure.close) first.value first.rest).bind fun inner => .ok Iff.rfl
  cases empties : enclosure.empty? with
  | none => exact filled
  | some empty =>
    have same : (Gap.skip options.unrestricted false input).1.eat? enclosure.close =
      (Gap.skip options false input).1.eat? enclosure.close := rfl
    rw [same]
    cases eaten : (Gap.skip options false input).1.eat? enclosure.close with
    | none => exact filled
    | some next => exact .ok (iff_of_true trivial (within_empty empties))
termination_by 8 * input.size + 3
decreasing_by all_goals omega

theorem readOperators_permits (options : ParseOptions) (close : Option Char) (tree : Expr) (input : Input) :
    Permits (tree.Within options.operators) (Allowed options.operators)
      (Parser.readOperators options close tree input)
      (Parser.readOperators options.unrestricted close tree input) := by
  have shorter := Gap.size_skip_le options close.isNone input
  have finished {stop : Input} {reached : input.Reaches stop} :
      Permits (tree.Within options.operators) (Allowed options.operators) (finish close tree reached)
        (finish close tree reached) := by
    cases close with
    | none => exact .ok Iff.rfl
    | some mark => exact .error
  cases goesOn : (Gap.skip options close.isNone input).2 with
  | false =>
    have ends : (Gap.skip options.unrestricted close.isNone input).2 = false := goesOn
    rw [readOperators_ended tree (.inl goesOn), readOperators_ended tree (.inl ends)]
    exact finished
  | true =>
    have further : (Gap.skip options.unrestricted close.isNone input).2 = true := goesOn
    cases closed : close.any fun mark => (Gap.skip options close.isNone input).1.isAt mark with
    | true =>
      rw [readOperators_closed tree goesOn closed, readOperators_closed tree further closed]
      exact .ok Iff.rfl
    | false =>
      obtain ⟨fault, other, one, two⟩ | ⟨found, sought, alike⟩ :=
        (read_permits options close.isSome (Gap.skip options close.isNone input).1).cases
      · rw [readOperators_failed tree goesOn closed one, readOperators_failed tree further closed two]
        exact .error
      · cases found with
        | none =>
          obtain ⟨read, -⟩ | ⟨unfree, -⟩ := alike
          · have opened : (close.any fun mark =>
                (Gap.skip options.unrestricted close.isNone input).1.isAt mark) = false := closed
            rw [readOperators_ended tree (.inr ⟨closed, read⟩), readOperators_ended tree (.inr ⟨opened, sought⟩)]
            exact finished
          · exact absurd nofun unfree
        | some passed =>
          obtain ⟨op, next⟩ := passed
          have later := (OperatorReading.passes_of_read sought).2
          have unswitched := (Expr.rowOps_spec op (mem_rowOps_of_read sought)).2.2
          obtain ⟨reaches, two⟩ := readOperators_applied tree further closed sought
          have rest : Permits (tree.Within options.operators ∧ options.operators.contains op = true)
              (Allowed options.operators)
              (Parser.readApplied options tree op next >>= fun applied =>
                (Parser.readOperators options close applied.value applied.rest).map (.widen (reaches applied)))
              (Parser.readApplied options.unrestricted tree op next >>= fun applied =>
                (Parser.readOperators options.unrestricted close applied.value applied.rest).map
                  (.widen (reaches applied))) := by
            refine (readApplied_permits options unswitched tree next).bind fun applied => ?_
            have shorter := applied.le
            exact (readOperators_permits options close applied.value applied.rest).map fun _ => Iff.rfl
          rw [two]
          obtain ⟨read, free⟩ | ⟨unfree, fault, failed⟩ := alike
          · obtain ⟨reached, one⟩ := readOperators_applied tree goesOn closed read
            rw [one]
            exact rest.weaken (and_iff_left (free_some.mp free)).symm
          · rw [readOperators_failed tree goesOn closed failed]
            have missing : ¬options.operators.contains op = true := fun contained => unfree (free_some.mpr contained)
            exact rest.refused fun both => missing both.2
termination_by 8 * input.size + 2
decreasing_by all_goals omega

theorem readApplied_permits (options : ParseOptions) {op : Op} (unswitched : op ≠ .alternative) (tree : Expr) (input : Input) :
    Permits (tree.Within options.operators ∧ options.operators.contains op = true) (Allowed options.operators)
      (Parser.readApplied options tree op input) (Parser.readApplied options.unrestricted tree op input) := by
  rw [Parser.readApplied, Parser.readApplied]
  refine .ite (fun _ => ?_) fun _ => ?_
  · refine .ok ?_
    rw [Allowed, Parsed.here, Expr.within_insert, Expr.added_none]
  · have added (right : Expr) : (tree.Within options.operators ∧ options.operators.contains op = true) ∧
        right.Within options.operators ↔ (tree.insert op (some right)).Within options.operators := by
      rw [Expr.within_insert, Expr.added_some, OperatorSet.permits_iff unswitched, and_assoc]
    cases enclosed : Enclosure.ofOp? op with
    | none =>
      have right := (readOperand_permits options op input).of_unrestricted
        (tree.Within options.operators ∧ options.operators.contains op = true)
      exact right.bind fun right => .ok (added right.value)
    | some enclosure =>
      refine ((readGroup_permits options enclosure input).of_unrestricted
        (tree.Within options.operators ∧ options.operators.contains op = true)).bind fun right => ?_
      have shorter := right.le
      dsimp only
      refine .ite (fun _ => ?_) fun _ => ?_
      · have otherwise := ((readOperand_permits options .alternative right.rest).of_unrestricted
          ((tree.insert op (some right.value)).Within options.operators)).weaken (added right.value)
        exact otherwise.bind fun otherwise => .ok (within_ternary _ otherwise.value)
      · exact .ok (added right.value)
termination_by 8 * input.size + 4
decreasing_by all_goals omega

end

theorem readExpr_permits (options : ParseOptions) (input : Input) :
    Permits True (Allowed options.operators) (Parser.readExpr options input)
      (Parser.readExpr options.unrestricted input) := by
  rw [Parser.readExpr, Parser.readExpr]
  refine (readOperand_permits options .group input).bind fun first => ?_
  exact (readOperators_permits options none first.value first.rest).bind fun tree => .ok Iff.rfl

theorem parseFrom_permits (options : ParseOptions) (input : Input) :
    Permits True (Allowed options.operators) (Expr.parseFrom options input)
      (Expr.parseFrom options.unrestricted input) :=
  readExpr_permits options input

end Permitting

open Permitting in
/-- Leaving out operators only refuses. What is read without some operators is read just the same with all of
them, and what is read with all of them is read without some if it has none of these. -/
theorem Expr.parseAt_iff_within (options : ParseOptions) (source : List Char) (pos stop : Nat) (tree : Expr) :
    Expr.parseAt options source pos = .ok (tree, stop) ↔
      Expr.parseAt options.unrestricted source pos = .ok (tree, stop) ∧ tree.Within options.operators := by
  have permits : Permits True (fun found : Expr × Nat => found.1.Within options.operators)
      (Expr.parseAt options source pos) (Expr.parseAt options.unrestricted source pos) := by
    unfold Expr.parseAt
    dsimp only
    cases dropBytes? (min pos (byteLength source)) source with
    | none => exact .error
    | some rest => exact (parseFrom_permits options _).map fun _ => Iff.rfl
  rw [← permits (tree, stop), and_iff_right trivial]

end HtmlTemplate
