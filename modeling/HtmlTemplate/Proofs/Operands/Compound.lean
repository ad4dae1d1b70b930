import HtmlTemplate.Proofs.Operands.Order

/-! Compound assignments and the operators that they combine with. What `+=` does in place is what
`+` gives, but for one case: a text takes null as if it were an empty text, where `+` refuses it. -/

namespace HtmlTemplate

namespace Value

/-- Null is to be appended to a text in place. -/
def Overlooked (base : Op) (target value : Value) : Prop :=
  base = .add ∧ target.isText = true ∧ value.isNull = true

theorem assigned_sum {target value : Value} (present : target.isNull = false)
    (covered : ¬ Overlooked .add target value) :
    assigned .addAssign target value = binary .add target value := by
  cases target with
  | null => cases present
  | text content =>
    cases value with
    | null => exact absurd ⟨rfl, rfl, rfl⟩ covered
    | _ => rfl
  | _ => rfl

/-- A compound assignment stores what its operator gives, unless null is appended to a text. -/
theorem assigned_eq_binary {op base : Op} (found : op.assignmentBase = some base) {target value : Value}
    (present : target.isNull = false) (covered : ¬ Overlooked base target value) :
    assigned op target value = binary base target value := by
  by_cases sum : base = .add
  · subst sum
    cases op <;> cases found
    exact assigned_sum present covered
  · unfold assigned
    rw [found]
    cases op <;> cases found <;> first | rfl | exact absurd rfl sum

/-- Then the text stays as it is, although the operator refuses null. -/
theorem assigned_overlooked {op base : Op} (found : op.assignmentBase = some base) {target value : Value}
    (overlooked : Overlooked base target value) :
    assigned op target value = .ok target ∧ binary base target value = .error (.nullOperand base) := by
  obtain ⟨rfl, isText, isNull⟩ := overlooked
  cases value with
  | null =>
    cases target with
    | text content =>
      refine ⟨?_, rfl⟩
      unfold assigned
      rw [found]
      exact congrArg (fun joined => Except.ok (text joined)) String.append_empty
    | _ => cases isText
  | _ => cases isNull

end Value

namespace Op

theorem isAssignment_of_base {op base : Op} (found : op.assignmentBase = some base) :
    op.isAssignment = true ∧ op ≠ .assign := by
  cases op <;> cases found <;> exact ⟨rfl, by nofun⟩

end Op

namespace Operands

open Rules

/-- A handle through which a value that is there can be changed, and the place of the value. -/
inductive Holds : Handle → Place → Prop where
  | slot (frame : Nat) (name : String) : Holds (.slot frame name) (.slot frame name)
  | reference (place : Place) : Holds (.reference true place) place

variable {context after : Context} {target : Handle} {place : Place} {old : Value}

theorem set_of_present {frame : Nat} {name : String}
    (held : context.resolveMutable? (.slot frame name) = some old) :
    context.binding? frame name ≠ some .unset := by
  intro unset
  unfold Context.resolveMutable? at held
  split at held
  · rw [Context.resolve?_slot (Context.aliasRoot?_of_own (by rw [unset]; nofun)),
      Context.rootValue?_of_other (by rw [unset]; nofun)] at held
    cases held
  · cases held

/-- A target with a value needs no preparation. -/
theorem prepare_held (holds : Holds target place) (held : context.resolveMutable? place = some old) :
    Assignment.prepare target context = (.ok place, context) := by
  cases holds with
  | slot frame name =>
    rw [Assignment.prepare_slot, Assignment.filling_of_ne (set_of_present held)]
  | reference place => rfl

/-- It is changed to the result, or nothing is changed and the fault is that of the result. -/
def Leaves {α : Type} (context : Context) (place : Place) (result : Except EvalFault Value)
    (ended : Except EvalFault α × Context) : Prop :=
  match result with
  | .ok value => (∃ done, ended.1 = .ok done) ∧ ended.2.resolve? place = some value
  | .error fault => ended = (.error fault, context)

theorem update_leaves (sound : context.Sound) (holds : Holds target place)
    (held : context.resolveMutable? place = some old) (change : Value → Except EvalFault Value) :
    Leaves context place (change old) (Assignment.update target change context) := by
  rw [Assignment.update, bind_eq, prepare_held holds held]
  dsimp only
  rw [get_bind, held]
  cases given : change old with
  | error fault =>
    simp only [given]
    rfl
  | ok value =>
    obtain ⟨changed, done, reads⟩ := sound.write?_reads held value
    simp only [given]
    change Leaves context place (.ok value) (Assignment.writeTo place value context)
    rw [Assignment.writeTo_eq, held, done]
    exact ⟨⟨(), rfl⟩, reads⟩

theorem Leaves.map {α β : Type} {result : Except EvalFault Value} {program : EvalM α} (value : α → β)
    (leaves : Leaves context place result (program context)) :
    Leaves context place result ((do return value (← program) : EvalM β) context) := by
  rw [bind_eq]
  generalize program context = ended at leaves
  obtain ⟨fault | done, after⟩ := ended
  · cases result with
    | ok value =>
      obtain ⟨⟨_, ⟨⟩⟩, -⟩ := leaves
    | error fault =>
      cases leaves
      rfl
  · cases result with
    | ok value => exact ⟨⟨_, rfl⟩, leaves.2⟩
    | error fault => cases leaves

/-- A compound assignment changes its target to what it stores, or fails and changes nothing. -/
theorem eval_leaves {op base : Op} (found : op.assignmentBase = some base) (sound : context.Sound)
    {mode : EvalMode} {left right : Expr} (parts : InTurn mode.operand right .writing left context)
    (holds : Holds parts.late place) (held : parts.after.resolveMutable? place = some old) :
    Leaves parts.after place (Value.assigned op old parts.given)
      (Eval.eval mode (.binary op left right) context) := by
  obtain ⟨assigns, combines⟩ := Op.isAssignment_of_base found
  have leaves := update_leaves (parts.sound sound).2 holds held (Value.assigned op · parts.given)
  rw [eval_compound assigns combines, bind_eq, parts.ran]
  dsimp only
  rw [bind_eq, valueOf_eq]
  dsimp only
  rw [bind_eq, parts.followed]
  exact leaves.map fun _ => parts.late.settled

/-- A compound assignment to what is not null agrees with its operator, in its result and in its
fault, but for null that is appended to a text: there the operator fails and the assignment does
not. And a statement with one changes its target to just this result, or fails with just this fault
and changes nothing. -/
theorem compound_agrees {op base : Op} (found : op.assignmentBase = some base) :
    (∀ target value : Value, target.isNull = false →
      (Value.assigned op target value = Value.binary base target value ↔
        ¬ Value.Overlooked base target value) ∧
      (Value.Overlooked base target value → Value.assigned op target value = .ok target ∧
        Value.binary base target value = .error (.nullOperand base))) ∧
    ∀ (context : Context), context.Sound → ∀ (mode : EvalMode) (left right : Expr)
      (parts : InTurn mode.operand right .writing left context) (place : Place) (old : Value),
      Holds parts.late place → parts.after.resolveMutable? place = some old → old.isNull = false →
        (¬ Value.Overlooked base old parts.given →
          Leaves parts.after place (Value.binary base old parts.given)
            (Eval.eval mode (.binary op left right) context)) ∧
        (Value.Overlooked base old parts.given →
          Leaves parts.after place (.ok old) (Eval.eval mode (.binary op left right) context)) := by
  refine ⟨fun target value present => ⟨⟨?_, ?_⟩, ?_⟩, ?_⟩
  · intro agrees overlooked
    obtain ⟨stored, refused⟩ := Value.assigned_overlooked found overlooked
    rw [stored, refused] at agrees
    cases agrees
  · exact Value.assigned_eq_binary found present
  · exact Value.assigned_overlooked found
  · intro context sound mode left right parts place old holds held present
    have leaves := eval_leaves found sound parts holds held
    constructor
    · intro covered
      rwa [Value.assigned_eq_binary found present covered] at leaves
    · intro overlooked
      rwa [(Value.assigned_overlooked found overlooked).1] at leaves

/-! Something is added to a text. -/

def worded : Context := Context.new.set "s" (.text "a")

theorem worded_reachable : worded.Reachable := .set .new _ _

def addend (value : Value) : InTurn EvalMode.strict.operand (.literal value) .writing (.name "s") worded where
  early := .owned value
  middle := worded
  late := .slot 0 "s"
  after := worded
  ran := by
    unfold Eval.eval
    rfl
  followed := by
    unfold Eval.eval
    rfl

/-- With a one, `s += 1` makes `a1` of `a`, as `s + 1` does. -/
theorem number_appended :
    Op.addAssign.assignmentBase = some .add ∧ worded.Reachable ∧ (Value.text "a").isNull = false ∧
    worded.resolveMutable? (.slot 0 "s") = some (.text "a") ∧
    Value.assigned .addAssign (.text "a") (.int 1) = .ok (.text "a1") ∧
    Leaves worded (.slot 0 "s") (.ok (.text "a1"))
      (Eval.eval .strict (.binary .addAssign (.name "s") (.literal (.int 1))) worded) := by
  have covered : ¬ Value.Overlooked .add (.text "a") (.int 1) := fun overlooked => by cases overlooked.2.2
  have sum : Value.binary .add (.text "a") (.int 1) = .ok (.text "a1") := rfl
  obtain ⟨values, statements⟩ := compound_agrees (show Op.addAssign.assignmentBase = some .add from rfl)
  refine ⟨rfl, worded_reachable, rfl, rfl, ?_, ?_⟩
  · rw [((values (.text "a") (.int 1) rfl).1).mpr covered, sum]
  · rw [← sum]
    exact (statements worded worded_reachable.sound .strict (.name "s") (.literal (.int 1)) (addend (.int 1))
      (.slot 0 "s") (.text "a") (.slot 0 "s") rfl rfl).1 covered

/-- With null, `s + null` is refused, but `s += null` is not. -/
theorem null_appended :
    worded.Reachable ∧ worded.resolveMutable? (.slot 0 "s") = some (.text "a") ∧
    Value.binary .add (.text "a") .null = .error (.nullOperand .add) ∧
    Value.assigned .addAssign (.text "a") .null = .ok (.text "a") ∧
    ∃ after, Eval.eval .strict (.binary .addAssign (.name "s") (.literal .null)) worded =
        (.ok (.slot 0 "s"), after) ∧
      after.resolve? (.slot 0 "s") = some (.text "a") := by
  refine ⟨worded_reachable, rfl, rfl, rfl, worded.set "s" (.text ("a" ++ "")), ?_, rfl⟩
  rw [eval_compound rfl (by nofun), bind_eq, (addend .null).ran]
  dsimp only
  rw [bind_eq, valueOf_eq]
  dsimp only
  rw [bind_eq, (addend .null).followed]
  rfl

end Operands

end HtmlTemplate
