import HtmlTemplate.Proofs.Operands.Settled
import HtmlTemplate.Proofs.Scopes.Runs

/-! When the operands of an operator are read. Their expressions are evaluated first, one after the
other; each yields a handle, and the handles are read when the operator is applied. For an expression that writes, the
value comes first, then the target; after that the target is assigned to or changed, and nothing else is
evaluated. -/

namespace HtmlTemplate

/-- An expression that writes to a target, and the value that it evaluates for it, if it does.
`plain` tells that the value is assigned as it is. -/
inductive Expr.Writing : Bool → Expr → Expr → Option Expr → Prop where
  | assigned (target value : Expr) : Writing true (.binary .assign target value) target (some value)
  | compound {op : Op} (assigns : op.isAssignment = true) (combines : op ≠ .assign)
      (target value : Expr) : Writing false (.binary op target value) target (some value)
  | preIncrement (target : Expr) : Writing false (.unary .preIncrement target) target none
  | preDecrement (target : Expr) : Writing false (.unary .preDecrement target) target none
  | postIncrement (target : Expr) : Writing false (.unary .postIncrement target) target none
  | postDecrement (target : Expr) : Writing false (.unary .postDecrement target) target none

namespace Operands

open Rules

/-! Targets are variables of open scopes. -/

/-- A variable of one of the outermost scopes, or no variable. -/
def Within (bound : Nat) : Handle → Prop
  | .slot frame _ => frame < bound
  | _ => True

/-- Aliases are sound, and a number of scopes is open. -/
def SoundAt (bound : Nat) (context : Context) : Prop := context.Sound ∧ context.depth = bound

variable {bound : Nat}

theorem within_settled {handle : Handle} (within : Within bound handle) :
    Within bound handle.settled := by
  cases handle with
  | vacant container key => trivial
  | _ => exact within

theorem soundAt_gives {α : Type} {program : EvalM α}
    (stays : Rules.Stays Context.Sound Context.Extends program) :
    Rules.Gives (SoundAt bound) (fun _ => True) program := by
  rintro context ⟨sound, depth⟩
  obtain ⟨soundAfter, related⟩ := stays context sound
  exact ⟨⟨soundAfter, related.depth.trans depth⟩, fun _ _ => trivial⟩

theorem assign_yields {target value stored : Handle} {before after : Context}
    (done : Assignment.assign target value before = (.ok stored, after)) :
    stored = target.settled := by
  rw [Assignment.assign, Rules.get_bind] at done
  cases target with
  | slot frame name =>
    cases hosted : Assignment.isHosted before frame name with
    | true =>
      simp only [hosted, if_true] at done
      obtain ⟨_, middle, -, ⟨⟩⟩ := Rules.bind_ok done
      rfl
    | false =>
      simp only [hosted] at done
      cases done
      rfl
  | reference mutable place =>
    cases mutable with
    | true =>
      obtain ⟨_, middle, -, ⟨⟩⟩ := Rules.bind_ok done
      rfl
    | false => cases done
  | vacant container key =>
    obtain ⟨_, middle, -, ⟨⟩⟩ := Rules.bind_ok done
    rfl
  | _ => cases done

theorem within_assigned {target : Handle} (within : Within bound target) (value : Handle) :
    Rules.Gives (SoundAt bound) (Within bound) (Assignment.assign target value) := by
  intro context holds
  have stays := Rules.assign_stays Context.sound_written target value
  obtain ⟨final, -⟩ := soundAt_gives stays context holds
  refine ⟨final, ?_⟩
  intro stored done
  rw [assign_yields (Prod.ext done rfl)]
  exact within_settled within

theorem within_looked (mode : EvalMode) (name : String) :
    Rules.Gives (SoundAt bound) (Within bound) (Eval.lookupName mode name) := by
  apply Rules.lookupName_gives mode trivial (fun _ => trivial) (fun _ => trivial)
  rintro context frame ⟨-, depth⟩ found
  change frame < bound
  rw [← depth]
  exact Context.lt_depth_of_binding? (Context.known_of_find? found)

theorem within_declared (name : String) :
    Rules.Gives (SoundAt bound) (Within bound) (Eval.declare name) := by
  apply Rules.declare_gives
  rintro context ⟨sound, depth⟩
  have same : (context.bind name .unset).depth = context.depth := Context.depth_modifyFrame ..
  have opened := sound.opened
  refine ⟨⟨sound.bind name (by nofun), same.trans depth⟩, ?_⟩
  change context.current < bound
  rw [Context.current]
  omega

theorem within_handling : Rules.Handling (SoundAt bound) (Within bound) where
  owned _ := trivial
  member {context base} _ _ target member := by
    cases found : Member.ofHandle context base target member with
    | slot frame name =>
      exact absurd found (Rules.member_ne_slot context base target member frame name)
    | _ => trivial
  settled := within_settled
  updated _ change :=
    soundAt_gives (Rules.update_stays Context.sound_written.overwriting (Rules.leads_anywhere _) change)
  assigned within _ := within_assigned within _
  looked := within_looked
  declared := within_declared

theorem eval_within {mode : EvalMode} {expr : Expr} {before after : Context} {handle : Handle}
    (sound : before.Sound) (ran : Eval.eval mode expr before = (.ok handle, after)) :
    Within after.depth handle := by
  have given := Rules.eval_gives within_handling mode expr before ⟨sound, rfl⟩
  rw [ran] at given
  rw [given.1.2]
  exact given.2 handle rfl

/-! Two parts of an expression. -/

/-- Two expressions that are evaluated one after the other, and yield handles. -/
structure InTurn (firstMode : EvalMode) (first : Expr) (secondMode : EvalMode) (second : Expr)
    (context : Context) where
  early : Handle
  middle : Context
  late : Handle
  after : Context
  ran : Eval.eval firstMode first context = (.ok early, middle)
  followed : Eval.eval secondMode second middle = (.ok late, after)

namespace InTurn

variable {firstMode secondMode : EvalMode} {first second : Expr} {context : Context}

/-- The value that the first expression yields. -/
def given (parts : InTurn firstMode first secondMode second context) : Value :=
  parts.middle.valueOf parts.early

/-- The value that is read for the first expression after the second one. -/
def read (parts : InTurn firstMode first secondMode second context) : Value :=
  parts.after.valueOf parts.early

def other (parts : InTurn firstMode first secondMode second context) : Value :=
  parts.after.valueOf parts.late

theorem sound (parts : InTurn firstMode first secondMode second context) (sound : context.Sound) :
    parts.middle.Sound ∧ parts.after.Sound := by
  have middle := (Rules.eval_stays Context.sound_written firstMode first context sound).1
  rw [parts.ran] at middle
  have after := (Rules.eval_stays Context.sound_written secondMode second parts.middle middle).1
  rw [parts.followed] at after
  exact ⟨middle, after⟩

/-- A value of its own stays, and so does any value while nothing is assigned. -/
theorem read_eq_given (parts : InTurn firstMode first secondMode second context)
    (sound : context.Sound) (kept : first.isSettled = true ∨ second.isQuiet = true) :
    parts.read = parts.given := by
  rcases kept with settled | quiet
  · have given := (eval_settles firstMode settled context trivial).2
    rw [parts.ran] at given
    exact valueOf_of_place?_none (given parts.early rfl) ..
  · exact (eval_unwritten quiet (parts.sound sound).1 parts.followed).valueOf parts.early

end InTurn

theorem isAssignment_of_takesValues {op : Op} (takes : Eval.takesValues op = true) :
    op.isAssignment = false := by
  cases op <;> first | rfl | cases takes

theorem eval_binary {mode : EvalMode} {op : Op} {left right : Expr} {context : Context}
    (takes : Eval.takesValues op = true)
    (parts : InTurn mode.operand left mode.operand right context) :
    Eval.eval mode (.binary op left right) context =
      Eval.ofResult (Value.binary op parts.read parts.other) parts.after := by
  unfold Eval.eval
  split
  -- No operator that has a rule of its own takes two values.
  iterate 8 cases takes
  rw [isAssignment_of_takesValues takes, if_neg Bool.false_ne_true, if_pos takes, Rules.bind_eq, parts.ran]
  dsimp only
  rw [Rules.bind_eq, parts.followed]
  rfl

theorem eval_assign {mode : EvalMode} {left right : Expr} {context : Context}
    (parts : InTurn mode.operand right .writing left context) :
    Eval.eval mode (.binary .assign left right) context =
      Assignment.assign parts.late parts.early parts.after := by
  rw [Eval.eval, Rules.bind_eq, parts.ran]
  dsimp only
  rw [Rules.bind_eq, parts.followed]

theorem ofResult_inj {first second : Except EvalFault Value} {context : Context}
    (same : Eval.ofResult first context = Eval.ofResult second context) : first = second := by
  cases first with
  | ok value =>
    cases second with
    | ok other =>
      cases same
      rfl
    | error fault => cases same
  | error fault =>
    cases second with
    | ok other => cases same
    | error other =>
      cases same
      rfl

/-- An operator is applied to what both operands read as after the second one, and an assignment
stores what its right side reads as after the target. This is what the part that was evaluated
first has yielded if it yields no place, or if nothing is assigned in the other part. Aliases are
sound in all contexts that a host can come to and in all that a run goes through. -/
theorem operands_read_late {context : Context} (sound : context.Sound) (mode : EvalMode)
    (left right : Expr) :
    (∀ (op : Op) (parts : InTurn mode.operand left mode.operand right context),
      Eval.takesValues op = true →
        Eval.eval mode (.binary op left right) context =
          Eval.ofResult (Value.binary op parts.read parts.other) parts.after ∧
        (Eval.eval mode (.binary op left right) context =
            Eval.ofResult (Value.binary op parts.given parts.other) parts.after ↔
          Value.binary op parts.read parts.other = Value.binary op parts.given parts.other) ∧
        (left.isSettled = true ∨ right.isQuiet = true → parts.read = parts.given)) ∧
    (∀ (parts : InTurn mode.operand right .writing left context) (stored : Handle) (final : Context),
      Eval.eval mode (.binary .assign left right) context = (.ok stored, final) →
        final.valueOf stored = parts.read ∧
        (right.isSettled = true ∨ left.isQuiet = true → parts.read = parts.given)) := by
  constructor
  · intro op parts takes
    have applied := eval_binary takes parts
    refine ⟨applied, ?_, parts.read_eq_given sound⟩
    rw [applied]
    exact ⟨ofResult_inj, fun same => by rw [same]⟩
  · intro parts stored final done
    obtain ⟨soundMiddle, soundAfter⟩ := parts.sound sound
    have within := eval_within soundMiddle parts.followed
    have inside : ∀ frame name, parts.late = .slot frame name → frame < parts.after.depth := by
      intro frame name target
      rwa [target] at within
    rw [eval_assign parts] at done
    exact ⟨soundAfter.assign_reads inside done, parts.read_eq_given sound⟩

/-! A number that is counted up while it is an operand. -/

def numbered : Context := (Context.new.set "a" (.array [.int 5, .int 6])).set "i" (.int 0)

theorem numbered_reachable : numbered.Reachable := .set (.set .new _ _) _ _

def element (counter : Expr) : Expr :=
  .binary .subscript (.name "a") (.bracketed .square counter)

/-- The number counted up; this yields what it was. -/
def counted : Expr := .unary .postIncrement (.name "i")

def numberThenElement :
    InTurn EvalMode.strict.operand (.name "i") EvalMode.strict.operand (element (.name "i"))
      numbered where
  early := .slot 0 "i"
  middle := numbered
  late := .reference true ⟨.slot 0 "a", [.index 0]⟩
  after := numbered
  ran := by
    unfold Eval.eval
    rfl
  followed := by
    unfold element Eval.eval Eval.eval
    rfl

def elementThenNumber :
    InTurn EvalMode.strict.operand (element (.name "i")) .writing (.name "i") numbered where
  early := .reference true ⟨.slot 0 "a", [.index 0]⟩
  middle := numbered
  late := .slot 0 "i"
  after := numbered
  ran := by
    unfold element Eval.eval Eval.eval
    rfl
  followed := by
    unfold Eval.eval
    rfl

/-- In `i + a[i]` and `i = a[i]` nothing is counted, so what is read is what was yielded. -/
theorem quiet_operands_kept :
    numbered.Reachable ∧
    Eval.eval .strict (.binary .add (.name "i") (element (.name "i"))) numbered =
      (.ok (.owned (.int 5)), numbered) ∧
    ∃ stored final,
      Eval.eval .strict (.binary .assign (.name "i") (element (.name "i"))) numbered =
        (.ok stored, final) ∧
      final.valueOf stored = .int 5 := by
  obtain ⟨binary, assignment⟩ :=
    operands_read_late numbered_reachable.sound .strict (.name "i") (element (.name "i"))
  refine ⟨numbered_reachable, ?_, .slot 0 "i", numbered.set "i" (.int 5), ?_, ?_⟩
  · obtain ⟨applied, -, kept⟩ := binary .add numberThenElement rfl
    rw [applied, kept (.inr rfl)]
    rfl
  · rw [eval_assign elementThenNumber]
    rfl
  · have assigned := eval_assign elementThenNumber
    obtain ⟨stores, kept⟩ :=
      assignment elementThenNumber (.slot 0 "i") (numbered.set "i" (.int 5)) assigned
    rw [stores, kept (.inr rfl)]
    rfl

def numberThenCounted :
    InTurn EvalMode.strict.operand (.name "i") EvalMode.strict.operand counted numbered where
  early := .slot 0 "i"
  middle := numbered
  late := .owned (.int 0)
  after := numbered.set "i" (.int 1)
  ran := by
    unfold Eval.eval
    rfl
  followed := by
    unfold counted Eval.eval Eval.eval
    rfl

def numberThenTarget :
    InTurn EvalMode.strict.operand (.name "i") .writing (element counted) numbered where
  early := .slot 0 "i"
  middle := numbered
  late := .reference true ⟨.slot 0 "a", [.index 0]⟩
  after := numbered.set "i" (.int 1)
  ran := by
    unfold Eval.eval
    rfl
  followed := by
    unfold element counted Eval.eval Eval.eval Eval.eval
    rfl

/-- In `i + i++` and `a[i++] = i` the number is zero when `i` is evaluated, and one when it is
read: the sum is not zero, and the element does not become zero. -/
theorem counted_operands_change :
    numbered.Reachable ∧
    Value.binary .add numberThenCounted.given numberThenCounted.other = .ok (.int 0) ∧
    Eval.eval .strict (.binary .add (.name "i") counted) numbered =
      (.ok (.owned (.int 1)), numberThenCounted.after) ∧
    numberThenTarget.given = .int 0 ∧
    ∃ stored final,
      Eval.eval .strict (.binary .assign (element counted) (.name "i")) numbered =
        (.ok stored, final) ∧
      final.valueOf stored = .int 1 := by
  refine ⟨numbered_reachable, rfl, ?_, rfl, .reference true ⟨.slot 0 "a", [.index 0]⟩,
    (numbered.set "i" (.int 1)).set "a" (.array [.int 1, .int 6]), ?_, rfl⟩
  · rw [eval_binary (by rfl) numberThenCounted]
    rfl
  · rw [eval_assign numberThenTarget]
    rfl

/-! The expressions that write. -/

variable {mode : EvalMode} {plain : Bool} {expr target : Expr} {value : Option Expr}
  {context middle after : Context} {handle : Handle}

/-- The value has been evaluated, if there is one. -/
inductive Valued (mode : EvalMode) : Option Expr → Context → Context → Prop where
  | none (context : Context) : Valued mode none context context
  | some {value : Expr} {context middle : Context} {given : Handle}
      (ran : Eval.eval mode.operand value context = (.ok given, middle)) :
      Valued mode (some value) context middle

/-- What is to be written to has been found, and nothing has been written yet. -/
def Located (mode : EvalMode) (target : Expr) (value : Option Expr) (context : Context)
    (handle : Handle) (after : Context) : Prop :=
  ∃ middle, Valued mode value context middle ∧
    Eval.eval .writing target middle = (.ok handle, after)

/-- What is left to do once the target is there. -/
inductive Finishes (plain : Bool) (handle : Handle) (after : Context) :
    Except EvalFault Handle × Context → Prop where
  | assigned (given : Handle) (assigns : plain = true) :
      Finishes plain handle after (Assignment.assign handle given after)
  | updated (change : Value → Except EvalFault Value) (result : Handle) (changes : plain = false) :
      Finishes plain handle after ((do
        Assignment.update handle change
        return result) after)

theorem valueOf_eq (handle : Handle) (context : Context) :
    Eval.valueOf handle context = (.ok (context.valueOf handle), context) :=
  rfl

theorem eval_compound {op : Op} (assigns : op.isAssignment = true) (combines : op ≠ .assign)
    {left right : Expr} :
    Eval.eval mode (.binary op left right) = (do
      let value ← Eval.valueOf (← Eval.eval mode.operand right)
      let target ← Eval.eval .writing left
      Assignment.update target (Value.assigned op · value)
      return target.settled) := by
  conv =>
    lhs
    unfold Eval.eval
  split
  · cases assigns
  · cases assigns
  · cases assigns
  · cases assigns
  · cases assigns
  · cases assigns
  · cases assigns
  · exact absurd rfl combines
  · rw [if_pos assigns]

/-- An expression that writes has done so when the value and the target have been evaluated. -/
theorem finishes (writing : Expr.Writing plain expr target value)
    (located : Located mode target value context handle after) :
    Finishes plain handle after (Eval.eval mode expr context) := by
  obtain ⟨middle, valued, reached⟩ := located
  cases writing with
  | assigned target value =>
    cases valued with
    | @some _ _ _ given ran =>
      have eq : Eval.eval mode (.binary .assign target value) context =
          Assignment.assign handle given after := by
        rw [Eval.eval, bind_eq, ran]
        dsimp only
        rw [bind_eq, reached]
      rw [eq]
      exact .assigned given rfl
  | compound assigns combines target value =>
    cases valued with
    | @some _ _ _ given ran =>
      rw [eval_compound assigns combines, bind_eq, ran]
      dsimp only
      rw [bind_eq, valueOf_eq]
      dsimp only
      rw [bind_eq, reached]
      exact .updated _ _ rfl
  | preIncrement target =>
    cases valued
    rw [Eval.eval, bind_eq, reached]
    exact .updated (Value.stepped true) handle.settled rfl
  | preDecrement target =>
    cases valued
    rw [Eval.eval, bind_eq, reached]
    exact .updated (Value.stepped false) handle.settled rfl
  | postIncrement target =>
    cases valued
    rw [Eval.eval, bind_eq, reached]
    exact .updated (Value.stepped true) (.owned (after.valueOf handle)) rfl
  | postDecrement target =>
    cases valued
    rw [Eval.eval, bind_eq, reached]
    exact .updated (Value.stepped false) (.owned (after.valueOf handle)) rfl

/-- What leaves the context as it is ends in a fault or with a result. -/
theorem ends_of_unchanged {α : Type} {program : EvalM α} (unchanged : (program context).2 = context) :
    (∃ fault, program context = (.error fault, context)) ∨ ∃ result, program context = (.ok result, context) := by
  generalize program context = ended at unchanged
  obtain ⟨fault | result, after⟩ := ended
  · cases unchanged
    exact .inl ⟨fault, rfl⟩
  · cases unchanged
    exact .inr ⟨result, rfl⟩

/-- Until the target is there, a fault is one of the value or of the target, and ends the
expression. -/
theorem failed_or_located (writing : Expr.Writing plain expr target value)
    (operands : ∀ operand ∈ value, (Eval.eval mode.operand operand context).2 = context)
    (reached : (Eval.eval .writing target context).2 = context) :
    (∃ fault, Eval.eval mode expr context = (.error fault, context)) ∨
      ∃ handle, Eval.eval .writing target context = (.ok handle, context) ∧
        Located mode target value context handle context := by
  have targeted := ends_of_unchanged reached
  cases writing with
  | assigned target given =>
    obtain ⟨fault, ran⟩ | ⟨handle, ran⟩ := ends_of_unchanged (operands given rfl)
    · refine .inl ⟨fault, ?_⟩
      rw [Eval.eval, bind_eq, ran]
    · obtain ⟨fault, failed⟩ | ⟨found, reached⟩ := targeted
      · refine .inl ⟨fault, ?_⟩
        rw [Eval.eval, bind_eq, ran]
        dsimp only
        rw [bind_eq, failed]
      · exact .inr ⟨found, reached, context, .some ran, reached⟩
  | compound assigns combines target given =>
    obtain ⟨fault, ran⟩ | ⟨handle, ran⟩ := ends_of_unchanged (operands given rfl)
    · refine .inl ⟨fault, ?_⟩
      rw [eval_compound assigns combines, bind_eq, ran]
    · obtain ⟨fault, failed⟩ | ⟨found, reached⟩ := targeted
      · refine .inl ⟨fault, ?_⟩
        rw [eval_compound assigns combines, bind_eq, ran]
        dsimp only
        rw [bind_eq, valueOf_eq]
        dsimp only
        rw [bind_eq, failed]
      · exact .inr ⟨found, reached, context, .some ran, reached⟩
  | _ =>
    obtain ⟨fault, failed⟩ | ⟨found, reached⟩ := targeted
    · refine .inl ⟨fault, ?_⟩
      rw [Eval.eval, bind_eq, failed]
    · exact .inr ⟨found, reached, context, .none context, reached⟩

end Operands

end HtmlTemplate
