import HtmlTemplate.Proofs.Operands.Order
import HtmlTemplate.Proofs.Rules.Yielding

/-! What a write leaves behind when it fails. An assignment fails before it changes anything. An
operator is applied when its target has been prepared, so the preparation stays when the operator
fails. -/

namespace HtmlTemplate.Failing

open Rules Context Operands

/-! Keys that are not there yet. -/

/-- A vacant key is one that a dictionary does not have. -/
def Vacant (context : Context) (handle : Handle) : Prop :=
  ∀ container key, handle = .vacant container key →
    ∃ entries, context.resolve? container = some (.dict entries) ∧
      Entries.contains key entries = false

theorem contains_of_find_nothing {entries : Entries Value} {member : Member}
    (missing : Member.find (.dict entries) member = .nothing) :
    Entries.contains member.key entries = false := by
  unfold Member.find at missing
  dsimp only at missing
  by_cases known : Entries.contains member.key entries = true
  · rw [if_pos known] at missing
    cases missing
  · exact Bool.eq_false_iff.mpr known

theorem vacant_atPlace (context : Context) (place : Place) (target : Bool) (member : Member) :
    Vacant context (Member.atPlace context place target member) := by
  intro container key same
  unfold Member.atPlace at same
  split at same
  · cases same
  · rename_i value found
    split at same
    · cases same
    · cases same
    · rename_i missing
      split at same
      · rename_i conditions
        cases same
        obtain ⟨-, isDict⟩ := Bool.and_eq_true_iff.mp conditions
        cases value with
        | dict entries => exact ⟨entries, found, contains_of_find_nothing missing⟩
        | _ => cases isDict
      · cases same

theorem vacant_member (context : Context) (base : Handle) (target : Bool) (member : Member) :
    Vacant context (Member.ofHandle context base target member) :=
  member_fits (by nofun) (by nofun) (by nofun) context base target member fun place =>
    vacant_atPlace context place target member

theorem vacant_settled (context : Context) (handle : Handle) : Vacant context handle.settled := by
  intro container key same
  cases handle <;> cases same

theorem vacant_yielding : Yielding Sound Vacant where
  owned _ _ := by nofun
  member _ base target member := vacant_member _ base target member
  looked mode name := .looked mode name (by nofun) (by nofun) (by nofun) (by nofun)
  declared _ := .declared (by nofun)
  assigned target value := by
    intro context _ stored after done
    rw [assign_yields done]
    exact vacant_settled after target
  updated target change := by
    intro context _ _ after _
    exact vacant_settled after target

/-! What is left behind. -/

/-- What a target is after an operator has failed to change it. -/
inductive Leftover (context : Context) : Handle → Context → Prop where
  /-- A declared variable without a value has become null. -/
  | filled {frame : Nat} {name : String} (unset : context.binding? frame name = some .unset) :
      Leftover context (.slot frame name) (context.store frame name (.ofValue .null))
  /-- A dictionary that may be changed has got the key, with null. -/
  | inserted {container : Place} {key : String} {entries : Entries Value} {after : Context}
      (held : context.resolveMutable? container = some (.dict entries))
      (fresh : Entries.contains key entries = false)
      (done : context.write? container (.dict (Entries.insert key .null entries)) = some after) :
      Leftover context (.vacant container key) after
  | nothing {handle : Handle}
      (set : ∀ frame name, handle = .slot frame name → context.binding? frame name ≠ some .unset)
      (refused : ∀ container key, handle = .vacant container key →
        context.resolveMutable? container = none) :
      Leftover context handle context

variable {context after : Context} {handle : Handle} {fault : EvalFault}

theorem writeTo_failed {place : Place} {value : Value}
    (failed : Assignment.writeTo place value context = (.error fault, after)) :
    after = context ∧ context.resolveMutable? place = none := by
  rw [Assignment.writeTo_eq] at failed
  split at failed
  · rename_i refused
    cases failed
    exact ⟨rfl, refused⟩
  · cases failed

theorem insertAt_failed {container : Place} {key : String} {value : Value}
    (failed : Assignment.insertAt container key value context = (.error fault, after)) :
    after = context := by
  rw [Assignment.insertAt_eq] at failed
  split at failed
  · cases failed
    rfl
  · split at failed
    · cases failed
      rfl
    · cases failed

theorem bind_failed {α β : Type} {first : EvalM α} {next : α → EvalM β}
    (failed : (first >>= next) context = (.error fault, after)) :
    first context = (.error fault, after) ∨
      ∃ value middle, first context = (.ok value, middle) ∧
        next value middle = (.error fault, after) := by
  rw [bind_eq] at failed
  generalize first context = ended at failed
  obtain ⟨error | value, middle⟩ := ended
  · cases failed
    exact .inl rfl
  · exact .inr ⟨value, middle, rfl, failed⟩

theorem assign_failed {value : Handle}
    (failed : Assignment.assign handle value context = (.error fault, after)) : after = context := by
  rw [Assignment.assign, get_bind] at failed
  have unfinished {first : EvalM Unit} (failed : (do
      first
      return handle.settled : EvalM Handle) context = (.error fault, after)) :
      first context = (.error fault, after) := by
    rcases bind_failed failed with first | ⟨_, _, _, ended⟩
    · exact first
    · cases ended
  cases handle with
  | slot frame name =>
    cases hosted : Assignment.isHosted context frame name with
    | true =>
      simp only [hosted, if_true] at failed
      exact (writeTo_failed (unfinished failed)).1
    | false =>
      simp only [hosted] at failed
      cases failed
  | reference mutable place =>
    cases mutable with
    | true => exact (writeTo_failed (unfinished failed)).1
    | false =>
      cases failed
      rfl
  | vacant container key => exact insertAt_failed (unfinished failed)
  | _ =>
    cases failed
    rfl

/-- A change that fails after its target has been prepared leaves it so. -/
theorem update_failed {change : Value → Except EvalFault Value}
    (failed : Assignment.update handle change context = (.error fault, after)) :
    (∃ place, Assignment.prepare handle context = (.ok place, after)) ∨
      Assignment.prepare handle context = (.error fault, after) := by
  rcases bind_failed failed with unprepared | ⟨place, middle, prepared, failed⟩
  · exact .inr unprepared
  · left
    refine ⟨place, ?_⟩
    rw [prepared]
    rw [get_bind] at failed
    cases found : middle.resolveMutable? place with
    | none =>
      rw [found] at failed
      cases failed
      rfl
    | some old =>
      cases changed : change old with
      | error fault =>
        simp only [found, changed] at failed
        cases failed
        rfl
      | ok value =>
        simp only [found, changed] at failed
        have refused := (writeTo_failed failed).2
        rw [found] at refused
        cases refused

/-- Where a dictionary has no such key, the key is inserted unless the dictionary is read-only. -/
theorem insertAt_vacant (sound : context.Sound) {container : Place} {key : String}
    {entries : Entries Value} (found : context.resolve? container = some (.dict entries))
    (fresh : Entries.contains key entries = false) :
    (context.resolveMutable? container = none ∧
      Assignment.insertAt container key .null context = (.error .readOnly, context)) ∨
    ∃ after, Leftover context (.vacant container key) after ∧
      Assignment.insertAt container key .null context = (.ok (), after) := by
  rw [Assignment.insertAt_eq]
  by_cases mutable : context.isMutable container = true
  · have held : context.resolveMutable? container = some (.dict entries) := by
      rw [resolveMutable?, if_pos mutable, found]
    obtain ⟨after, done, -⟩ := sound.write?_reads held (.dict (Entries.insert key .null entries))
    right
    refine ⟨after, .inserted held fresh done, ?_⟩
    rw [held]
    change (Except.ok (), (context.write? container _).getD context) = _
    rw [done]
    rfl
  · have refused : context.resolveMutable? container = none := by
      rw [resolveMutable?, if_neg mutable]
    left
    rw [refused]
    exact ⟨rfl, rfl⟩

theorem prepare_leaves (sound : context.Sound) (vacant : Vacant context handle) :
    Leftover context handle (Assignment.prepare handle context).2 := by
  cases handle with
  | slot frame name =>
    rw [Assignment.prepare_slot]
    by_cases unset : context.binding? frame name = some .unset
    · rw [unset]
      exact .filled unset
    · rw [Assignment.filling_of_ne unset]
      refine .nothing ?_ (by nofun)
      intro _ _ same
      cases same
      exact unset
  | reference mutable place => cases mutable <;> exact .nothing (by nofun) (by nofun)
  | vacant container key =>
    obtain ⟨entries, found, fresh⟩ := vacant container key rfl
    rw [Assignment.prepare, get_bind]
    dsimp only
    rw [bind_eq]
    rcases insertAt_vacant sound found fresh with ⟨refused, failed⟩ | ⟨after, leftover, inserted⟩
    · rw [failed]
      refine .nothing (by nofun) ?_
      intro _ _ same
      cases same
      exact refused
    · rw [inserted]
      exact leftover
  | _ => exact .nothing (by nofun) (by nofun)

/-- A key that is found as a target is vacant. -/
theorem vacant_of_located {mode : EvalMode} {target : Expr} {value : Option Expr}
    (located : Located mode target value context handle after) (sound : context.Sound) : Vacant after handle := by
  obtain ⟨middle, valued, found⟩ := located
  have soundMiddle : middle.Sound := by
    cases valued with
    | none => exact sound
    | @some operand _ _ _ ran =>
      have stays := (eval_stays sound_written mode.operand operand context sound).1
      rwa [ran] at stays
  exact eval_yields sound_written vacant_yielding .writing target middle soundMiddle _ _ found

/-- The operator of a statement fails once the target has been found: what is left is its preparation. -/
theorem updated_leaves (sound : context.Sound) (vacant : Vacant context handle)
    {change : Value → Except EvalFault Value} {result : Handle}
    (failed : (do
      Assignment.update handle change
      return result : EvalM Handle) context = (.error fault, after)) : Leftover context handle after := by
  have leaves := prepare_leaves sound vacant
  rcases bind_failed failed with failed | ⟨_, _, _, ended⟩
  · rcases update_failed failed with ⟨place, prepared⟩ | unprepared
    · rwa [prepared] at leaves
    · rwa [unprepared] at leaves
  · cases ended

/-- A statement whose operands change nothing, and that fails. An assignment without an operator has changed
nothing. Nor has a statement that has not come to its target. Otherwise the target has been prepared, and
nothing else has changed: a declared variable without a value has become null, and a key that a dictionary
did not have is in it with null, unless the dictionary is read-only. -/
theorem failed_write_leaves (reachable : context.Reachable) {mode : EvalMode} {plain : Bool}
    {expr target : Expr} {value : Option Expr} (writing : Expr.Writing plain expr target value)
    (operands : ∀ operand ∈ value, (Eval.eval mode.operand operand context).2 = context)
    (reached : (Eval.eval .writing target context).2 = context)
    (failed : Eval.eval mode expr context = (.error fault, after)) :
    (plain = true → after = context) ∧
    ((∀ handle, ¬ Located mode target value context handle context) → after = context) ∧
    ∀ handle, Located mode target value context handle context → plain = false →
      Leftover context handle after := by
  have sound := reachable.sound
  -- What the statement does once it has come to its target.
  have rest {handle : Handle} (located : Located mode target value context handle context) :
      Finishes plain handle context (.error fault, after) := failed ▸ finishes writing located
  have early (ended : ∃ fault, Eval.eval mode expr context = (.error fault, context)) : after = context := by
    obtain ⟨_, ended⟩ := ended
    exact congrArg Prod.snd (failed.symm.trans ended)
  refine ⟨fun assigns => ?_, fun none => ?_, fun handle located changes => ?_⟩
  · rcases failed_or_located writing operands reached with ended | ⟨handle, -, located⟩
    · exact early ended
    · have finished := rest located
      generalize same : (Except.error fault, after) = ended at finished
      cases finished with
      | assigned given => exact assign_failed same.symm
      | updated change result changes => cases assigns.symm.trans changes
  · rcases failed_or_located writing operands reached with ended | ⟨handle, -, located⟩
    · exact early ended
    · exact absurd located (none handle)
  · have finished := rest located
    generalize same : (Except.error fault, after) = ended at finished
    cases finished with
    | assigned given assigns => cases assigns.symm.trans changes
    | updated change result =>
      exact updated_leaves sound (vacant_of_located located sound) same.symm

/-! A key that stays. -/

/-- A dictionary without the key `x`. -/
def counting : Context := Context.new.set "d" (.dict [("a", .int 1)])

def counted : Context := counting.set "d" (.dict [("a", .int 1), ("x", .null)])

def counter : Expr := .binary .member (.name "d") (.name "x")

/-- The statement `d.x -= 1`. -/
def countDown : Expr := .binary .subtractAssign counter (.literal (.int 1))

theorem countDown_writing : Expr.Writing false countDown counter (some (.literal (.int 1))) :=
  .compound rfl (by nofun) _ _

theorem literal_ran (mode : EvalMode) (value : Value) (context : Context) :
    Eval.eval mode (.literal value) context = (.ok (.owned value), context) := by
  unfold Eval.eval
  rfl

theorem counter_found :
    Eval.eval .writing counter counting = (.ok (.vacant (.slot 0 "d") "x"), counting) := by
  unfold counter Eval.eval Eval.eval
  rfl

theorem countDown_failed :
    Eval.eval .strict countDown counting = (.error (.nullOperand .subtract), counted) := by
  rw [countDown, eval_compound rfl (by nofun), bind_eq, literal_ran]
  dsimp only
  rw [bind_eq, valueOf_eq]
  dsimp only
  rw [bind_eq, counter_found]
  rfl

theorem countDown_located :
    Located .strict counter (some (.literal (.int 1))) counting (.vacant (.slot 0 "d") "x") counting :=
  ⟨counting, .some (literal_ran ..), counter_found⟩

/-- Null has no number to be counted down, so `d.x -= 1` fails and leaves the key. -/
theorem countDown_leaves :
    counting.Reachable ∧
    Eval.eval .strict countDown counting = (.error (.nullOperand .subtract), counted) ∧
    Located .strict counter (some (.literal (.int 1))) counting (.vacant (.slot 0 "d") "x") counting ∧
    Leftover counting (.vacant (.slot 0 "d") "x") counted := by
  have reachable : counting.Reachable := .set .new _ _
  obtain ⟨-, -, leaves⟩ := failed_write_leaves reachable countDown_writing
    (fun operand given => by cases given; rw [literal_ran]) (by rw [counter_found]) countDown_failed
  exact ⟨reachable, countDown_failed, countDown_located, leaves _ countDown_located rfl⟩

/-- So there is a statement that fails, of operands that change nothing, and a variable that
reads otherwise after it. -/
theorem failed_write_changes :
    counting.Reachable ∧
    Expr.Writing false countDown counter (some (.literal (.int 1))) ∧
    (Eval.eval EvalMode.strict.operand (.literal (.int 1)) counting).2 = counting ∧
    (Eval.eval .writing counter counting).2 = counting ∧
    Eval.eval .strict countDown counting = (.error (.nullOperand .subtract), counted) ∧
    counting.get? "d" = some (.dict [("a", .int 1)]) ∧
    counted.get? "d" = some (.dict [("a", .int 1), ("x", .null)]) :=
  ⟨.set .new _ _, countDown_writing, by rw [literal_ran], by rw [counter_found], countDown_failed,
    rfl, rfl⟩

end HtmlTemplate.Failing
