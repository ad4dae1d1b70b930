import HtmlTemplate.Proofs.Rules.Faults
import HtmlTemplate.Proofs.Stopping.Bodies

/-! Guards are evaluated as other expressions are, but a name that is not known is absent there. So where
evaluation as usual comes to a result, a guard comes to the same one, in the same state; and what it reports
otherwise is never a name. -/

namespace HtmlTemplate

namespace EvalMode

/-- A mode faults at no name that another one looks over. -/
structure Softens (first second : EvalMode) : Prop where
  soft : first.soft = true → second.soft = true
  target : second.target = first.target

theorem Softens.operand {first second : EvalMode} (softens : first.Softens second) :
    first.operand.Softens second.operand :=
  ⟨softens.soft, rfl⟩

theorem strict_softens_guard : strict.Softens guard := ⟨fun _ => rfl, rfl⟩

end EvalMode

namespace Probing

open Rules Stopping

variable {α β : Type} {strict soft : EvalMode}

/-- Where a computation comes to a result, another one comes to the same, in the same state. -/
def Follows (first second : EvalM α) : Prop :=
  ∀ context value after, first context = (.ok value, after) → second context = (.ok value, after)

namespace Follows

theorem refl (program : EvalM α) : Follows program program := fun _ _ _ done => done

theorem bind {first second : EvalM α} {next further : α → EvalM β} (follows : Follows first second)
    (goesOn : ∀ value, Follows (next value) (further value)) :
    Follows (first >>= next) (second >>= further) := by
  intro context result after done
  obtain ⟨value, middle, ran, ended⟩ := bind_ok done
  rw [bind_eq, follows context value middle ran]
  exact goesOn value middle result after ended

/-- Two computations that look at the context first. -/
theorem bind_get {next further : Context → EvalM α}
    (goesOn : ∀ context, Follows (next context) (further context)) :
    Follows (get >>= next) (get >>= further) :=
  fun context => goesOn context context

theorem ite {condition : Prop} [Decidable condition] {first second other another : EvalM α}
    (taken : Follows first second) (left : Follows other another) :
    Follows (if condition then first else other) (if condition then second else another) := by
  split
  · exact taken
  · exact left

theorem lookupName (softens : strict.Softens soft) (name : String) :
    Follows (Eval.lookupName strict name) (Eval.lookupName soft name) := by
  intro context value after done
  rw [Eval.lookupName_eq] at done ⊢
  cases found : context.find? name with
  | some frame =>
    rw [found] at done
    exact done
  | none =>
    rw [found, Option.elim_none] at done
    split at done
    · rename_i absent
      rw [Option.elim_none, if_pos (softens.soft absent)]
      exact done
    · cases done

end Follows

/-! Expressions. Where a part is written to, or is a guard itself, it has the same mode in both. -/

mutual

theorem eval_follows (strict soft : EvalMode) (softens : strict.Softens soft) (expr : Expr) :
    Follows (Eval.eval strict expr) (Eval.eval soft expr) := by
  have reading := softens.operand
  cases expr with
  | name word =>
    unfold Eval.eval
    exact .lookupName softens word
  | literal value =>
    unfold Eval.eval
    exact .refl _
  | noArguments =>
    unfold Eval.eval
    exact .refl _
  | emptyArray =>
    unfold Eval.eval
    exact .refl _
  | emptyDict =>
    unfold Eval.eval
    exact .refl _
  | bracketed bracket inner =>
    have smaller (kind : Bracket) := Expr.totalSize_items_bracketed_lt kind inner
    cases bracket with
    | round =>
      unfold Eval.eval
      exact eval_follows strict soft softens inner
    | square =>
      have := smaller .square
      unfold Eval.eval
      exact .bind
        (evalItems_follows strict.operand soft.operand reading (Expr.items (.bracketed .square inner)))
        fun _ => .refl _
    | curly =>
      have := smaller .curly
      unfold Eval.eval
      exact .bind
        (evalEntries_follows strict.operand soft.operand reading [] (Expr.items (.bracketed .curly inner)))
        fun _ => .refl _
  | unary op operand =>
    have read := eval_follows strict.operand soft.operand reading operand
    have applied := read.bind fun handle => Follows.refl (do
      Eval.ofResult (Value.unary op (← Eval.valueOf handle)))
    unfold Eval.eval
    split
    any_goals exact .refl _
    · exact applied
    · exact applied
    · exact applied
  | binary op left right =>
    have first := eval_follows strict.operand soft.operand reading left
    have second := eval_follows strict.operand soft.operand reading right
    have last := eval_follows strict soft softens right
    unfold Eval.eval
    split
    · rw [softens.target]
      exact first.bind fun _ => .refl _
    · have := Eval.sizeOf_subscriptKey_le right
      have key := eval_follows strict.operand soft.operand reading (Eval.subscriptKey right)
      rw [softens.target]
      exact first.bind fun _ => key.bind fun _ => .refl _
    · have := Expr.totalSize_items_le right
      have arguments := evalItems_follows strict.operand soft.operand reading (Expr.items right)
      exact first.bind fun _ => arguments.bind fun _ => .refl _
    · exact first.bind fun _ => .bind_get fun _ => .ite (second.bind fun _ => .refl _) (.refl _)
    · exact first.bind fun _ => .bind_get fun _ => .ite (.refl _) (second.bind fun _ => .refl _)
    · cases left with
      | binary link condition chosen =>
        have taken := eval_follows strict soft softens chosen
        split
        · rename_i eq
          cases eq
          exact Follows.bind (.refl _) fun _ => .bind_get fun _ => .ite taken last
        · exact .refl _
      | _ => exact .refl _
    · exact first.bind fun _ => last
    · exact second.bind fun _ => .refl _
    · apply Follows.ite
      · exact second.bind fun _ => .refl _
      · exact .ite (first.bind fun _ => second.bind fun _ => .refl _) (.refl _)
termination_by 2 * sizeOf expr
decreasing_by
  all_goals
    simp only [Expr.unary.sizeOf_spec, Expr.binary.sizeOf_spec, Expr.bracketed.sizeOf_spec] at *
    omega

theorem evalItems_follows (strict soft : EvalMode) (softens : strict.Softens soft) (items : List Expr) :
    Follows (Eval.evalItems strict items) (Eval.evalItems soft items) := by
  cases items with
  | nil =>
    unfold Eval.evalItems
    exact .refl _
  | cons item rest =>
    have := Expr.sizeOf_pos item
    have first := eval_follows strict soft softens item
    have others := evalItems_follows strict soft softens rest
    unfold Eval.evalItems
    exact first.bind fun _ => Follows.bind (.refl _) fun _ => others.bind fun _ => .refl _
termination_by 2 * Expr.totalSize items + 1
decreasing_by
  all_goals
    simp only [Expr.totalSize_cons]
    omega

theorem evalEntries_follows (strict soft : EvalMode) (softens : strict.Softens soft)
    (dict : List (String × Value)) (items : List Expr) :
    Follows (Eval.evalEntries strict dict items) (Eval.evalEntries soft dict items) := by
  cases items with
  | nil =>
    unfold Eval.evalEntries
    exact .refl _
  | cons item rest =>
    have := Expr.sizeOf_pos item
    unfold Eval.evalEntries
    split
    · exact .refl _
    · rename_i key element found
      have := Expr.sizeOf_entry?_lt found
      have named := eval_follows strict soft softens key
      have held := eval_follows strict soft softens element
      have others (dict : List (String × Value)) := evalEntries_follows strict soft softens dict rest
      have entry (name : String) := held.bind fun handle =>
        (Follows.refl (Eval.valueOf handle)).bind fun value => others (Entries.insert name value dict)
      cases key.name? with
      | some name => exact Follows.bind (.refl _) entry
      | none => exact named.bind fun _ => Follows.bind (.refl _) fun _ => Follows.bind (.refl _) entry
termination_by 2 * Expr.totalSize items + 1
decreasing_by
  all_goals
    simp only [Expr.totalSize_cons]
    omega

end

/-- Where an expression is executed without a report, a guard yields what it does and leaves the same
context. And where nothing is assigned or stepped, a guard reports no name that is not known. -/
theorem probe_softens (expr : Expr) (context : Context) :
    ((context.exec expr).2.reports.made = context.reports.made →
      context.probe expr = context.exec expr) ∧
    (expr.isQuiet = true →
      (context.probe expr).2.reports = context.reports ∨
        ∃ fault, (∀ name, fault ≠ .unknownName name) ∧
          (context.probe expr).2.reports = context.reports.add fault) := by
  constructor
  · intro silent
    unfold Context.exec at silent ⊢
    rcases evaluate_ends .strict expr context with
      ⟨handle, after, ran, executed, -⟩ | ⟨fault, after, -, executed, same⟩
    · have guarded := eval_follows _ _ EvalMode.strict_softens_guard expr context handle after ran
      unfold Context.probe Context.evaluate
      rw [guarded, ran]
    · have one : (context.evaluate .strict expr).2.reports.made = context.reports.made + 1 := by
        rw [executed, ← same]
        exact Reports.made_add ..
      omega
  · intro quiet
    unfold Context.probe
    rcases evaluate_ends .guard expr context with
      ⟨handle, after, -, probed, same⟩ | ⟨fault, after, ran, probed, same⟩
    · rw [probed]
      exact .inl same
    · have faults : Faults false (Eval.eval .guard expr) := eval_faults .guard expr (.inr quiet) (.inr rfl)
      have known := faults context
      rw [ran] at known
      rw [probed]
      refine .inr ⟨fault, ?_, congrArg (·.add fault) same⟩
      rintro name rfl
      cases known _ rfl

/-! A name that is known, and one that is not: `user ? user : visitor`. -/

def welcome : Expr := .binary .alternative (.binary .condition (.name "user") (.name "user")) (.name "visitor")

def known : Context := Context.new.set "user" (.text "Ann")

theorem welcome_executed : known.exec welcome = (.slot 0 "user", known) := by
  unfold Context.exec Context.evaluate welcome
  simp only [Eval.eval]
  rfl

theorem welcome_probed :
    (known.exec welcome).2.reports.made = known.reports.made ∧ welcome.isQuiet = true ∧
      known.probe welcome = (.slot 0 "user", known) ∧
      ((Context.new.probe welcome).2.reports = Reports.none ∨
        ∃ fault, (∀ name, fault ≠ .unknownName name) ∧
          (Context.new.probe welcome).2.reports = Reports.none.add fault) := by
  have silent : (known.exec welcome).2.reports.made = known.reports.made := by rw [welcome_executed]
  have quiet : welcome.isQuiet = true := rfl
  exact ⟨silent, quiet, ((probe_softens welcome known).1 silent).trans welcome_executed,
    (probe_softens welcome Context.new).2 quiet⟩

end Probing

end HtmlTemplate
