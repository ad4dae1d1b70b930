import HtmlTemplate.Proofs.Alias.Places
import HtmlTemplate.Proofs.Alias.Reachable
import HtmlTemplate.Proofs.Rules.Handling

/-! Handles that are read the same later: those of an expression that yields no place, whatever
happens next, and all handles while nothing is assigned. -/

namespace HtmlTemplate

/-- The expression yields a value of its own, or nothing that could be read, but never a place. -/
def Expr.isSettled : Expr → Bool
  | name _ => false
  | bracketed .round inner => isSettled inner
  | unary op _ => op != .declare && op != .preIncrement && op != .preDecrement
  | binary .member base _ | binary .subscript base _ => isSettled base
  | binary .and left right | binary .or left right => isSettled left && isSettled right
  | binary .alternative (binary .condition _ chosen) other => isSettled chosen && isSettled other
  | binary .sequence _ right => isSettled right
  | binary op _ _ => !op.isAssignment
  | _ => true

namespace Operands

theorem valueOf_of_place?_none {handle : Handle} (settled : handle.place? = none)
    (before after : Context) : after.valueOf handle = before.valueOf handle := by
  cases handle with
  | reference mutable place => cases settled
  | slot frame name => cases settled
  | _ => rfl

abbrev Settles (program : EvalM Handle) : Prop :=
  Rules.Gives (fun _ => True) (fun handle => handle.place? = none) program

theorem settles_after {α : Type} {first : EvalM α} {next : α → EvalM Handle}
    (goesOn : ∀ value, Settles (next value)) : Settles (first >>= next) := by
  have anything : Rules.Gives (fun _ => True) (fun _ => True) first :=
    fun _ _ => ⟨trivial, fun _ _ => trivial⟩
  exact anything.bind fun value _ => goesOn value

theorem settles_ofResult (result : Except EvalFault Value) : Settles (Eval.ofResult result) := by
  cases result with
  | ok value => exact .pure rfl
  | error fault => exact .throw fault

theorem settles_call (callee : Handle) (arguments : List Value) :
    Settles (Eval.call callee arguments) := by
  unfold Eval.call
  split
  · split
    · exact .pure rfl
    · exact .throw _
  · exact .throw _

theorem settles_deciding {handle : Handle} (settled : handle.place? = none) :
    Settles (Eval.deciding handle) := by
  apply Rules.Gives.bind_get
  intro context _
  refine ⟨trivial, ?_⟩
  rintro _ ⟨⟩
  split
  · rfl
  · exact settled

/-- A member of something that is kept nowhere is kept nowhere. -/
theorem place?_member {base : Handle} (settled : base.place? = none) (context : Context)
    (target : Bool) (member : Member) :
    (Member.ofHandle context base target member).place? = none := by
  cases base with
  | owned value =>
    unfold Member.ofHandle Member.ofOwned
    dsimp only
    split <;> rfl
  | hostClass hostClass =>
    unfold Member.ofHandle
    dsimp only
    split <;> rfl
  | reference mutable place => cases settled
  | slot frame name => cases settled
  | _ => rfl

theorem eval_settles (mode : EvalMode) {expr : Expr} (settled : expr.isSettled = true) :
    Settles (Eval.eval mode expr) := by
  fun_induction Expr.isSettled expr generalizing mode with
  | case1 word => cases settled
  | case2 inner step =>
    unfold Eval.eval
    exact step mode settled
  | case3 op operand =>
    unfold Eval.eval
    split
    · cases settled
    · cases settled
    · cases settled
    · exact settles_after fun _ => settles_after fun _ => settles_after fun _ => .pure rfl
    · exact settles_after fun _ => settles_after fun _ => settles_after fun _ => .pure rfl
    · exact settles_after fun _ => settles_after fun _ => settles_ofResult _
    · exact settles_after fun _ => settles_after fun _ => settles_ofResult _
    · exact settles_after fun _ => settles_after fun _ => settles_ofResult _
    · exact .throw _
  | case4 base right step =>
    unfold Eval.eval
    refine (step mode.operand settled).bind fun handle kept => .bind_get fun context _ => ?_
    refine ⟨trivial, ?_⟩
    rintro _ ⟨⟩
    exact place?_member kept ..
  | case5 base right step =>
    unfold Eval.eval
    refine (step mode.operand settled).bind fun handle kept => ?_
    refine settles_after fun key => settles_after fun value => .bind_get fun context _ => ?_
    refine ⟨trivial, ?_⟩
    rintro _ ⟨⟩
    exact place?_member kept ..
  | case6 left right first second =>
    obtain ⟨settledLeft, settledRight⟩ := Bool.and_eq_true_iff.mp settled
    unfold Eval.eval
    refine (first mode.operand settledLeft).bind fun handle kept => .bind_get fun context holds => ?_
    cases context.truthy handle with
    | true =>
      exact ((second mode.operand settledRight).bind fun _ => settles_deciding) context holds
    | false => exact settles_deciding kept context holds
  | case7 left right first second =>
    obtain ⟨settledLeft, settledRight⟩ := Bool.and_eq_true_iff.mp settled
    unfold Eval.eval
    refine (first mode.operand settledLeft).bind fun handle kept => .bind_get fun context holds => ?_
    cases context.truthy handle with
    | true => exact settles_deciding kept context holds
    | false =>
      exact ((second mode.operand settledRight).bind fun _ => settles_deciding) context holds
  | case8 condition chosen other first second =>
    obtain ⟨settledChosen, settledOther⟩ := Bool.and_eq_true_iff.mp settled
    unfold Eval.eval
    refine settles_after fun decision => .bind_get fun context holds => ?_
    cases context.truthy decision with
    | true => exact first mode settledChosen context holds
    | false => exact second mode settledOther context holds
  | case9 left right step =>
    unfold Eval.eval
    exact settles_after fun _ => step mode settled
  | case10 op left right notMember notSubscript notAnd notOr notAlternative notSequence =>
    have assigns : op.isAssignment = false := Bool.not_eq_true' _ |>.mp settled
    unfold Eval.eval
    split
    · exact absurd rfl notMember
    · exact absurd rfl notSubscript
    · exact settles_after fun _ => settles_after fun _ => settles_call _ _
    · exact absurd rfl notAnd
    · exact absurd rfl notOr
    · split
      · exact absurd rfl (notAlternative _ _ rfl)
      · exact .throw _
    · exact absurd rfl notSequence
    · cases assigns
    · rw [assigns, if_neg Bool.false_ne_true]
      split
      · exact settles_after fun _ => settles_after fun _ => settles_after fun _ =>
          settles_after fun _ => settles_ofResult _
      · exact .throw _
  | case11 expr notName notRound notUnary _ _ _ _ _ _ notBinary =>
    cases expr with
    | name word => exact absurd rfl (notName word)
    | unary op operand => exact absurd rfl (notUnary op operand)
    | binary op left right => exact absurd rfl (notBinary op left right)
    | bracketed bracket inner =>
      cases bracket with
      | round => exact absurd rfl (notRound inner)
      | square =>
        unfold Eval.eval
        exact settles_after fun _ => .pure rfl
      | curly =>
        unfold Eval.eval
        exact settles_after fun _ => .pure rfl
    | _ =>
      unfold Eval.eval
      exact .pure rfl

/-! Expressions that assign nothing. -/

/-- Every place has the value that it had. -/
def Unwritten (before after : Context) : Prop :=
  ∀ place, after.resolve? place = before.resolve? place

theorem Unwritten.valueOf {before after : Context} (unwritten : Unwritten before after)
    (handle : Handle) : after.valueOf handle = before.valueOf handle := by
  unfold Context.valueOf
  cases leads : handle.place? with
  | some place =>
    rw [Context.read?_of_place? leads, Context.read?_of_place? leads, unwritten place]
  | none => exact valueOf_of_place?_none leads before after

theorem unwritten_evaluating : Rules.Evaluating Context.Sound Unwritten false where
  growth := ⟨fun _ _ => rfl, fun first second place => (second place).trans (first place)⟩
  declared sound fresh := ⟨sound.bind _ (by nofun), sound.resolve?_declared fresh⟩
  assigned := nofun
  updated := nofun

theorem eval_unwritten {expr : Expr} (quiet : expr.isQuiet = true) {mode : EvalMode}
    {before after : Context} (sound : before.Sound) {result : Except EvalFault Handle}
    (ran : Eval.eval mode expr before = (result, after)) : Unwritten before after := by
  have kept := (Rules.eval_keeps unwritten_evaluating mode expr (.inr quiet) before sound).2
  rwa [ran] at kept

end Operands

end HtmlTemplate
