import HtmlTemplate.Proofs.Rules.Evaluation

/-! What is true of the handle that an expression yields, in the context at its end. Only the last
part of an expression decides it: an operand that was evaluated earlier is either read by then or
it is the result. -/

namespace HtmlTemplate.Rules

variable {valid : Context → Prop} {grows : Context → Context → Prop} {α β : Type}

/-- A result fits the context that a computation ends in. -/
def Yields (valid : Context → Prop) (fits : Context → α → Prop) (program : EvalM α) : Prop :=
  ∀ context, valid context → ∀ value after, program context = (.ok value, after) → fits after value

namespace Yields

variable {fits : Context → α → Prop} {last : Context → β → Prop}

theorem pure {value : α} (holds : ∀ context, fits context value) :
    Yields valid fits (Pure.pure value : EvalM α) := by
  intro context _ result after ended
  cases ended
  exact holds context

theorem throw (fault : EvalFault) : Yields valid fits (MonadExcept.throw fault : EvalM α) := by
  intro context _ result after ended
  cases ended

/-- A computation that goes on with a result that fits. -/
theorem bind {first : EvalM α} {next : α → EvalM β} (stays : Stays valid grows first)
    (yields : Yields valid fits first)
    (goesOn : ∀ value context, valid context → fits context value → ∀ result after,
      next value context = (.ok result, after) → last after result) :
    Yields valid last (first >>= next) := by
  intro context holds result after ended
  obtain ⟨value, middle, ran, followed⟩ := bind_ok ended
  have kept := (stays context holds).1
  rw [ran] at kept
  exact goesOn value middle kept (yields context holds value middle ran) result after followed

/-- A computation that goes on with any result. -/
theorem after {first : EvalM α} {next : α → EvalM β} (stays : Stays valid grows first)
    (goesOn : ∀ value, Yields valid last (next value)) : Yields valid last (first >>= next) := by
  have anything : Yields valid (fun _ _ => True) first := fun _ _ _ _ _ => trivial
  exact anything.bind stays fun value context holds _ => goesOn value context holds

/-- A computation that looks at the context first. -/
theorem bind_get {next : Context → EvalM α}
    (goesOn : ∀ context, valid context → ∀ value after,
      next context context = (.ok value, after) → fits after value) :
    Yields valid fits (get >>= next) :=
  goesOn

/-- A name stands for a function, a class or a variable, or for nothing. -/
theorem looked {fits : Context → Handle → Prop} (mode : EvalMode) (name : String)
    (absent : ∀ context, fits context .absent)
    (called : ∀ context function, fits context (.function function none))
    (named : ∀ context hostClass, fits context (.hostClass hostClass))
    (found : ∀ context frame, fits context (.slot frame name)) :
    Yields valid fits (Eval.lookupName mode name) := by
  intro context _ handle after done
  rw [Eval.lookupName_eq] at done
  cases place : context.find? name with
  | none =>
    rw [place, Option.elim_none] at done
    split at done
    · cases done
      exact absent context
    · cases done
  | some frame =>
    rw [place] at done
    cases done
    exact Eval.meaning_fits (called context) (named context) (found context frame) _

theorem declared {fits : Context → Handle → Prop} {name : String}
    (found : ∀ context frame, fits context (.slot frame name)) :
    Yields valid fits (Eval.declare name) := by
  intro context _ handle after done
  rw [Eval.declare, get_bind] at done
  split at done
  · cases done
  · cases done
    exact found ..

end Yields

/-- A member is a value, a function, nothing, or what is at a place. -/
theorem member_fits {fits : Handle → Prop} (owned : ∀ value, fits (.owned value))
    (absent : fits .absent) (called : ∀ function receiver, fits (.function function receiver))
    (context : Context) (base : Handle) (target : Bool) (member : Member)
    (located : ∀ place, fits (Member.atPlace context place target member)) :
    fits (Member.ofHandle context base target member) := by
  unfold Member.ofHandle
  split
  · split
    · exact called ..
    · exact absent
  · unfold Member.ofOwned
    split
    · exact owned _
    · exact owned _
    · exact absent
  · split
    · exact absent
    · split
      · exact called ..
      · exact located _

/-- What is true of all handles that the last steps of evaluation yield. -/
structure Yielding (valid : Context → Prop) (fits : Context → Handle → Prop) : Prop where
  owned : ∀ context value, fits context (.owned value)
  member : ∀ {context}, valid context → ∀ base target member,
    fits context (Member.ofHandle context base target member)
  looked : ∀ mode name, Yields valid fits (Eval.lookupName mode name)
  declared : ∀ name, Yields valid fits (Eval.declare name)
  assigned : ∀ target value, Yields valid fits (Assignment.assign target value)
  updated : ∀ target change,
    Yields valid (fun after _ => fits after target.settled) (Assignment.update target change)

section

variable {fits : Context → Handle → Prop}

namespace Yielding

theorem ofResult (yielding : Yielding valid fits) (result : Except EvalFault Value) :
    Yields valid fits (Eval.ofResult result) := by
  cases result with
  | ok value => exact .pure (yielding.owned · value)
  | error fault => exact .throw fault

theorem call (yielding : Yielding valid fits) (callee : Handle) (arguments : List Value) :
    Yields valid fits (Eval.call callee arguments) := by
  unfold Eval.call
  split
  · split
    · exact .pure (yielding.owned · _)
    · exact .throw _
  · exact .throw _

/-- A deciding operand is the result itself, unless it is null. -/
theorem deciding (yielding : Yielding valid fits) {handle : Handle} {context : Context}
    (here : fits context handle) {result : Handle} {after : Context}
    (ended : Eval.deciding handle context = (.ok result, after)) : fits after result := by
  cases ended
  split
  · exact yielding.owned ..
  · exact here

theorem stepBefore (yielding : Yielding valid fits) (kept : Kept valid grows) (up : Bool)
    (target : Handle) : Yields valid fits (Eval.stepBefore up target) := by
  refine (yielding.updated target _).bind (update_stays kept.overwriting (leads_anywhere target) _) ?_
  intro _ context _ here result after ended
  cases ended
  exact here

theorem stepAfter (yielding : Yielding valid fits) (kept : Kept valid grows) (up : Bool)
    (target : Handle) : Yields valid fits (Eval.stepAfter up target) :=
  .after (valueOf_stays kept.growth target) fun old =>
    .after (update_stays kept.overwriting (leads_anywhere target) _) fun _ => .pure (yielding.owned · old)

end Yielding

theorem eval_yields (kept : Kept valid grows) (yielding : Yielding valid fits) (mode : EvalMode)
    (expr : Expr) : Yields valid fits (Eval.eval mode expr) := by
  have stays (mode : EvalMode) (expr : Expr) := eval_stays kept mode expr
  have reads (handle : Handle) : Stays valid grows (Eval.valueOf handle) :=
    valueOf_stays kept.growth handle
  have listed (mode : EvalMode) (items : List Expr) := evalItems_stays kept mode items
  cases expr with
  | name word =>
    unfold Eval.eval
    exact yielding.looked mode word
  | literal value =>
    unfold Eval.eval
    exact .pure (yielding.owned · _)
  | noArguments =>
    unfold Eval.eval
    exact .pure (yielding.owned · _)
  | emptyArray =>
    unfold Eval.eval
    exact .pure (yielding.owned · _)
  | emptyDict =>
    unfold Eval.eval
    exact .pure (yielding.owned · _)
  | bracketed bracket inner =>
    cases bracket with
    | round =>
      unfold Eval.eval
      exact eval_yields kept yielding mode inner
    | square =>
      unfold Eval.eval
      exact .after (listed _ _) fun _ => .pure (yielding.owned · _)
    | curly =>
      unfold Eval.eval
      exact .after (evalEntries_keeps kept.evaluating _ _ _ fun _ _ => .inl rfl) fun _ =>
        .pure (yielding.owned · _)
  | unary op operand =>
    unfold Eval.eval
    split
    · split
      · exact yielding.declared _
      · exact .throw _
    · exact .after (stays .writing operand) fun _ => yielding.stepBefore kept true _
    · exact .after (stays .writing operand) fun _ => yielding.stepBefore kept false _
    · exact .after (stays .writing operand) fun _ => yielding.stepAfter kept true _
    · exact .after (stays .writing operand) fun _ => yielding.stepAfter kept false _
    · exact .after (stays _ operand) fun _ => .after (reads _) fun _ => yielding.ofResult _
    · exact .after (stays _ operand) fun _ => .after (reads _) fun _ => yielding.ofResult _
    · exact .after (stays _ operand) fun _ => .after (reads _) fun _ => yielding.ofResult _
    · exact .throw _
  | binary op left right =>
    have first := eval_yields kept yielding mode.operand left
    have second := eval_yields kept yielding mode.operand right
    unfold Eval.eval
    split
    · refine .after (stays mode.operand left) fun base => .bind_get ?_
      intro context holds result after ended
      cases ended
      exact yielding.member holds ..
    · refine .after (stays mode.operand left) fun base => .after (stays mode.operand _) fun key => ?_
      refine .after (reads key) fun value => .bind_get ?_
      intro context holds result after ended
      cases ended
      exact yielding.member holds ..
    · exact .after (stays mode.operand left) fun _ => .after (listed _ _) fun _ => yielding.call _ _
    · refine first.bind (stays mode.operand left) ?_
      intro handle context holds here
      have other := second.bind (stays mode.operand right) fun _ _ _ here _ _ ended =>
        yielding.deciding here ended
      rw [get_bind]
      cases context.truthy handle with
      | true => exact other context holds
      | false => exact fun _ _ ended => yielding.deciding here ended
    · refine first.bind (stays mode.operand left) ?_
      intro handle context holds here
      have other := second.bind (stays mode.operand right) fun _ _ _ here _ _ ended =>
        yielding.deciding here ended
      rw [get_bind]
      cases context.truthy handle with
      | true => exact fun _ _ ended => yielding.deciding here ended
      | false => exact other context holds
    · cases left with
      | binary link condition chosen =>
        have taken := eval_yields kept yielding mode chosen
        have refused := eval_yields kept yielding mode right
        split
        · rename_i eq
          cases eq
          refine .after (stays .guard condition) fun decision => .bind_get ?_
          intro context holds
          cases context.truthy decision with
          | true => exact taken context holds
          | false => exact refused context holds
        · exact .throw _
      | _ => exact .throw _
    · exact .after (stays mode.operand left) fun _ => eval_yields kept yielding mode right
    · exact .after (stays mode.operand right) fun value => .after (stays .writing left) fun target =>
        yielding.assigned target value
    · split
      · refine .after (stays mode.operand right) fun handle => .after (reads handle) fun value => ?_
        refine .after (stays .writing left) fun target => ?_
        refine (yielding.updated target _).bind (update_stays kept.overwriting (leads_anywhere target) _) ?_
        intro _ context _ here result after ended
        cases ended
        exact here
      · split
        · exact .after (stays mode.operand left) fun _ => .after (stays mode.operand right) fun _ =>
            .after (reads _) fun _ => .after (reads _) fun _ => yielding.ofResult _
        · exact .throw _
termination_by structural expr

end

end HtmlTemplate.Rules
