import HtmlTemplate.Proofs.Rules.Evaluation

/-! The faults that evaluation ends in: those of names, operators, targets and calls. Mixins and the
limit on steps have faults of their own, which no expression ends in. A name that is not known is no fault
where it may be absent and nothing is written. -/

namespace HtmlTemplate

namespace EvalFault

/-- Whether a fault is one of expressions. With `names` it may be that of a name that is not known. -/
def inExpression (names : Bool) : EvalFault → Bool
  | invalidMixin | mixinRedefined _ | mixinNotFound _ | missingArgument _ _ | stepLimit => false
  | unknownName _ => names
  | _ => true

theorem ne_stepLimit {names : Bool} {fault : EvalFault} (known : fault.inExpression names = true) :
    fault ≠ .stepLimit := by
  rintro rfl
  cases known

end EvalFault

namespace Rules

variable {α β : Type} {names : Bool}

/-- A result is no fault, or a fault of expressions. -/
def Plain (names : Bool) (result : Except EvalFault α) : Prop :=
  ∀ fault, result = .error fault → fault.inExpression names = true

namespace Plain

theorem ok (value : α) : Plain names (.ok value : Except EvalFault α) := nofun

theorem error {fault : EvalFault} (known : fault.inExpression names = true) :
    Plain names (.error fault : Except EvalFault α) := by
  intro other same
  cases same
  exact known

theorem map {result : Except EvalFault α} (plain : Plain names result) (change : α → β) :
    Plain names (result.map change) := by
  cases result with
  | ok value => exact .ok _
  | error fault => exact .error (plain fault rfl)

/-! Operators. -/

theorem comparison (op : Op) (left right : Value) : Plain names (Value.comparison op left right) := by
  unfold Value.comparison
  split
  · exact .ok _
  · apply Plain.map
    unfold Value.compare?
    split
    · exact .ok _
    · split
      · split
        · exact .ok _
        · exact .ok _
      · exact .error rfl

theorem arithmetic (op : Op) (left right : Value) : Plain names (Value.arithmetic op left right) := by
  have integers (first second : Int64) : Plain names (Value.integerArithmetic op first second) := by
    cases op with
    | divide =>
      unfold Value.integerArithmetic
      dsimp only
      split
      · exact .error rfl
      · exact .ok _
    | add => exact .ok _
    | subtract => exact .ok _
    | multiply => exact .ok _
    | _ => exact .error rfl
  have floats (first second : Float) : Plain names (Value.floatArithmetic op first second) := by
    cases op with
    | add => exact .ok _
    | subtract => exact .ok _
    | multiply => exact .ok _
    | divide => exact .ok _
    | _ => exact .error rfl
  unfold Value.arithmetic
  split
  · split
    · exact integers _ _
    · exact floats _ _
  · exact .error rfl

theorem add (left right : Value) : Plain names (Value.add left right) := by
  unfold Value.add
  split
  · exact .ok _
  · exact .ok _
  · split
    · exact .ok _
    · exact arithmetic _ _ _

theorem integerOperation (op : Op) (left right : Value) :
    Plain names (Value.integerOperation op left right) := by
  unfold Value.integerOperation
  split
  · split
    · split
      · exact .error rfl
      · exact .ok _
    · split
      · exact .ok _
      · exact .error rfl
    · split
      · exact .ok _
      · exact .error rfl
    · exact .ok _
    · exact .ok _
    · exact .ok _
    · exact .error rfl
  · exact .error rfl

theorem binary (op : Op) (left right : Value) : Plain names (Value.binary op left right) := by
  unfold Value.binary
  split
  any_goals exact comparison _ _ _
  · exact .ok _
  · exact .ok _
  · exact .ok _
  · split
    · exact .error rfl
    · split
      any_goals exact arithmetic _ _ _
      any_goals exact integerOperation _ _ _
      · exact add _ _
      · exact .error rfl

theorem unary (op : Op) (value : Value) : Plain names (Value.unary op value) := by
  have integer (operation : Int64 → Int64) : Plain names (Value.unary.integer op value operation) := by
    unfold Value.unary.integer
    split
    · exact .ok _
    · exact .error rfl
  unfold Value.unary
  split
  · exact .ok _
  · split
    · exact .error rfl
    · split
      · exact .ok _
      · exact .ok _
      · exact integer _
      · exact integer _
      · exact .error rfl

theorem assigned (op : Op) (target value : Value) : Plain names (Value.assigned op target value) := by
  unfold Value.assigned
  split
  · exact .error rfl
  · split
    · exact .ok _
    · split
      · exact binary _ _ _
      · exact .ok _
    · exact binary _ _ _
  · exact binary _ _ _

theorem stepped (up : Bool) (value : Value) : Plain names (Value.stepped up value) := by
  unfold Value.stepped
  dsimp only
  split
  · exact .ok _
  · exact .ok _
  · exact .error rfl
  · exact .error rfl

end Plain

/-- A computation ends in no fault but those of expressions. -/
def Faults (names : Bool) (program : EvalM α) : Prop := ∀ context, Plain names (program context).1

namespace Faults

theorem pure (value : α) : Faults names (Pure.pure value : EvalM α) := fun _ => .ok value

theorem throw {fault : EvalFault} (known : fault.inExpression names = true) :
    Faults names (MonadExcept.throw fault : EvalM α) :=
  fun _ => .error known

theorem bind {first : EvalM α} {next : α → EvalM β} (faults : Faults names first)
    (goesOn : ∀ value, Faults names (next value)) : Faults names (first >>= next) := by
  intro context
  have plain := faults context
  rw [bind_eq]
  generalize first context = ended at plain
  obtain ⟨fault | value, after⟩ := ended
  · exact .error (plain fault rfl)
  · exact goesOn value after

/-- A computation that looks at the context first. -/
theorem bind_get {next : Context → EvalM α} (goesOn : ∀ context, Faults names (next context)) :
    Faults names (get >>= next) :=
  fun context => goesOn context context

theorem valueOf (handle : Handle) : Faults names (Eval.valueOf handle) := fun _ => .ok _

theorem deciding (handle : Handle) : Faults names (Eval.deciding handle) := fun _ => .ok _

theorem ofResult {result : Except EvalFault Value} (plain : Plain names result) :
    Faults names (Eval.ofResult result) := by
  cases result with
  | ok value => exact .pure _
  | error fault => exact .throw (plain fault rfl)

theorem call (callee : Handle) (arguments : List Value) : Faults names (Eval.call callee arguments) := by
  unfold Eval.call
  split
  · split
    · exact .pure _
    · exact .throw rfl
  · exact .throw rfl

/-- A name that is not known is a fault unless it may be absent. -/
theorem lookupName {mode : EvalMode} (looks : names = true ∨ mode.soft = true) (name : String) :
    Faults names (Eval.lookupName mode name) := by
  apply Faults.bind_get
  intro context
  split
  · split
    · exact .pure _
    · rename_i strict
      exact .throw (looks.resolve_right strict)
  · split
    · exact .pure _
    · exact .pure _
    · exact .pure _

theorem declare (name : String) : Faults names (Eval.declare name) := by
  apply Faults.bind_get
  intro context
  split
  · exact .throw rfl
  · exact .bind (fun _ => .ok _) fun _ => .pure _

/-! Writing through handles. -/

theorem writeTo (place : Place) (value : Value) : Faults names (Assignment.writeTo place value) := by
  apply Faults.bind_get
  intro context
  split
  · exact .throw rfl
  · exact fun _ => .ok _

theorem insertAt (container : Place) (key : String) (value : Value) :
    Faults names (Assignment.insertAt container key value) := by
  apply Faults.bind_get
  intro context
  split
  · exact .throw rfl
  · split
    · exact .throw rfl
    · exact fun _ => .ok _

theorem assign (target value : Handle) : Faults names (Assignment.assign target value) := by
  apply Faults.bind_get
  intro context
  split
  · split
    · exact .bind (writeTo _ _) fun _ => .pure _
    · exact .bind (fun _ => .ok _) fun _ => .pure _
  · exact .bind (writeTo _ _) fun _ => .pure _
  · exact .bind (insertAt _ _ _) fun _ => .pure _
  · exact .throw rfl
  · exact .throw rfl

theorem prepare (target : Handle) : Faults names (Assignment.prepare target) := by
  apply Faults.bind_get
  intro context
  split
  · split
    · exact .bind (fun _ => .ok _) fun _ => .pure _
    · exact .pure _
  · exact .pure _
  · exact .bind (insertAt _ _ _) fun _ => .pure _
  · exact .throw rfl
  · exact .throw rfl

theorem update (target : Handle) {change : Value → Except EvalFault Value}
    (plain : ∀ value, Plain names (change value)) : Faults names (Assignment.update target change) := by
  apply Faults.bind (prepare target)
  intro place
  apply Faults.bind_get
  intro context
  split
  · exact .throw rfl
  · rename_i value _
    have changed := plain value
    generalize change value = result at changed
    cases result with
    | error fault => exact .throw (changed fault rfl)
    | ok other => exact writeTo place other

theorem stepBefore (up : Bool) (target : Handle) : Faults names (Eval.stepBefore up target) :=
  .bind (update target (Plain.stepped up)) fun _ => .pure _

theorem stepAfter (up : Bool) (target : Handle) : Faults names (Eval.stepAfter up target) :=
  .bind (valueOf target) fun _ => .bind (update target (Plain.stepped up)) fun _ => .pure _

end Faults

/-! Expressions. -/

mutual

theorem eval_faults (mode : EvalMode) (expr : Expr) :
    Makes names expr → names = true ∨ mode.soft = true → Faults names (Eval.eval mode expr) := by
  cases expr with
  | name word =>
    intro _ looks
    unfold Eval.eval
    exact .lookupName looks word
  | literal value =>
    intro _ _
    unfold Eval.eval
    exact .pure _
  | noArguments =>
    intro _ _
    unfold Eval.eval
    exact .pure _
  | emptyArray =>
    intro _ _
    unfold Eval.eval
    exact .pure _
  | emptyDict =>
    intro _ _
    unfold Eval.eval
    exact .pure _
  | bracketed bracket inner =>
    intro makes looks
    have smaller (kind : Bracket) := Expr.totalSize_items_bracketed_lt kind inner
    cases bracket with
    | round =>
      unfold Eval.eval
      exact eval_faults mode inner makes.inner looks
    | square =>
      have := smaller .square
      unfold Eval.eval
      exact .bind
        (evalItems_faults mode.operand (Expr.items (.bracketed .square inner)) makes.items looks)
        fun _ => .pure _
    | curly =>
      have := smaller .curly
      unfold Eval.eval
      exact .bind
        (evalEntries_faults mode.operand [] (Expr.items (.bracketed .curly inner)) makes.items looks)
        fun _ => .pure _
  | unary op operand =>
    intro makes looks
    have inner (mode : EvalMode) := eval_faults mode operand makes.operand
    have stepping := @Makes.stepped names op operand makes
    have applied : Faults names (do
        let handle ← Eval.eval mode.operand operand
        Eval.ofResult (Value.unary op (← Eval.valueOf handle))) :=
      .bind (inner mode.operand looks) fun handle => .bind (.valueOf handle) fun value =>
        .ofResult (.unary op value)
    unfold Eval.eval
    split
    · split
      · exact .declare _
      · exact .throw rfl
    · exact .bind (inner .writing (.inl (stepping (.inl rfl)))) fun _ => .stepBefore true _
    · exact .bind (inner .writing (.inl (stepping (.inr (.inl rfl))))) fun _ => .stepBefore false _
    · exact .bind (inner .writing (.inl (stepping (.inr (.inr (.inl rfl)))))) fun _ => .stepAfter true _
    · exact .bind (inner .writing (.inl (stepping (.inr (.inr (.inr rfl)))))) fun _ => .stepAfter false _
    · exact applied
    · exact applied
    · exact applied
    · exact .throw rfl
  | binary op left right =>
    intro makes looks
    have first (mode : EvalMode) := eval_faults mode left makes.left
    have second (mode : EvalMode) := eval_faults mode right makes.right
    unfold Eval.eval
    split
    · exact .bind (first mode.operand looks) fun _ => .bind_get fun _ => .pure _
    · have := Eval.sizeOf_subscriptKey_le right
      have key := eval_faults mode.operand (Eval.subscriptKey right) makes.right.subscriptKey looks
      exact .bind (first mode.operand looks) fun _ => .bind key fun _ => .bind (.valueOf _) fun _ =>
        .bind_get fun _ => .pure _
    · have := Expr.totalSize_items_le right
      have arguments := evalItems_faults mode.operand (Expr.items right) makes.right.items looks
      exact .bind (first mode.operand looks) fun _ => .bind arguments fun _ => .call _ _
    · apply Faults.bind (first mode.operand looks)
      intro handle
      apply Faults.bind_get
      intro context
      split
      · exact .bind (second mode.operand looks) fun _ => .deciding _
      · exact .deciding _
    · apply Faults.bind (first mode.operand looks)
      intro handle
      apply Faults.bind_get
      intro context
      split
      · exact .deciding _
      · exact .bind (second mode.operand looks) fun _ => .deciding _
    · cases left with
      | binary link condition chosen =>
        have decision := eval_faults .guard condition makes.left.left (.inr rfl)
        have taken := eval_faults mode chosen makes.left.right looks
        split
        · rename_i eq
          cases eq
          apply Faults.bind decision
          intro handle
          apply Faults.bind_get
          intro context
          split
          · exact taken
          · exact second mode looks
        · exact .throw rfl
      | _ => exact .throw rfl
    · exact .bind (first mode.operand looks) fun _ => second mode looks
    · exact .bind (second mode.operand looks) fun _ =>
        .bind (first .writing (.inl (makes.assigns rfl))) fun _ => .assign _ _
    · split
      · rename_i assigns
        have written := makes.assigns assigns
        exact .bind (second mode.operand looks) fun _ => .bind (.valueOf _) fun value =>
          .bind (first .writing (.inl written)) fun target =>
            .bind (.update target fun old => .assigned op old value) fun _ => .pure _
      · split
        · exact .bind (first mode.operand looks) fun _ => .bind (second mode.operand looks) fun _ =>
            .bind (.valueOf _) fun _ => .bind (.valueOf _) fun _ => .ofResult (.binary op _ _)
        · exact .throw rfl
termination_by 2 * sizeOf expr
decreasing_by
  all_goals
    simp only [Expr.unary.sizeOf_spec, Expr.binary.sizeOf_spec, Expr.bracketed.sizeOf_spec] at *
    omega

theorem evalItems_faults (mode : EvalMode) (items : List Expr) :
    (∀ item ∈ items, Makes names item) → names = true ∨ mode.soft = true →
      Faults names (Eval.evalItems mode items) := by
  cases items with
  | nil =>
    intro _ _
    unfold Eval.evalItems
    exact .pure _
  | cons item rest =>
    intro makes looks
    have := Expr.sizeOf_pos item
    have first := eval_faults mode item (makes item (List.mem_cons_self ..)) looks
    have others := evalItems_faults mode rest
      (fun other member => makes other (List.mem_cons_of_mem _ member)) looks
    unfold Eval.evalItems
    exact .bind first fun _ => .bind (.valueOf _) fun _ => .bind others fun _ => .pure _
termination_by 2 * Expr.totalSize items + 1
decreasing_by
  all_goals
    simp only [Expr.totalSize_cons]
    omega

theorem evalEntries_faults (mode : EvalMode) (dict : List (String × Value)) (items : List Expr) :
    (∀ item ∈ items, Makes names item) → names = true ∨ mode.soft = true →
      Faults names (Eval.evalEntries mode dict items) := by
  cases items with
  | nil =>
    intro _ _
    unfold Eval.evalEntries
    exact .pure _
  | cons item rest =>
    intro makes looks
    have := Expr.sizeOf_pos item
    unfold Eval.evalEntries
    split
    · exact .throw rfl
    · rename_i key element found
      have := Expr.sizeOf_entry?_lt found
      have entry := makes item (List.mem_cons_self ..)
      have named := eval_faults mode key
        (entry.imp id fun quiet => (Expr.quiet_hereditary.entry? quiet found).1) looks
      have held := eval_faults mode element
        (entry.imp id fun quiet => (Expr.quiet_hereditary.entry? quiet found).2) looks
      have others := fun dict => evalEntries_faults mode dict rest
        (fun other member => makes other (List.mem_cons_of_mem _ member)) looks
      dsimp only
      split
      · exact .bind (.pure _) fun _ => .bind held fun _ => .bind (.valueOf _) fun _ => others _
      · exact .bind named fun _ => .bind (.valueOf _) fun _ => .bind (.pure _) fun _ =>
          .bind held fun _ => .bind (.valueOf _) fun _ => others _
termination_by 2 * Expr.totalSize items + 1
decreasing_by
  all_goals
    simp only [Expr.totalSize_cons]
    omega

end

end Rules

end HtmlTemplate
