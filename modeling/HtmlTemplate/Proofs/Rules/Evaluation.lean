import HtmlTemplate.Eval.Reported
import HtmlTemplate.Proofs.Context.Frames
import HtmlTemplate.Proofs.Rules.Basic

/-! Evaluation changes a context by a few kinds of writes alone, so what these keep, every
expression keeps. -/

namespace HtmlTemplate

namespace Expr

/-- Nothing is assigned in an expression, and nothing is stepped up or down. -/
def isQuiet : Expr → Bool
  | unary op operand =>
    (op != .preIncrement && op != .preDecrement && op != .postIncrement && op != .postDecrement) &&
      isQuiet operand
  | binary op left right => !op.isAssignment && isQuiet left && isQuiet right
  | bracketed _ inner => isQuiet inner
  | _ => true

theorem isQuiet_unary {op : Op} {operand : Expr} (quiet : (unary op operand).isQuiet = true) :
    (op ≠ .preIncrement ∧ op ≠ .preDecrement ∧ op ≠ .postIncrement ∧ op ≠ .postDecrement) ∧
      operand.isQuiet = true := by
  simpa [isQuiet, and_assoc] using quiet

theorem isQuiet_binary {op : Op} {left right : Expr} (quiet : (binary op left right).isQuiet = true) :
    op.isAssignment = false ∧ left.isQuiet = true ∧ right.isQuiet = true := by
  simpa [isQuiet, and_assoc] using quiet

/-- A kind of expressions that their operands are of too, and what they have in brackets. -/
structure Hereditary (fits : Expr → Prop) : Prop where
  operand : ∀ {op operand}, fits (unary op operand) → fits operand
  sides : ∀ {op left right}, fits (binary op left right) → fits left ∧ fits right
  inner : ∀ {bracket inner}, fits (bracketed bracket inner) → fits inner

namespace Hereditary

variable {fits : Expr → Prop}

theorem sequence (hereditary : Hereditary fits) {expr : Expr} (kind : fits expr) :
    ∀ item ∈ expr.sequence, fits item := by
  fun_induction Expr.sequence expr with
  | case1 left right leftStep rightStep =>
    obtain ⟨first, second⟩ := hereditary.sides kind
    intro item member
    rcases List.mem_append.mp member with member | member
    · exact leftStep first item member
    · exact rightStep second item member
  | case2 tree =>
    intro item member
    rw [List.mem_singleton.mp member]
    exact kind

theorem elements (hereditary : Hereditary fits) {expr : Expr} (kind : fits expr) :
    ∀ item ∈ expr.elements, fits item := by
  unfold Expr.elements
  split
  · nofun
  · nofun
  · nofun
  · exact hereditary.sequence kind

theorem items (hereditary : Hereditary fits) {expr : Expr} (kind : fits expr) :
    ∀ item ∈ expr.items, fits item := by
  unfold Expr.items
  split
  · have kind := hereditary.inner kind
    split
    · intro item member
      rw [List.mem_singleton.mp member]
      exact kind
    · exact hereditary.elements kind
  · exact hereditary.elements kind

theorem entry? (hereditary : Hereditary fits) {expr key element : Expr} (kind : fits expr)
    (entry : expr.entry? = some (key, element)) : fits key ∧ fits element := by
  unfold Expr.entry? at entry
  split at entry
  · cases entry
    exact hereditary.sides kind
  · cases entry
    exact hereditary.sides (hereditary.inner kind)
  · cases entry

end Hereditary

theorem quiet_hereditary : Hereditary fun expr => expr.isQuiet = true where
  operand quiet := (isQuiet_unary quiet).2
  sides quiet := (isQuiet_binary quiet).2
  inner quiet := quiet

end Expr

namespace Rules

/-- The writes that evaluation is made of. -/
inductive Writes : Context → Context → Prop where
  /-- A variable gets a new meaning. -/
  | assigned {context : Context} {frame : Nat} {name : String} (value : Handle)
      (owned : Assignment.isHosted context frame name = false) :
      Writes context (context.store frame name (Assignment.bindingFor context frame name value))
  | declared {context : Context} {name : String}
      (fresh : (context.binding? context.current name).isSome = false) :
      Writes context (context.bind name .unset)
  /-- A declared variable gets null, so that it can be changed. -/
  | filled {context : Context} {frame : Nat} {name : String}
      (unset : context.binding? frame name = some .unset) :
      Writes context (context.store frame name (.ofValue .null))
  /-- A value is put where another one was. -/
  | written {context changed : Context} {place : Place} {value : Value}
      (mutable : context.isMutable place = true)
      (done : context.write? place value = some changed) : Writes context changed

theorem setRoot_elsewhere (context : Context) (root : Root) (value : Value) :
    ∃ frames hosted, context.setRoot root value = { context with frames, hosted } := by
  cases root with
  | temp frame index => exact ⟨_, _, rfl⟩
  | slot frame name =>
    unfold Context.setRoot
    dsimp only
    split
    · exact ⟨_, _, rfl⟩
    · exact ⟨_, _, rfl⟩
    · exact ⟨_, _, rfl⟩

theorem reports_setRoot (context : Context) (root : Root) (value : Value) :
    (context.setRoot root value).reports = context.reports := by
  obtain ⟨frames, hosted, same⟩ := setRoot_elsewhere context root value
  rw [same]

/-- Evaluation changes the scopes and the data that the host has lent, and nothing else. -/
theorem Writes.elsewhere {before after : Context} (step : Writes before after) :
    ∃ frames hosted, after = { before with frames, hosted } := by
  cases step with
  | written mutable done =>
    obtain ⟨root, replaced, rfl⟩ := Context.setRoot_of_write? done
    exact setRoot_elsewhere ..
  | _ => exact ⟨_, _, rfl⟩

/-- An invariant and a relation that all writes keep. -/
structure Kept (valid : Context → Prop) (grows : Context → Context → Prop) : Prop where
  growth : Growth grows
  writes : ∀ {before after}, valid before → Writes before after → valid after ∧ grows before after

/-- Through a handle, only roots of a kind can be written to. -/
def Leads (may : Root → Prop) : Handle → Prop
  | .slot frame name => may (.slot frame name)
  | .reference _ place | .vacant place _ => may place.root
  | _ => True

theorem leads_anywhere (handle : Handle) : Leads (fun _ => True) handle := by
  cases handle <;> trivial

/-- An invariant and a relation that are kept wherever a value is put in the place of another one,
or of none, at roots of a kind. -/
structure Overwriting (may : Root → Prop) (valid : Context → Prop) (grows : Context → Context → Prop) :
    Prop where
  growth : Growth grows
  filled : ∀ {context frame name}, may (.slot frame name) → valid context →
    context.binding? frame name = some .unset →
    valid (context.store frame name (.ofValue .null)) ∧
      grows context (context.store frame name (.ofValue .null))
  written : ∀ {context changed place value}, may place.root → valid context →
    context.isMutable place = true → context.write? place value = some changed →
    valid changed ∧ grows context changed

section

variable {valid : Context → Prop} {grows : Context → Context → Prop} {may : Root → Prop}

theorem Kept.overwriting (kept : Kept valid grows) : Overwriting (fun _ => True) valid grows where
  growth := kept.growth
  filled _ holds unset := kept.writes holds (.filled unset)
  written _ holds mutable done := kept.writes holds (.written mutable done)

/-! Writing through handles. -/

theorem write_stays (kept : Overwriting may valid grows) {context : Context} (holds : valid context)
    {place : Place} (leads : may place.root) {value : Value}
    (mutable : (context.resolveMutable? place).isSome = true) :
    valid ((context.write? place value).getD context) ∧
      grows context ((context.write? place value).getD context) := by
  have mutable : context.isMutable place = true := by
    cases fixed : context.isMutable place with
    | true => rfl
    | false => simp [Context.resolveMutable?, fixed] at mutable
  cases done : context.write? place value with
  | none => exact ⟨holds, kept.growth.refl context⟩
  | some changed => exact kept.written leads holds mutable done

theorem writeTo_stays (kept : Overwriting may valid grows) {place : Place} (leads : may place.root)
    (value : Value) : Stays valid grows (Assignment.writeTo place value) := by
  apply Stays.bind_get
  intro context holds
  cases found : context.resolveMutable? place with
  | none => exact ⟨holds, kept.growth.refl context⟩
  | some old => exact write_stays kept holds leads (by rw [found]; rfl)

theorem insertAt_stays (kept : Overwriting may valid grows) {container : Place}
    (leads : may container.root) (key : String) (value : Value) :
    Stays valid grows (Assignment.insertAt container key value) := by
  apply Stays.bind_get
  intro context holds
  cases found : context.resolveMutable? container with
  | none => exact ⟨holds, kept.growth.refl context⟩
  | some old =>
    cases changed : old.insert? key value with
    | none =>
      simp only [changed]
      exact ⟨holds, kept.growth.refl context⟩
    | some grown =>
      simp only [changed]
      exact write_stays kept holds leads (by rw [found]; rfl)

/-- An assignment to anything but a whole variable. -/
theorem assign_inside (kept : Overwriting may valid grows) {target : Handle} (leads : Leads may target)
    (inside : ∀ frame name, target ≠ .slot frame name) (value : Handle) :
    Stays valid grows (Assignment.assign target value) := by
  apply Stays.bind_get
  intro context holds
  cases target with
  | slot frame name => exact absurd rfl (inside frame name)
  | reference mutable place =>
    cases mutable with
    | true =>
      exact Stays.bind kept.growth (writeTo_stays kept leads (context.valueOf value))
        (fun _ => Stays.pure kept.growth _) context holds
    | false => exact ⟨holds, kept.growth.refl context⟩
  | vacant container key =>
    exact Stays.bind kept.growth (insertAt_stays kept leads key (context.valueOf value))
      (fun _ => Stays.pure kept.growth _) context holds
  | _ => exact ⟨holds, kept.growth.refl context⟩

theorem assign_stays (kept : Kept valid grows) (target value : Handle) :
    Stays valid grows (Assignment.assign target value) := by
  by_cases whole : ∃ frame name, target = .slot frame name
  · obtain ⟨frame, name, rfl⟩ := whole
    apply Stays.bind_get
    intro context holds
    cases owned : Assignment.isHosted context frame name with
    | true =>
      have written : Stays valid grows (Assignment.writeTo (.slot frame name) (context.valueOf value)) :=
        writeTo_stays kept.overwriting trivial _
      simp only [owned, if_true]
      exact Stays.bind kept.growth written (fun _ => Stays.pure kept.growth _) context holds
    | false =>
      simp only [owned]
      exact kept.writes holds (.assigned value owned)
  · exact assign_inside kept.overwriting (leads_anywhere target)
      (fun frame name same => whole ⟨frame, name, same⟩) value

theorem prepare_stays (kept : Overwriting may valid grows) {target : Handle} (leads : Leads may target) :
    Stays valid grows (Assignment.prepare target) := by
  intro context holds
  cases target with
  | slot frame name =>
    rw [Assignment.prepare_slot]
    by_cases unset : context.binding? frame name = some .unset
    · rw [unset]
      exact kept.filled leads holds unset
    · rw [Assignment.filling_of_ne unset]
      exact ⟨holds, kept.growth.refl context⟩
  | reference mutable place => cases mutable <;> exact ⟨holds, kept.growth.refl context⟩
  | vacant container key =>
    exact Stays.bind kept.growth (insertAt_stays kept leads key .null)
      (fun _ => Stays.pure kept.growth _) context holds
  | _ => exact ⟨holds, kept.growth.refl context⟩

/-- The place that has been prepared is where the handle leads. -/
theorem prepare_leads {target : Handle} (leads : Leads may target) {context : Context} {place : Place}
    (ready : (Assignment.prepare target context).1 = .ok place) : may place.root := by
  cases target with
  | slot frame name =>
    rw [Assignment.prepare_slot] at ready
    cases ready
    exact leads
  | reference mutable target =>
    cases mutable with
    | true =>
      cases ready
      exact leads
    | false => cases ready
  | vacant container key =>
    change ((Assignment.insertAt container key .null >>= fun _ =>
      pure (container.child (.key key))) context).1 = _ at ready
    rw [bind_eq] at ready
    split at ready
    · cases ready
      exact leads
    · cases ready
  | _ => cases ready

theorem update_stays (kept : Overwriting may valid grows) {target : Handle} (leads : Leads may target)
    (change : Value → Except EvalFault Value) :
    Stays valid grows (Assignment.update target change) := by
  apply Stays.bind_result kept.growth (prepare_stays kept leads)
  intro _ place _ ready
  apply Stays.bind_get
  intro context holds
  cases found : context.resolveMutable? place with
  | none => exact ⟨holds, kept.growth.refl context⟩
  | some old =>
    cases changed : change old with
    | error fault =>
      simp only [changed]
      exact ⟨holds, kept.growth.refl context⟩
    | ok value =>
      simp only [changed]
      exact writeTo_stays kept (prepare_leads leads ready) value context holds

/-! Expressions. -/

theorem valueOf_stays (growth : Growth grows) (handle : Handle) :
    Stays valid grows (Eval.valueOf handle) :=
  .of_unchanged growth fun _ => rfl

theorem deciding_stays (growth : Growth grows) (handle : Handle) :
    Stays valid grows (Eval.deciding handle) :=
  .of_unchanged growth fun _ => rfl

theorem ofResult_stays (growth : Growth grows) (result : Except EvalFault Value) :
    Stays valid grows (Eval.ofResult result) := by
  cases result with
  | ok value => exact Stays.pure growth _
  | error fault => exact Stays.throw growth fault

theorem lookupName_stays (growth : Growth grows) (mode : EvalMode) (name : String) :
    Stays valid grows (Eval.lookupName mode name) := by
  apply Stays.of_unchanged growth
  intro context
  rw [Eval.lookupName_eq]
  cases context.find? name <;> rfl

theorem call_stays (growth : Growth grows) (callee : Handle) (arguments : List Value) :
    Stays valid grows (Eval.call callee arguments) := by
  unfold Eval.call
  split
  · split
    · exact Stays.pure growth _
    · exact Stays.throw growth _
  · exact Stays.throw growth _

/-- The handles that a target may be evaluated to. -/
def Reaches (valid : Context → Prop) (target : Expr) (fits : Handle → Prop) : Prop :=
  ∀ context handle, valid context → (Eval.eval .writing target context).1 = .ok handle → fits handle

/-- Expressions of a kind, and an invariant and a relation that their evaluation keeps: where names are
declared, and where something is assigned to a target or the target is changed. -/
structure Evaluates (valid : Context → Prop) (grows : Context → Context → Prop) (fits : Expr → Prop) :
    Prop where
  growth : Growth grows
  kind : Expr.Hereditary fits
  declared : ∀ {context name}, valid context →
    (context.binding? context.current name).isSome = false →
      valid (context.bind name .unset) ∧ grows context (context.bind name .unset)
  assigned : ∀ {target source}, fits (.binary .assign target source) →
    Reaches valid target fun handle => ∀ value, Stays valid grows (Assignment.assign handle value)
  changed : ∀ {op target source}, fits (.binary op target source) → op.isAssignment = true →
    Reaches valid target fun handle => ∀ change, Stays valid grows (Assignment.update handle change)
  stepped : ∀ {op target}, fits (.unary op target) →
    op = .preIncrement ∨ op = .preDecrement ∨ op = .postIncrement ∨ op = .postDecrement →
    Reaches valid target fun handle => ∀ change, Stays valid grows (Assignment.update handle change)

section

variable {fits : Expr → Prop}

theorem subscriptKey_fits (kind : Expr.Hereditary fits) {expr : Expr} (fitting : fits expr) :
    fits (Eval.subscriptKey expr) := by
  cases expr with
  | bracketed bracket inner => exact kind.inner fitting
  | _ => exact fitting

theorem declare_stays (kept : Evaluates valid grows fits) (name : String) :
    Stays valid grows (Eval.declare name) := by
  apply Stays.bind_get
  intro context holds
  cases known : (context.binding? context.current name).isSome with
  | true =>
    simp only [if_true]
    exact ⟨holds, kept.growth.refl context⟩
  | false => exact kept.declared holds known

theorem stepBefore_stays (growth : Growth grows) {target : Handle}
    (updated : ∀ change, Stays valid grows (Assignment.update target change)) (up : Bool) :
    Stays valid grows (Eval.stepBefore up target) :=
  .bind growth (updated _) fun _ => .pure growth _

theorem stepAfter_stays (growth : Growth grows) {target : Handle}
    (updated : ∀ change, Stays valid grows (Assignment.update target change)) (up : Bool) :
    Stays valid grows (Eval.stepAfter up target) :=
  .bind growth (valueOf_stays growth target) fun _ =>
    .bind growth (updated _) fun _ => .pure growth _

mutual

theorem eval_fitting (kept : Evaluates valid grows fits) (mode : EvalMode) (expr : Expr) :
    fits expr → Stays valid grows (Eval.eval mode expr) := by
  cases expr with
  | name word =>
    intro _
    unfold Eval.eval
    exact lookupName_stays kept.growth mode word
  | literal value =>
    intro _
    unfold Eval.eval
    exact .pure kept.growth _
  | noArguments =>
    intro _
    unfold Eval.eval
    exact .pure kept.growth _
  | emptyArray =>
    intro _
    unfold Eval.eval
    exact .pure kept.growth _
  | emptyDict =>
    intro _
    unfold Eval.eval
    exact .pure kept.growth _
  | bracketed bracket inner =>
    intro fitting
    have smaller (kind : Bracket) := Expr.totalSize_items_bracketed_lt kind inner
    cases bracket with
    | round =>
      unfold Eval.eval
      exact eval_fitting kept mode inner (kept.kind.inner fitting)
    | square =>
      have := smaller .square
      unfold Eval.eval
      exact .bind kept.growth
        (evalItems_fitting kept mode.operand (Expr.items (.bracketed .square inner)) (kept.kind.items fitting))
        fun _ => .pure kept.growth _
    | curly =>
      have := smaller .curly
      unfold Eval.eval
      exact .bind kept.growth
        (evalEntries_fitting kept mode.operand [] (Expr.items (.bracketed .curly inner)) (kept.kind.items fitting))
        fun _ => .pure kept.growth _
  | unary op operand =>
    intro fitting
    have inner (mode : EvalMode) := eval_fitting kept mode operand (kept.kind.operand fitting)
    unfold Eval.eval
    split
    · split
      · exact declare_stays kept _
      · exact .throw kept.growth _
    · have changed := kept.stepped fitting (.inl rfl)
      exact .bind_result kept.growth (inner .writing) fun _ _ holds found =>
        stepBefore_stays kept.growth (changed _ _ holds found) true
    · have changed := kept.stepped fitting (.inr (.inl rfl))
      exact .bind_result kept.growth (inner .writing) fun _ _ holds found =>
        stepBefore_stays kept.growth (changed _ _ holds found) false
    · have changed := kept.stepped fitting (.inr (.inr (.inl rfl)))
      exact .bind_result kept.growth (inner .writing) fun _ _ holds found =>
        stepAfter_stays kept.growth (changed _ _ holds found) true
    · have changed := kept.stepped fitting (.inr (.inr (.inr rfl)))
      exact .bind_result kept.growth (inner .writing) fun _ _ holds found =>
        stepAfter_stays kept.growth (changed _ _ holds found) false
    · exact .bind kept.growth (inner mode.operand) fun _ =>
        .bind kept.growth (valueOf_stays kept.growth _) fun _ => ofResult_stays kept.growth _
    · exact .bind kept.growth (inner mode.operand) fun _ =>
        .bind kept.growth (valueOf_stays kept.growth _) fun _ => ofResult_stays kept.growth _
    · exact .bind kept.growth (inner mode.operand) fun _ =>
        .bind kept.growth (valueOf_stays kept.growth _) fun _ => ofResult_stays kept.growth _
    · exact .throw kept.growth _
  | binary op left right =>
    intro fitting
    obtain ⟨leftFits, rightFits⟩ := kept.kind.sides fitting
    have first (mode : EvalMode) := eval_fitting kept mode left leftFits
    have second (mode : EvalMode) := eval_fitting kept mode right rightFits
    unfold Eval.eval
    split
    · exact .bind kept.growth (first mode.operand) fun _ => .of_unchanged kept.growth fun _ => rfl
    · have := Eval.sizeOf_subscriptKey_le right
      have key := eval_fitting kept mode.operand (Eval.subscriptKey right) (subscriptKey_fits kept.kind rightFits)
      exact .bind kept.growth (first mode.operand) fun _ => .bind kept.growth key fun _ =>
        .bind kept.growth (valueOf_stays kept.growth _) fun _ =>
          .of_unchanged kept.growth fun _ => rfl
    · have := Expr.totalSize_items_le right
      have arguments := evalItems_fitting kept mode.operand (Expr.items right) (kept.kind.items rightFits)
      exact .bind kept.growth (first mode.operand) fun _ => .bind kept.growth arguments fun _ =>
        call_stays kept.growth _ _
    · apply Stays.bind kept.growth (first mode.operand)
      intro handle
      apply Stays.bind_get
      intro context holds
      cases context.truthy handle with
      | true =>
        exact Stays.bind kept.growth (second mode.operand) (deciding_stays kept.growth) context holds
      | false => exact deciding_stays kept.growth handle context holds
    · apply Stays.bind kept.growth (first mode.operand)
      intro handle
      apply Stays.bind_get
      intro context holds
      cases context.truthy handle with
      | true => exact deciding_stays kept.growth handle context holds
      | false =>
        exact Stays.bind kept.growth (second mode.operand) (deciding_stays kept.growth) context holds
    · cases left with
      | binary link condition chosen =>
        obtain ⟨conditionFits, chosenFits⟩ := kept.kind.sides leftFits
        have decision := eval_fitting kept .guard condition conditionFits
        have chosen := eval_fitting kept mode chosen chosenFits
        split
        · rename_i eq
          cases eq
          apply Stays.bind kept.growth decision
          intro handle
          apply Stays.bind_get
          intro context holds
          cases context.truthy handle with
          | true => exact chosen context holds
          | false => exact second mode context holds
        · exact .throw kept.growth _
      | _ => exact .throw kept.growth _
    · exact .bind kept.growth (first mode.operand) fun _ => second mode
    · exact .bind kept.growth (second mode.operand) fun _ =>
        .bind_result kept.growth (first .writing) fun _ _ holds found =>
          kept.assigned fitting _ _ holds found _
    · split
      · rename_i assigns
        exact .bind kept.growth (second mode.operand) fun _ =>
          .bind kept.growth (valueOf_stays kept.growth _) fun _ =>
            .bind_result kept.growth (first .writing) fun _ _ holds found =>
              .bind kept.growth (kept.changed fitting assigns _ _ holds found _) fun _ => .pure kept.growth _
      · split
        · exact .bind kept.growth (first mode.operand) fun _ =>
            .bind kept.growth (second mode.operand) fun _ =>
              .bind kept.growth (valueOf_stays kept.growth _) fun _ =>
                .bind kept.growth (valueOf_stays kept.growth _) fun _ => ofResult_stays kept.growth _
        · exact .throw kept.growth _
termination_by 2 * sizeOf expr
decreasing_by
  all_goals
    simp only [Expr.unary.sizeOf_spec, Expr.binary.sizeOf_spec, Expr.bracketed.sizeOf_spec] at *
    omega

theorem evalItems_fitting (kept : Evaluates valid grows fits) (mode : EvalMode)
    (items : List Expr) : (∀ item ∈ items, fits item) →
      Stays valid grows (Eval.evalItems mode items) := by
  cases items with
  | nil =>
    intro _
    unfold Eval.evalItems
    exact .pure kept.growth _
  | cons item rest =>
    intro fitting
    have := Expr.sizeOf_pos item
    have first := eval_fitting kept mode item (fitting item (List.mem_cons_self ..))
    have others := evalItems_fitting kept mode rest fun other member =>
      fitting other (List.mem_cons_of_mem _ member)
    unfold Eval.evalItems
    exact .bind kept.growth first fun _ =>
      .bind kept.growth (valueOf_stays kept.growth _) fun _ =>
        .bind kept.growth others fun _ => .pure kept.growth _
termination_by 2 * Expr.totalSize items + 1
decreasing_by
  all_goals
    simp only [Expr.totalSize_cons]
    omega

theorem evalEntries_fitting (kept : Evaluates valid grows fits) (mode : EvalMode)
    (dict : List (String × Value)) (items : List Expr) :
    (∀ item ∈ items, fits item) →
      Stays valid grows (Eval.evalEntries mode dict items) := by
  cases items with
  | nil =>
    intro _
    unfold Eval.evalEntries
    exact .pure kept.growth _
  | cons item rest =>
    intro fitting
    have := Expr.sizeOf_pos item
    unfold Eval.evalEntries
    split
    · exact .throw kept.growth _
    · rename_i key element found
      have := Expr.sizeOf_entry?_lt found
      obtain ⟨keyFits, elementFits⟩ := kept.kind.entry? (fitting item (List.mem_cons_self ..)) found
      have others := fun dict => evalEntries_fitting kept mode dict rest fun other member =>
        fitting other (List.mem_cons_of_mem _ member)
      have goesOn : ∀ name, Stays valid grows (do
          let value ← Eval.valueOf (← Eval.eval mode element)
          Eval.evalEntries mode (Entries.insert name value dict) rest) := fun _ =>
        .bind kept.growth (eval_fitting kept mode element elementFits) fun _ =>
          .bind kept.growth (valueOf_stays kept.growth _) fun _ => others _
      dsimp only
      split
      · exact .bind kept.growth (.pure kept.growth _) goesOn
      · exact .bind kept.growth (eval_fitting kept mode key keyFits) fun _ =>
          .bind kept.growth (valueOf_stays kept.growth _) fun _ =>
            .bind kept.growth (.pure kept.growth _) goesOn
termination_by 2 * Expr.totalSize items + 1
decreasing_by
  all_goals
    simp only [Expr.totalSize_cons]
    omega

end

end

/-- An invariant and a relation that evaluation keeps where names are declared, and with `writes`
also where something is assigned or changed. -/
structure Evaluating (valid : Context → Prop) (grows : Context → Context → Prop) (writes : Bool) :
    Prop where
  growth : Growth grows
  declared : ∀ {context name}, valid context →
    (context.binding? context.current name).isSome = false →
      valid (context.bind name .unset) ∧ grows context (context.bind name .unset)
  assigned : writes = true → ∀ target value, Stays valid grows (Assignment.assign target value)
  updated : writes = true → ∀ target change, Stays valid grows (Assignment.update target change)

theorem Kept.evaluating (kept : Kept valid grows) : Evaluating valid grows true where
  growth := kept.growth
  declared holds fresh := kept.writes holds (.declared fresh)
  assigned _ := assign_stays kept
  updated _ target := update_stays kept.overwriting (leads_anywhere target)

/-- An expression with no other writes than those that are kept. -/
def Makes (writes : Bool) (expr : Expr) : Prop := writes = true ∨ expr.isQuiet = true

section

variable {writes : Bool}

theorem Makes.operand {op : Op} {operand : Expr} (makes : Makes writes (.unary op operand)) :
    Makes writes operand :=
  makes.imp id fun quiet => (Expr.isQuiet_unary quiet).2

/-- Only where values may be written is something stepped up or down. -/
theorem Makes.stepped {op : Op} {operand : Expr} (makes : Makes writes (.unary op operand))
    (steps : op = .preIncrement ∨ op = .preDecrement ∨ op = .postIncrement ∨ op = .postDecrement) :
    writes = true := by
  refine makes.resolve_right fun quiet => ?_
  obtain ⟨⟨notFirst, notSecond, notThird, notFourth⟩, -⟩ := Expr.isQuiet_unary quiet
  rcases steps with same | same | same | same
  · exact notFirst same
  · exact notSecond same
  · exact notThird same
  · exact notFourth same

theorem Makes.left {op : Op} {left right : Expr} (makes : Makes writes (.binary op left right)) :
    Makes writes left :=
  makes.imp id fun quiet => (Expr.isQuiet_binary quiet).2.1

theorem Makes.right {op : Op} {left right : Expr} (makes : Makes writes (.binary op left right)) :
    Makes writes right :=
  makes.imp id fun quiet => (Expr.isQuiet_binary quiet).2.2

theorem Makes.assigns {op : Op} {left right : Expr} (makes : Makes writes (.binary op left right))
    (assigns : op.isAssignment = true) : writes = true := by
  refine makes.resolve_right fun quiet => ?_
  rw [(Expr.isQuiet_binary quiet).1] at assigns
  cases assigns

theorem Makes.inner {bracket : Bracket} {inner : Expr}
    (makes : Makes writes (.bracketed bracket inner)) : Makes writes inner :=
  makes

theorem Makes.items {expr : Expr} (makes : Makes writes expr) :
    ∀ item ∈ expr.items, Makes writes item :=
  fun item member => makes.imp id fun quiet => Expr.quiet_hereditary.items quiet item member

theorem Makes.subscriptKey {expr : Expr} (makes : Makes writes expr) :
    Makes writes (Eval.subscriptKey expr) := by
  cases expr with
  | bracketed bracket inner => exact makes.inner
  | _ => exact makes

theorem makes_hereditary : Expr.Hereditary (Makes writes) where
  operand := Makes.operand
  sides makes := ⟨makes.left, makes.right⟩
  inner := Makes.inner

theorem Evaluating.kind (kept : Evaluating valid grows writes) : Evaluates valid grows (Makes writes) where
  growth := kept.growth
  kind := makes_hereditary
  declared := kept.declared
  assigned makes _ handle _ _ := kept.assigned (makes.assigns rfl) handle
  changed makes assigns _ handle _ _ := kept.updated (makes.assigns assigns) handle
  stepped makes steps _ handle _ _ := kept.updated (makes.stepped steps) handle

theorem eval_keeps (kept : Evaluating valid grows writes) (mode : EvalMode) (expr : Expr) :
    Makes writes expr → Stays valid grows (Eval.eval mode expr) :=
  eval_fitting kept.kind mode expr

theorem evalItems_keeps (kept : Evaluating valid grows writes) (mode : EvalMode) (items : List Expr) :
    (∀ item ∈ items, Makes writes item) → Stays valid grows (Eval.evalItems mode items) :=
  evalItems_fitting kept.kind mode items

theorem evalEntries_keeps (kept : Evaluating valid grows writes) (mode : EvalMode)
    (dict : List (String × Value)) (items : List Expr) :
    (∀ item ∈ items, Makes writes item) → Stays valid grows (Eval.evalEntries mode dict items) :=
  evalEntries_fitting kept.kind mode dict items

end

theorem eval_stays (kept : Kept valid grows) (mode : EvalMode) (expr : Expr) :
    Stays valid grows (Eval.eval mode expr) :=
  eval_keeps kept.evaluating mode expr (.inl rfl)

theorem evalItems_stays (kept : Kept valid grows) (mode : EvalMode) (items : List Expr) :
    Stays valid grows (Eval.evalItems mode items) :=
  evalItems_keeps kept.evaluating mode items fun _ _ => .inl rfl

end

end Rules

end HtmlTemplate
