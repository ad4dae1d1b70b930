import HtmlTemplate.Proofs.Steps.Counting
import HtmlTemplate.Proofs.Steps.Limits

/-! The cost of loops, of calls and of whole runs. No more bodies are run than steps are allowed, and a
run that meets its bound on loops and calls has been allowed as many steps. So under a larger limit, or with a
larger bound, it goes on as it did. -/

namespace HtmlTemplate.Steps

open Rules Context

section

variable {limit spare bound : Nat} {α β : Type}

namespace Costs

variable {body : RunM Unit}

/-! Loops. -/

theorem eachStep {enter : α → Context → Context} (idle : ∀ item, Keeps (fun _ => True) Idle (enter item))
    (costs : Costs limit 0 bound body) (items : List α) :
    Costs limit 0 bound (Render.eachStep enter body items) := by
  induction items with
  | nil => exact .pure ()
  | cons item rest step =>
    have pass : Costs limit 1 bound (Render.inScope do
        Render.modifyContext (enter item)
        Render.stepping body) :=
      .inScope (.after (.modifyContext (idle item)) fun _ => .stepping costs)
    refine .granting ?_ (.pure ())
    exact (Costs.bind pass fun _ => step).weaken (Nat.sub_le ..) (Nat.le_refl _)

theorem loop (costs : Costs limit 0 bound body) (item : String) (key : Option String) (source : Expr)
    (hasElse : Bool) : Costs limit 0 bound (Render.loop item key source hasElse body) := by
  apply Costs.after (.inContext (evaluate_acts idle_kept .strict source))
  intro handle
  apply Costs.after (.inContext (loopSource_acts idle_kept handle))
  intro found
  cases found with
  | empty => exact .pure false
  | scalar value =>
    cases hasElse with
    | true => exact .pure false
    | false =>
      refine .bind (eachStep (fun _ => ?_) costs [()]) fun _ => .pure true
      exact enterScalar_keeps idle_kept item key value
  | array place length mutable =>
    exact .bind (eachStep (enterElement_idle item key place mutable) costs _) fun _ => .pure true
  | dict place keys mutable =>
    exact .bind (eachStep (enterEntry_idle item key place mutable) costs keys) fun _ => .pure true

theorem guardedPass (costs : Costs limit 0 bound body) (guard : Expr) :
    Costs limit 0 bound (Render.guardedPass guard body) := by
  apply Costs.after (.inContext (holds_acts idle_kept guard))
  intro again
  cases again with
  | false => exact .pure false
  | true =>
    refine .granting ?_ (.pure false)
    exact (Costs.bind (.stepping costs) fun _ => .pure true).weaken (Nat.sub_le ..) (Nat.le_refl _)

/-- A step has been allowed to a pass that another one follows. -/
theorem guardedPass_gains (costs : Costs limit 0 bound body) (guard : Expr) :
    Gains limit Bool.toNat (Render.guardedPass guard body) := by
  apply Gains.after (.inContext (holds_acts idle_kept guard))
  intro again
  cases again with
  | false => exact .pure rfl
  | true =>
    refine .granting ?_ (.pure rfl)
    intro state limited value after ran
    obtain ⟨_, last, stepped, ended⟩ := bind_ok ran
    cases ended
    exact Gains.of_costs (stepping costs) state limited _ _ stepped

/-- A loop by a guard that has been run as often as it may be has been allowed as many steps. -/
theorem whileStep (costs : Costs limit 0 bound body) (guard : Expr) {passes : Nat} (few : passes ≤ bound) :
    Costs limit 0 passes (Render.whileStep guard body passes) := by
  induction passes with
  | zero =>
    intro state limited
    exact ⟨limited.stepLimit, rfl, Nat.le_refl _, Nat.le_refl _, rfl, fun _ => Nat.le_of_eq (Nat.zero_add _)⟩
  | succ passes step =>
    have pass := (guardedPass costs guard).inScope.weaken few (Nat.le_refl _)
    refine (guardedPass_gains costs guard).inScope.bind pass fun again => ?_
    cases again with
    | false => exact .pure ()
    | true => exact step (Nat.le_of_succ_le few)

/-! Calls. -/

/-- What follows when a mixin has been called: a step has been allowed for the body. -/
theorem calling {name : String} {arguments : Option Expr} {next : Option (List Chunk) → RunM α}
    (runs : ∀ body, Costs limit 1 (bound - 1) (next (some body)))
    (fails : Costs limit 0 bound (next none)) :
    Costs limit 0 bound (Render.enterCall name arguments >>= next) := by
  have entering (mixin : Mixin) (values : List Value) :
      Costs limit 0 bound (Render.callMixin mixin values >>= next) := by
    have entered : Costs limit 1 (bound - 1) ((do
        if ← Render.inContext (mixin.enter values) then return some mixin.body
        return none) >>= next) := by
      rw [bind_assoc]
      apply Costs.after (.inContext (enter_idle mixin values))
      intro entered
      cases entered with
      | true => exact runs mixin.body
      | false => exact fails.weaken (Nat.sub_le ..) (Nat.zero_le _)
    unfold Render.callMixin
    rw [bind_assoc]
    exact .granting entered fails
  unfold Render.enterCall
  rw [bind_assoc]
  apply Costs.after .getContext
  intro context
  cases context.mixin? name with
  | none =>
    have other : EvalFault.mixinNotFound name ≠ .stepLimit := nofun
    rw [bind_assoc]
    exact .after (.modifyContext fun context _ => ⟨trivial, .reported other context⟩) fun _ => fails
  | some mixin =>
    cases arguments with
    | none => exact entering mixin []
    | some arguments =>
      dsimp only
      rw [bind_assoc]
      apply Costs.after (.inContext (execArguments_acts idle_kept arguments))
      intro values
      cases values with
      | none => exact fails
      | some values => exact entering mixin values

/-! Included templates. There are none, so nothing but the name is written. -/

theorem runInclude (again : RunOptions → List Chunk → RunM Unit) (options : RunOptions) (name : String)
    (depth : Nat) : Costs limit 0 bound (Render.runInclude again options name depth) := by
  have missed : Costs limit 0 bound (Render.missed options name depth) := by
    have noted : Costs limit 0 bound (Render.write (Render.comment ("fail to include " ++ name))) :=
      .of_rests (.write _)
    unfold Render.missed
    split
    · exact .after (.write "") fun _ => noted
    · exact noted
  intro state limited
  rw [Render.runInclude_missing again options depth (limited.alone name)]
  exact missed state limited

end Costs

/-- What is run by its name costs one step less than the bound allows. -/
def AllCost (limit bound : Nat) (again : RunOptions → List Chunk → RunM Unit) : Prop :=
  ∀ options chunks, Costs limit 0 (bound - 1) (again options chunks)

theorem costs_composes {again : RunOptions → List Chunk → RunM Unit} (cost : AllCost limit bound again) :
    Composes (Twice (Costs limit 0 bound)) (fun _ => True) True again again bound bound where
  pure value := ⟨rfl, .pure value⟩
  bind twice goesOn := twice.bind .bind goesOn
  began := ⟨rfl, .of_rests (.note nofun)⟩
  entered := ⟨rfl, .of_rests (.note nofun)⟩
  written text := ⟨rfl, .of_rests (.write text)⟩
  flushed options := ⟨rfl, .of_rests (.flushReports options)⟩
  escaping twice := .bind .bind ⟨rfl, .of_rests .getContext⟩ fun context => twice context.escapeOutput
  valued {expr} _ := ⟨rfl, .of_rests (.inContext (execValue?_acts idle_kept expr))⟩
  held {guard} _ := ⟨rfl, .of_rests (.inContext (holds_acts idle_kept guard))⟩
  inScope := by
    rintro α part _ ⟨rfl, costs⟩
    exact ⟨rfl, costs.inScope⟩
  looped := by
    rintro source - item key hasElse body _ ⟨rfl, costs⟩
    exact ⟨rfl, costs.loop item key source hasElse⟩
  repeated := by
    rintro guard - body _ ⟨rfl, costs⟩
    exact ⟨rfl, costs.whileStep guard (Nat.le_refl _)⟩
  defined name {signature body} _ _ :=
    ⟨rfl, .of_rests (.modifyContext (define_keeps idle_kept name signature body))⟩
  called name {arguments} _ options := by
    refine ⟨rfl, .calling (fun body => ?_) (.pure ())⟩
    exact .closing (.after (.note nofun) fun _ => .stepping (cost options body))
  included _ options name depth := ⟨rfl, .runInclude again options name depth⟩

theorem run_costs (limit bound : Nat) (options : RunOptions) (chunks : List Chunk) :
    Costs limit 0 (bound - 1) (Render.run bound options chunks) := by
  induction bound generalizing options chunks with
  | zero =>
    intro state limited
    exact ⟨limited.stepLimit, rfl, Nat.le_refl _, Nat.le_refl _, rfl, fun _ => Nat.le_of_eq (Nat.zero_add _)⟩
  | succ bound step =>
    exact (runChunks_composes (costs_composes step) options .closed chunks (.everything chunks)).2

end

/-! Runs under another limit on steps and with a larger bound on loops and calls. -/

section

variable {limit other : Option Nat} {α β : Type}

namespace Follows

variable {body following : RunM Unit}

theorem stepping (follows : Follows limit other body following) :
    Follows limit other (Render.stepping body) (Render.stepping following) :=
  .bind (.note .stepped) fun _ => follows

/-! Loops. -/

theorem eachStep (limits : limit = other ∨ limit = none) {enter : α → Context → Context}
    (keeps : ∀ item, Keeps (fun _ => True) Idle (enter item))
    (commutes : ∀ item, Commutes (·.withLimit other) (enter item))
    (follows : Follows limit other body following) (items : List α) :
    Follows limit other (Render.eachStep enter body items) (Render.eachStep enter following items) := by
  induction items with
  | nil => exact .pure ()
  | cons item rest step =>
    apply Follows.bind (.step limits)
    intro counted
    cases counted with
    | false => exact .pure ()
    | true =>
      have pass := Follows.bind (.modifyContext (keeps item) (commutes item)) fun _ => follows.stepping
      exact .bind pass.inScope fun _ => step

theorem loop (limits : limit = other ∨ limit = none) (follows : Follows limit other body following)
    (item : String) (key : Option String) (source : Expr) (hasElse : Bool) :
    Follows limit other (Render.loop item key source hasElse body)
      (Render.loop item key source hasElse following) := by
  have unseen := limit_unseen other
  apply Follows.bind (.inContext (evaluate_acts idle_kept .strict source)
    (evaluate_ignores unseen .strict source))
  intro handle
  apply Follows.bind (.inContext (loopSource_acts idle_kept handle) (loopSource_ignores unseen handle))
  intro found
  cases found with
  | empty => exact .pure false
  | scalar value =>
    cases hasElse with
    | true => exact .pure false
    | false =>
      refine .bind (eachStep limits (fun _ => ?_) ?_ follows [()]) fun _ => .pure true
      · exact enterScalar_keeps idle_kept item key value
      · exact enterScalar_commutes unseen item key value
  | array place length mutable =>
    refine .bind (eachStep limits ?_ ?_ follows _) fun _ => .pure true
    · exact enterElement_idle item key place mutable
    · exact enterElement_commutes unseen item key place mutable
  | dict place keys mutable =>
    refine .bind (eachStep limits ?_ ?_ follows keys) fun _ => .pure true
    · exact enterEntry_idle item key place mutable
    · exact enterEntry_commutes unseen item key place mutable

theorem guardedPass (limits : limit = other ∨ limit = none) (follows : Follows limit other body following)
    (guard : Expr) : Follows limit other (Render.guardedPass guard body) (Render.guardedPass guard following) := by
  apply Follows.bind (.inContext (holds_acts idle_kept guard) (holds_ignores (limit_unseen other) guard))
  intro again
  cases again with
  | false => exact .pure false
  | true =>
    apply Follows.bind (.step limits)
    intro counted
    cases counted with
    | false => exact .pure false
    | true => exact .bind follows.stepping fun _ => .pure true

/-- A loop by a guard may be run more often in the second run. -/
theorem whileStep (limits : limit = other ∨ limit = none) (follows : Follows limit other body following)
    (guard : Expr) {passes more : Nat} (fewer : passes ≤ more) :
    Follows limit other (Render.whileStep guard body passes) (Render.whileStep guard following more) := by
  induction passes generalizing more with
  | zero => exact .exhausted _
  | succ passes step =>
    obtain ⟨more, rfl⟩ : ∃ less, more = less + 1 := ⟨more - 1, by omega⟩
    apply Follows.bind (follows.guardedPass limits guard).inScope
    intro again
    cases again with
    | false => exact .pure ()
    | true => exact step (Nat.le_of_succ_le_succ fewer)

/-! Calls. -/

theorem enter (mixin : Mixin) (arguments : List Value) :
    Follows limit other (Render.inContext (mixin.enter arguments))
      (Render.inContext (mixin.enter arguments)) := by
  refine .inContext (enter_idle mixin arguments) fun context => ?_
  have opened : (context.withLimit other).pushScope = context.pushScope.withLimit other := rfl
  have bound : Mixin.bindParameters mixin.name mixin.parameters arguments
      (context.pushScope.withLimit other) = _ :=
    bindParameters_ignores (limit_unseen other) mixin.name mixin.parameters arguments context.pushScope
  unfold Mixin.enter
  dsimp only
  rw [opened, bound]
  generalize Mixin.bindParameters mixin.name mixin.parameters arguments context.pushScope = result
  obtain ⟨complete, after⟩ := result
  cases complete with
  | true => rfl
  | false => exact congrArg (Prod.mk false) (popScope_withLimit after other)

theorem enterCall (limits : limit = other ∨ limit = none) (name : String) (arguments : Option Expr) :
    Follows limit other (Render.enterCall name arguments) (Render.enterCall name arguments) := by
  have entering (mixin : Mixin) (values : List Value) :
      Follows limit other (Render.callMixin mixin values) (Render.callMixin mixin values) := by
    apply Follows.bind (.step limits)
    intro counted
    cases counted with
    | false => exact .pure none
    | true =>
      apply Follows.bind (enter mixin values)
      intro entered
      cases entered with
      | false => exact .pure none
      | true => exact .pure (some mixin.body)
  apply Follows.reading
  intro context
  have same : (context.withLimit other).mixin? name = context.mixin? name := rfl
  rw [same]
  cases context.mixin? name with
  | none =>
    have fault : EvalFault.mixinNotFound name ≠ .stepLimit := nofun
    exact .bind (.modifyContext (idle_kept.reported fault) fun _ => rfl) fun _ => .pure none
  | some mixin =>
    cases arguments with
    | none => exact entering mixin []
    | some arguments =>
      apply Follows.bind (.inContext (execArguments_acts idle_kept arguments)
        (execArguments_ignores (limit_unseen other) arguments))
      intro values
      cases values with
      | none => exact .pure none
      | some values => exact entering mixin values

/-! Mixins and included templates. -/

theorem define (name : String) (signature : Expr) (body : List Chunk) :
    Follows limit other (Render.modifyContext (Render.define name signature body))
      (Render.modifyContext (Render.define name signature body)) := by
  refine .modifyContext (define_keeps idle_kept name signature body) fun context => ?_
  unfold Render.define
  dsimp only
  cases Mixin.ofDefinition name signature body with
  | error fault => rfl
  | ok mixin =>
    dsimp only [Bind.bind, Except.bind]
    rw [defineMixin_withLimit]
    cases context.defineMixin mixin <;> rfl

theorem leaving {first second : RunM α} (follows : Follows limit other first second) :
    Follows limit other (Render.leaving first) (Render.leaving second) := by
  intro state limited
  exact (follows state limited).settle (fun ended => (ended.1, ended.2.remember .left))
    (fun ended => Idle.growth.refl ended.2.context) (fun _ => rfl) fun _ => rfl

theorem captured {first second : RunM α} (follows : Follows limit other first second) :
    Follows limit other (Render.captured first) (Render.captured second) := by
  intro state limited
  have followed := follows { state with sink := .unlimited } limited
  obtain ⟨stepLimit, steps, same⟩ := followed.settle
    (fun ended => (ended.1.map fun value => (value, ended.2.sink.text), { ended.2 with sink := state.sink }))
    (fun ended => Idle.growth.refl ended.2.context) (fun _ => rfl) fun _ => rfl
  exact ⟨stepLimit, steps, same⟩

theorem attempted {first second : RunM Unit} (follows : Follows limit other first second) :
    Follows limit other (Render.attempted first) (Render.attempted second) := by
  intro state limited
  refine (follows state limited).settle (fun ended => Render.attempted (fun _ => ended) ended.2) ?_ (fun _ => rfl) ?_
  · rintro ⟨halt | value, after⟩
    · cases halt <;> exact Idle.growth.refl after.context
    · exact Idle.growth.refl after.context
  · rintro ⟨halt | value, after⟩
    · cases halt <;> rfl
    · rfl

end Follows

/-- What is run by its name is followed under the other limit. -/
def AllFollow (limit other : Option Nat) (again twin : RunOptions → List Chunk → RunM Unit) : Prop :=
  ∀ options chunks, Follows limit other (again options chunks) (twin options chunks)

section

variable {again twin : RunOptions → List Chunk → RunM Unit} {bound more : Nat}

theorem included_follows (follow : AllFollow limit other again twin) (name : String) :
    Follows limit other (Render.included again name) (Render.included twin name) := by
  apply Follows.reading
  intro context
  have same : (context.withLimit other).loader name = context.loader name := rfl
  rw [same]
  cases context.loader name with
  | missing => exact .pure false
  | failed note =>
    exact .bind (.modifyContext (fun _ _ => ⟨trivial, rfl, rfl, rfl, rfl⟩) fun _ => rfl)
      fun _ => .pure false
  | template template =>
    exact .bind (.modifyContext idle_kept.forgotten fun _ => rfl) fun _ =>
      .attempted (.leaving (follow template.runOptions template.chunks))

theorem runInclude_follows (follow : AllFollow limit other again twin) (options : RunOptions)
    (name : String) (depth : Nat) :
    Follows limit other (Render.runInclude again options name depth)
      (Render.runInclude twin options name depth) := by
  have noted (complete : Bool) : Follows limit other
      (if !complete then Render.write (Render.comment ("fail to include " ++ name)) else return)
      (if !complete then Render.write (Render.comment ("fail to include " ++ name)) else return) := by
    cases complete with
    | true => exact .pure ()
    | false => exact .write _
  unfold Render.runInclude
  dsimp only
  split
  · refine .bind (.captured (included_follows follow name)) fun result => ?_
    exact .bind (.write _) fun _ => .bind (.pure _) noted
  · exact .bind (included_follows follow name) noted

theorem follows_composes (limits : limit = other ∨ limit = none)
    (follow : AllFollow limit other again twin) (fewer : bound ≤ more) :
    Composes (Follows limit other) (fun _ => True) True again twin bound more where
  pure := .pure
  bind := .bind
  began := .note .began
  entered := .note .entered
  written := .write
  flushed := .flushReports
  escaping follows := .reading fun context => follows context.escapeOutput
  valued _ := .inContext (execValue?_acts idle_kept _) (execValue?_ignores (limit_unseen other) _)
  held _ := .inContext (holds_acts idle_kept _) (holds_ignores (limit_unseen other) _)
  inScope := .inScope
  looped _ item key hasElse _ _ follows := follows.loop limits item key _ hasElse
  repeated _ _ _ follows := follows.whileStep limits _ fewer
  defined name _ _ _ _ := .define name _ _
  called name arguments _ options := by
    refine .bind (.enterCall limits name arguments) fun found => ?_
    cases found with
    | none => exact .pure ()
    | some body => exact .closing (.bind (.note .entered) fun _ => .stepping (follow options body))
  included _ options name depth := runInclude_follows follow options name depth

end

/-- With a larger bound a run goes on from where it would have met the smaller one. -/
theorem run_follows (limits : limit = other ∨ limit = none) {bound more : Nat} (fewer : bound ≤ more)
    (options : RunOptions) (chunks : List Chunk) :
    Follows limit other (Render.run bound options chunks) (Render.run more options chunks) := by
  induction bound generalizing more options chunks with
  | zero => exact .exhausted _
  | succ bound step =>
    obtain ⟨more, rfl⟩ : ∃ less, more = less + 1 := ⟨more - 1, by omega⟩
    have less := Nat.le_of_succ_le_succ fewer
    exact runChunks_composes (follows_composes limits (step less) less) options .closed chunks
      (.everything chunks)

end

/-! Runs under a limit on steps. -/

section

variable {template : Template} {context : Context} {sink : Sink} {limit : Nat}

/-- What a run begins with after a limit on steps has been set. -/
def start (context : Context) (limit : Option Nat) (sink : Sink) : RunState :=
  { context := (context.setStepLimit limit).forgetLast, sink }

theorem run_paid (template : Template) (sink : Sink) (limit bound : Nat)
    (alone : ∀ name, context.loader name = .missing) :
    Paid limit 0 (bound - 1) (start context (some limit) sink)
      (template.run bound (context.setStepLimit (some limit)) sink) :=
  run_costs limit bound template.runOptions template.chunks _ ⟨rfl, alone⟩

/-- With two more loops and calls than steps a run comes to its end. -/
theorem run_ends (template : Template) (sink : Sink) (alone : ∀ name, context.loader name = .missing)
    {bound : Nat} (enough : limit + 2 ≤ bound) :
    (template.run bound (context.setStepLimit (some limit)) sink).1 ≠ .error .exhausted := by
  intro exhausted
  have allowed := (run_paid template sink limit bound alone).exhausted exhausted
  have most := Nat.min_le_right
    (template.run bound (context.setStepLimit (some limit)) sink).2.context.steps limit
  unfold granted at allowed
  omega

theorem run_followed (template : Template) (context : Context) (sink : Sink) {limit other : Option Nat}
    (limits : limit = other ∨ limit = none) {bound more : Nat} (fewer : bound ≤ more) :
    Followed limit other (start context limit sink)
      (template.run bound (context.setStepLimit limit) sink)
      (template.run more (context.setStepLimit other) sink) :=
  run_follows limits fewer template.runOptions template.chunks _ rfl

/-- With any larger bound a run does the same. -/
theorem run_settled (template : Template) (sink : Sink) (alone : ∀ name, context.loader name = .missing)
    {bound : Nat} (enough : limit + 2 ≤ bound) :
    template.run bound (context.setStepLimit (some limit)) sink =
      template.run (limit + 2) (context.setStepLimit (some limit)) sink := by
  obtain ⟨stepLimit, -, same⟩ :=
    run_followed template context sink (.inl (rfl : some limit = some limit)) enough
  rcases same with exhausted | ⟨unlimited, -⟩ | same
  · exact absurd exhausted (run_ends template sink alone (Nat.le_refl _))
  · cases unlimited
  · rw [same, RunState.withLimit_self _ stepLimit]

/-- A limit on steps, with the count at zero and no template to include. With as many loops and calls
as it takes, which is two more than the limit at most, a run comes to its end, and it is always the
same one. It runs no more bodies of loops and mixins than the limit allows, also when it is broken off;
that there are no steps left is reported once if the run asks for more of them, and never otherwise. If
a run without a limit comes to its end with no more steps than that, both end alike, with the same
output and in the same context, but for the limit itself. -/
theorem limited_runs (template : Template) (context : Context) (sink : Sink) (limit : Nat)
    (alone : ∀ name, context.loader name = .missing) :
    let run := fun bound => template.run bound (context.setStepLimit (some limit)) sink
    let free := fun bound => template.run bound (context.setStepLimit none) sink
    (∀ bound, limit + 2 ≤ bound →
      (run bound).1 ≠ .error .exhausted ∧ run bound = run (limit + 2)) ∧
    (∀ bound, (run bound).2.bodies ≤ limit) ∧
    (∀ bound, (run bound).2.context.refusals =
      context.refusals + if limit < (run bound).2.context.steps then 1 else 0) ∧
    ∀ bound other, limit + 2 ≤ other → (free bound).1 ≠ .error .exhausted →
      (free bound).2.context.steps ≤ limit →
        run other = ((free bound).1, (free bound).2.withLimit (some limit)) := by
  intro run free
  have fresh : (start context (some limit) sink).context.granted limit = 0 := Nat.zero_min limit
  refine ⟨?_, ?_, ?_, ?_⟩
  · intro bound enough
    exact ⟨run_ends template sink alone enough, run_settled template sink alone enough⟩
  · intro bound
    have bodies := (run_paid template sink limit bound alone).bodies
    rw [fresh] at bodies
    exact Nat.le_trans bodies ((Nat.zero_add _).symm ▸ Nat.min_le_right ..)
  · intro bound
    exact (run_paid template sink limit bound alone).refusals
  · intro bound other enough ends few
    have more : limit + 2 ≤ max bound other := Nat.le_trans enough (Nat.le_max_right ..)
    have settled : run other = run (max bound other) :=
      (run_settled template sink alone enough).trans (run_settled template sink alone more).symm
    have followed := run_followed template context sink
      (.inr rfl : none = some limit ∨ (none : Option Nat) = none) (Nat.le_max_left bound other)
    rcases followed.same with exhausted | ⟨-, most, limits, beyond⟩ | same
    · exact absurd exhausted ends
    · cases limits
      exact absurd few (Nat.not_le.mpr beyond)
    · rw [settled]
      exact same

/-- A loop over two numbers, each pass of which calls a mixin: four steps. -/
def calling : Template where
  chunks :=
    [.mixin "part" (.name "part") [.text "x"],
      .eachBlock "item" none
        (.bracketed .square (.binary .comma (.literal (.int 1)) (.literal (.int 2))))
        [.mixinCall "part" none]]
  includes := []
  pretty := false
  stopOnError := false

/-- With three steps the second call is refused; four are enough. -/
theorem calling_limited :
    let run := fun limit bound => calling.run bound (Context.new.setStepLimit (some limit)) .unlimited
    let free := calling.run 3 (Context.new.setStepLimit none) .unlimited
    (∀ name, Context.new.loader name = .missing) ∧
    (run 3 9).1 ≠ .error .exhausted ∧ (run 3 9).2.bodies = 3 ∧ (run 3 9).2.context.refusals = 1 ∧
    (run 3 9).2.bodies ≤ 3 ∧ free.2.context.steps = 4 ∧ free.2.sink.text = "xx" ∧
    run 4 6 = (free.1, free.2.withLimit (some 4)) := by
  intro run free
  have alone : ∀ name, Context.new.loader name = .missing := fun _ => rfl
  obtain ⟨ends, bodies, -, -⟩ := limited_runs calling .new .unlimited 3 alone
  obtain ⟨-, -, -, same⟩ := limited_runs calling .new .unlimited 4 alone
  have steps : free.2.context.steps = 4 := by decide +kernel
  refine ⟨alone, (ends 9 (by omega)).1, by decide +kernel, by decide +kernel, bodies 9, steps,
    by decide +kernel, ?_⟩
  exact same 3 6 (Nat.le_refl _) (by decide +kernel) (Nat.le_of_eq steps)

end

end HtmlTemplate.Steps
