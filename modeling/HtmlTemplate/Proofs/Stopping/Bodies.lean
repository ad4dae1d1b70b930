import HtmlTemplate.Proofs.Stopping.Phases

/-! How many reports the actions of a run make: evaluation and the counting of steps at most
one, and then it is known with which result; the binding of parameters may make more of them,
but then it goes on. -/

namespace HtmlTemplate.Stopping

variable {stops : Bool} {made : Nat} {told : Bool} {α β : Type}

/-- An action reports nothing, or one thing, and then with a result of some kind. -/
def Speaks (failing : α → Prop) (action : Context → α × Context) : Prop :=
  ∀ context, (action context).2.reports = context.reports ∨
    failing (action context).1 ∧
      ∃ fault, (action context).2.reports = context.reports.add fault

/-- Nothing has been reported, or one thing by a part that has failed. -/
def Failing (failing : α → Prop) (phase : Phase) (value : α) : Prop :=
  phase = .quiet ∨ phase = .warned ∧ failing value

theorem Speaks.reaches {failing : α → Prop} {action : Context → α × Context}
    (speaks : Speaks failing action) :
    Reaches made told .quiet (Render.inContext action) (Failing failing) := by
  apply Reaches.inContext
  intro context quiet
  rcases speaks context with same | ⟨failed, fault, one⟩
  · refine ⟨.quiet, ?_, .inl rfl⟩
    rw [same]
    exact quiet
  · refine ⟨.warned, ?_, .inr ⟨rfl, failed⟩⟩
    rw [one]
    exact quiet.warned fault

/-! Evaluation. -/

theorem reports_kept (reports : Reports) :
    Rules.Kept (fun context => context.reports = reports) fun _ _ => True where
  growth := ⟨fun _ => trivial, fun _ _ => trivial⟩
  writes same step := ⟨(reports_of_writes step).trans same, trivial⟩

/-- An evaluation comes to a result, of which nothing is reported, or to a fault that is. -/
theorem evaluate_ends (mode : EvalMode) (expr : Expr) (context : Context) :
    (∃ handle after, Eval.eval mode expr context = (.ok handle, after) ∧
        context.evaluate mode expr = (handle, after) ∧ after.reports = context.reports) ∨
      ∃ fault after, Eval.eval mode expr context = (.error fault, after) ∧
        context.evaluate mode expr = (.undefined, after.reportFault fault) ∧
        after.reports = context.reports := by
  have same := (Rules.eval_stays (reports_kept context.reports) mode expr context rfl).1
  unfold Context.evaluate
  generalize Eval.eval mode expr context = result at same
  obtain ⟨fault | handle, after⟩ := result
  · exact .inr ⟨fault, after, rfl, rfl, same⟩
  · exact .inl ⟨handle, after, rfl, rfl, same⟩

theorem evaluate_speaks (mode : EvalMode) (expr : Expr) :
    Speaks (· = Handle.undefined) (Context.evaluate mode expr) := by
  intro context
  rcases evaluate_ends mode expr context with ⟨handle, after, -, ended, same⟩ | ⟨fault, after, -, ended, same⟩
  · rw [ended]
    exact .inl same
  · rw [ended]
    exact .inr ⟨rfl, fault, congrArg (·.add fault) same⟩

theorem execArguments_speaks (arguments : Expr) :
    Speaks (· = none) (Context.execArguments arguments) := by
  intro context
  have same := (Rules.evalItems_stays (reports_kept context.reports) .strict arguments.items context rfl).1
  unfold Context.execArguments
  generalize Eval.evalItems .strict arguments.items context = result at same
  obtain ⟨fault | values, after⟩ := result
  · right
    refine ⟨rfl, fault, ?_⟩
    rw [← same]
    rfl
  · exact .inl same

theorem holds_speaks (guard : Expr) : Speaks (· = false) (Context.holds guard) := by
  intro context
  rcases evaluate_speaks .guard guard context with same | ⟨failed, one⟩
  · exact .inl same
  · refine .inr ⟨?_, one⟩
    change (context.evaluate .guard guard).2.truthy (context.evaluate .guard guard).1 = false
    rw [failed]
    rfl

theorem execValue?_speaks (expr : Expr) : Speaks (· = none) (Context.execValue? expr) := by
  intro context
  rcases evaluate_speaks .strict expr context with same | ⟨failed, one⟩
  · exact .inl same
  · refine .inr ⟨?_, one⟩
    change (context.evaluate .strict expr).2.read? (context.evaluate .strict expr).1 = none
    rw [failed]
    rfl

theorem execValue_speaks (expr : Expr) : Speaks (fun _ => True) (Context.execValue expr) :=
  fun context => (evaluate_speaks .strict expr context).imp id fun one => ⟨trivial, one.2⟩

theorem step_speaks : Speaks (· = false) Context.step := by
  intro context
  unfold Context.step
  dsimp only
  split
  · split
    · split
      · exact .inr ⟨rfl, _, rfl⟩
      · exact .inl rfl
    · exact .inl rfl
  · exact .inl rfl

theorem loopSource_speaks (handle : Handle) : Speaks (fun _ => False) (Context.loopSource handle) := by
  intro context
  left
  unfold Context.loopSource
  split
  · rfl
  · split <;> rfl
  · split <;> rfl

theorem define_reports (name : String) (signature : Expr) (body : List Chunk) (context : Context) :
    (Render.define name signature body context).reports = context.reports ∨
      ∃ fault, (Render.define name signature body context).reports = context.reports.add fault := by
  unfold Render.define
  split
  · rename_i after eq
    left
    cases found : Mixin.ofDefinition name signature body with
    | error fault =>
      rw [found] at eq
      cases eq
    | ok mixin =>
      rw [found] at eq
      exact reports_of_defineMixin eq
  · exact .inr ⟨_, rfl⟩

/-! Parameters. -/

/-- How the binding of parameters may have ended: all of them have values and there may have
been any number of reports, or one is missing and its report is the only one. -/
def Bound (phase : Phase) (complete : Bool) : Prop :=
  phase = .quiet ∨ phase = .warned ∧ complete = false ∨ phase = .late ∧ complete = true

/-- Defaults are all bound, whatever is reported of them. -/
theorem bindParameters_late (mixin : String) {parameters : List (String × Option Expr)}
    (defaults : ∀ parameter ∈ parameters, parameter.2.isSome) (context : Context)
    (late : made < context.reports.made) :
    (Mixin.bindParameters mixin parameters [] context).1 = true ∧
      made < (Mixin.bindParameters mixin parameters [] context).2.reports.made := by
  induction parameters generalizing context with
  | nil => exact ⟨rfl, late⟩
  | cons parameter rest step =>
    obtain ⟨name, default⟩ := parameter
    obtain ⟨default, rfl⟩ := Option.isSome_iff_exists.mp (defaults (name, default) (List.mem_cons_self ..))
    apply step (fun other member => defaults other (List.mem_cons_of_mem _ member)) _
    change made < (context.execValue default).2.reports.made
    rcases execValue_speaks default context with same | ⟨-, message, one⟩
    · rw [same]
      exact late
    · rw [one]
      exact Nat.lt_of_lt_of_le late (made_le_add ..)

theorem bindParameters_bound (mixin : String) {parameters : List (String × Option Expr)}
    (ordered : Mixin.Ordered parameters) (arguments : List Value) (context : Context)
    (quiet : Quiet made told context.reports) :
    ∃ phase : Phase,
      phase.Fits made told (Mixin.bindParameters mixin parameters arguments context).2.reports ∧
        Bound phase (Mixin.bindParameters mixin parameters arguments context).1 := by
  induction parameters generalizing arguments context with
  | nil => exact ⟨.quiet, quiet, .inl rfl⟩
  | cons parameter rest step =>
    obtain ⟨name, default⟩ := parameter
    obtain ⟨after, further⟩ := List.pairwise_cons.mp ordered
    cases arguments with
    | cons argument arguments => exact step further arguments _ quiet
    | nil =>
      cases default with
      | none => exact ⟨.warned, quiet.warned _, .inr (.inl ⟨rfl, rfl⟩)⟩
      | some default =>
        rcases execValue_speaks default context with same | ⟨-, message, one⟩
        · apply step further [] _
          change Quiet made told (context.execValue default).2.reports
          rw [same]
          exact quiet
        · have late : made < (context.execValue default).2.reports.made := by
            rw [one]
            exact warned_late (quiet.warned message)
          obtain ⟨complete, later⟩ := bindParameters_late mixin
            (fun other member => after other member rfl)
            ((context.execValue default).2.set name (context.execValue default).1) late
          exact ⟨.late, later, .inr (.inr ⟨rfl, complete⟩)⟩

theorem enter_bound (mixin : Mixin) (arguments : List Value) :
    Reaches made told .quiet (Render.inContext (mixin.enter arguments)) Bound := by
  apply Reaches.inContext
  intro context quiet
  have bound := bindParameters_bound mixin.name mixin.ordered arguments context.pushScope quiet
  unfold Mixin.enter
  generalize Mixin.bindParameters mixin.name mixin.parameters arguments context.pushScope = result at bound
  obtain ⟨_ | _, after⟩ := result
  · rw [← Context.reports_popScope] at bound
    exact bound
  · exact bound

/-! Bodies, and the branches and loops that run them, up to the first report of a run. -/

/-- Nothing has been reported. -/
def Still (phase : Phase) (_ : α) : Prop := phase = .quiet

/-- There has been at most one report, and nothing has been done since. -/
def Once (phase : Phase) (_ : α) : Prop := phase ≠ .late

/-- There is no going on after a part. -/
def Never (_ : Phase) (_ : α) : Prop := False

theorem once_of_failing {failing : α → Prop} (phase : Phase) (value : α)
    (failed : Failing failing phase value) : Once phase value := by
  rcases failed with rfl | ⟨rfl, -⟩ <;> nofun

theorem once_of_still (phase : Phase) (value : α) (still : Still phase value) : Once phase value := by
  cases still
  nofun

/-! Reports and bodies. -/

/-- The reports are written after a part. -/
theorem Leads.flush (options : RunOptions) {start : Phase} (once : start ≠ .late) {next : RunM α}
    (goes : Goes options.stopOnError made next) {ends : Phase → α → Prop}
    (further : start = .quiet → Leads options.stopOnError made told .quiet next ends) :
    Leads options.stopOnError made told start (do
      Render.flushReports options
      next) ends := by
  cases start with
  | quiet =>
    apply Leads.after (flush_quiet options)
    rintro _ _ rfl
    exact further rfl
  | warned => exact .bind (flush_warned options) (fun _ => goes) fun _ _ never => never.elim
  | late => exact absurd rfl once

theorem Leads.entering {start : Phase} {part : RunM Unit} (goes : Goes stops made part)
    (calm : Leads stops made told .quiet part Still) {chunks : List Chunk}
    (empty : chunks = [] → part = Pure.pure ()) (once : start ≠ .late) :
    Leads stops made told start (Render.entering chunks part) fun phase _ => phase = start := by
  unfold Render.entering
  cases chunks with
  | nil =>
    rw [empty rfl]
    exact .pure rfl
  | cons chunk rest =>
    cases start with
    | quiet =>
      apply Leads.after (Reaches.note .entered)
      rintro _ _ rfl
      exact calm
    | warned => exact .bind (.note_entered nofun) (fun _ => goes) fun _ _ never => never.elim
    | late => exact absurd rfl once

/-- A body that can be run before the first report, and that ends the run after it unless it is
empty. -/
structure Body (stops : Bool) (made : Nat) (told : Bool) (body : RunM Unit) : Prop where
  goes : Goes stops made body
  leads : ∀ {start}, start ≠ .late →
    Leads stops made told start body fun phase _ => phase = start

namespace Body

variable {body : RunM Unit}

theorem still (runs : Body stops made told body) : Leads stops made told .quiet body Still :=
  runs.leads nofun

theorem inScope (runs : Body stops made told body) : Body stops made told (Render.inScope body) :=
  ⟨.inScope (passed_kept stops made) runs.goes, fun once => (runs.leads once).inScope⟩

theorem branch (runs : Body stops made told body) (guard : Expr) (negate : Bool) :
    Leads stops made told .quiet (Render.branch guard negate body) Once := by
  apply Leads.inScope
  apply Leads.after (holds_speaks guard).reaches
  intro phase held failing
  have once := once_of_failing phase held failing
  dsimp only
  split
  · apply Leads.bind (runs.leads once) fun _ => .pure (passed_kept stops made).growth _
    rintro _ _ rfl
    exact .pure once
  · exact .pure once

/-- A pass of a loop is only begun before the first report. -/
theorem stepping (runs : Body stops made told body) :
    Leads stops made told .quiet (Render.stepping body) Still := by
  apply Leads.after (Reaches.note .stepped)
  rintro _ _ rfl
  exact runs.still

theorem pass (runs : Body stops made told body) {enter : Context → Context}
    (silent : ∀ context, (enter context).reports = context.reports) :
    Leads stops made told .quiet (Render.inScope do
      Render.modifyContext enter
      Render.stepping body) Still := by
  apply Leads.inScope
  intro state reached
  exact runs.stepping _ (reached.of_reports (silent _))

theorem eachStep_goes (runs : Body stops made told body) {enter : α → Context → Context}
    (silent : ∀ item context, (enter item context).reports = context.reports) (items : List α) :
    Goes stops made (Render.eachStep enter body items) := by
  intro state passed
  have enters : ∀ item ∈ items, ∀ later, Passed stops made later → True →
      Rules.Enters (Passed stops made) (fun _ _ => True) (enter item) later :=
    fun item _ later passed _ => ⟨passed.of_made (Nat.le_of_eq (by rw [silent]; rfl)), trivial⟩
  have goes := Rules.Stays.eachStep_since (passed_kept stops made) state runs.goes items enters
  exact ⟨(goes state ⟨passed, trivial⟩).1.1, trivial⟩

theorem eachStep (runs : Body stops made told body) {enter : α → Context → Context}
    (silent : ∀ item context, (enter item context).reports = context.reports) (items : List α) :
    Leads stops made told .quiet (Render.eachStep enter body items) Once := by
  induction items with
  | nil => exact .pure nofun
  | cons item rest step =>
    apply Leads.after step_speaks.reaches
    rintro phase again (rfl | ⟨rfl, rfl⟩)
    · cases again with
      | false => exact .pure nofun
      | true =>
        apply Leads.bind (runs.pass (silent item)) fun _ => eachStep_goes runs silent rest
        rintro _ _ rfl
        exact step
    · exact .pure nofun

theorem whileStep (runs : Body stops made told body) (guard : Expr) (bound : Nat) :
    Leads stops made told .quiet (Render.whileStep guard body bound) Once := by
  induction bound with
  | zero => exact fun state reached => .halted nofun reached
  | succ bound step =>
    have pass : Leads stops made told .quiet (Render.inScope (Render.guardedPass guard body))
        (Failing (· = false)) := by
      apply Leads.inScope
      apply Leads.after (holds_speaks guard).reaches
      rintro phase held (rfl | ⟨rfl, rfl⟩)
      · cases held with
        | false => exact .pure (.inl rfl)
        | true =>
          apply Leads.after step_speaks.reaches
          rintro phase again (rfl | ⟨rfl, rfl⟩)
          · cases again with
            | false => exact .pure (.inl rfl)
            | true =>
              apply Leads.bind runs.stepping fun _ => .pure (passed_kept stops made).growth true
              rintro _ _ rfl
              exact .pure (.inl rfl)
          · exact .pure (.inr ⟨rfl, rfl⟩)
      · exact .pure (.inr ⟨rfl, rfl⟩)
    refine Leads.bind pass (fun again => ?_) ?_
    · cases again with
      | false => exact .pure (passed_kept stops made).growth ()
      | true => exact .whileStep (passed_kept stops made) guard runs.goes bound
    · rintro phase again (rfl | ⟨rfl, rfl⟩)
      · cases again with
        | false => exact .pure nofun
        | true => exact step
      · exact .pure nofun

theorem keyed_silent (key : Option String) (value : Value) (context : Context) :
    (key.elim context fun key => context.set key value).reports = context.reports := by
  cases key <;> rfl

theorem loop (runs : Body stops made told body) (item : String) (key : Option String)
    (source : Expr) (hasElse : Bool) :
    Leads stops made told .quiet (Render.loop item key source hasElse body) Once := by
  have iterated {α : Type} (enter : α → Context → Context)
      (silent : ∀ item context, (enter item context).reports = context.reports) (items : List α) :
      Leads stops made told .quiet (do
        Render.eachStep enter body items
        return true) Once := by
    apply Leads.bind (runs.eachStep silent items) fun _ => .pure (passed_kept stops made).growth true
    intro phase _ once
    exact .pure once
  apply Leads.after (evaluate_speaks .strict source).reaches
  rintro phase handle (rfl | ⟨rfl, rfl⟩)
  · apply Leads.after (loopSource_speaks handle).reaches
    rintro phase found (rfl | ⟨-, never⟩)
    · cases found with
      | empty => exact .pure nofun
      | scalar value =>
        cases hasElse with
        | true => exact .pure nofun
        | false =>
          apply iterated (Render.enterScalar item key value)
          intro _ context
          exact keyed_silent key _ _
      | array place length mutable =>
        apply iterated (Render.enterElement item key place mutable)
        intro position context
        exact keyed_silent key _ _
      | dict place keys mutable =>
        apply iterated (Render.enterEntry item key place mutable)
        intro name context
        exact keyed_silent key _ _
    · exact never.elim
  · exact fun state reached => .ended reached nofun

end Body

/-! Values, calls of mixins and included templates up to the first report of a run. -/

theorem writeValue_once (expr : Expr) (text : Value → String) :
    Leads stops made told .quiet (Render.writeValue expr text) Once := by
  apply Leads.after (execValue?_speaks expr).reaches
  rintro phase value (rfl | ⟨rfl, rfl⟩)
  · cases value with
    | none => exact .pure nofun
    | some value => exact (Reaches.write _).leads.weaken once_of_still
  · exact .pure nofun

namespace Reaches

theorem pure {start : Phase} {ends : Phase → α → Prop} {value : α} (fits : ends start value) :
    Reaches made told start (Pure.pure value) ends :=
  fun state reached => ⟨start, value, state, rfl, reached, fits⟩

theorem bind {start : Phase} {first : RunM α} {next : α → RunM β} {between : Phase → α → Prop}
    {ends : Phase → β → Prop} (reaches : Reaches made told start first between)
    (further : ∀ phase value, between phase value → Reaches made told phase (next value) ends) :
    Reaches made told start (first >>= next) ends := by
  intro state reached
  obtain ⟨phase, value, after, eq, final, fits⟩ := reaches state reached
  rw [Rules.bind_eq, eq]
  exact further phase value fits after final

end Reaches

theorem call_bound (mixin : Mixin) (arguments : List Value) :
    Reaches made told .quiet (Render.callMixin mixin arguments) fun phase body => Bound phase body.isSome := by
  apply Reaches.bind step_speaks.reaches
  rintro phase again (rfl | ⟨rfl, rfl⟩)
  · cases again with
    | false => exact .pure (.inl rfl)
    | true =>
      apply Reaches.bind (enter_bound mixin arguments)
      intro phase complete bound
      cases complete with
      | true => exact .pure bound
      | false => exact .pure bound
  · exact .pure (.inr (.inl ⟨rfl, rfl⟩))

theorem enterCall_bound (name : String) (arguments : Option Expr) :
    Reaches made told .quiet (Render.enterCall name arguments)
      fun phase body => Bound phase body.isSome := by
  have refused : Reaches made told .quiet (do
      Render.modifyContext (·.reportFault (.mixinNotFound name))
      return none) fun phase (body : Option (List Chunk)) => Bound phase body.isSome := by
    have reported : Reaches made told .quiet
        (Render.modifyContext (·.reportFault (.mixinNotFound name))) fun phase _ => phase = .warned :=
      .modifyContext fun context quiet => ⟨.warned, quiet.warned _, rfl⟩
    apply Reaches.bind reported
    intro phase _ eq
    exact .pure (.inr (.inl ⟨eq, rfl⟩))
  unfold Render.enterCall
  apply Reaches.bind .getContext
  rintro _ context rfl
  cases context.mixin? name with
  | none => exact refused
  | some mixin =>
    cases arguments with
    | none => exact call_bound mixin []
    | some arguments =>
      apply Reaches.bind (execArguments_speaks arguments).reaches
      rintro phase values (rfl | ⟨rfl, rfl⟩)
      · cases values with
        | none => exact .pure (.inl rfl)
        | some values => exact call_bound mixin values
      · exact .pure (.inr (.inl ⟨rfl, rfl⟩))

/-- The body of a mixin is run although a default of its parameters has been reported. -/
theorem mixinCall_once (name : String) (arguments : Option Expr) {run : List Chunk → RunM Unit}
    (goes : ∀ body, Goes stops made (run body))
    (settles : ∀ body, Leads stops made told .quiet (run body) Still) :
    Leads stops made told .quiet (do
      match ← Render.enterCall name arguments with
      | some body => Render.closing do
        Render.note .entered
        Render.stepping (run body)
      | none => return) Once := by
  apply Leads.after (enterCall_bound name arguments)
  rintro phase body (rfl | ⟨rfl, missing⟩ | ⟨rfl, found⟩)
  · cases body with
    | none => exact .pure nofun
    | some body =>
      apply Leads.closing
      apply Leads.after (Reaches.note .entered)
      rintro _ _ rfl
      apply Leads.after (Reaches.note .stepped)
      rintro _ _ rfl
      exact (settles body).weaken once_of_still
  · cases body with
    | none => exact .pure nofun
    | some body => cases missing
  · cases body with
    | none => cases found
    | some body =>
      apply Leads.closing
      exact .bind (.note_entered nofun) (fun _ => .stepping (passed_kept stops made) (goes body))
        fun _ _ never => never.elim

/-! Included templates. -/

/-- After a report the leaving of an included template tells that it was made there. -/
theorem passed_left {state : RunState} (later : made < state.context.reports.made) :
    Passed stops made (state.remember .left) :=
  .inl ⟨_, List.mem_cons_self .., later, .inr rfl⟩

theorem Passed.left {inner : Bool} {state : RunState} (passed : Passed inner made state) :
    Passed stops made (state.remember .left) := by
  rcases passed with ⟨event, member, later, kind⟩ | ⟨-, later⟩
  · exact .inl ⟨event, List.mem_cons_of_mem _ member, later, kind⟩
  · exact passed_left later

/-- A template that is included may itself go on at errors. -/
theorem attempted_still {inner : Bool} {part : RunM Unit}
    (settles : Leads inner made told .quiet part Still) :
    Leads stops made told .quiet (Render.attempted (Render.leaving part)) Still := by
  intro state reached
  have outcome := settles state reached
  unfold Render.attempted Render.leaving
  generalize part state = result at outcome
  cases outcome with
  | @passed result after passed =>
    obtain (_ | _ | _) | _ := result
    · exact .passed passed.left
    · exact .passed passed.left
    · exact .passed passed.left
    · exact .passed passed.left
  | stopped stopped =>
    apply Outcome.passed
    apply passed_left
    rw [stopped.one]
    exact Nat.lt_succ_self made
  | @halted halt after other still =>
    have left := Reaches.remembered still .left
    cases halt with
    | stopped message => exact absurd rfl (other message)
    | output => exact .ended left rfl
    | exhausted => exact .halted nofun left
  | ended reached still =>
    cases still
    exact .ended (Reaches.remembered reached .left) rfl

theorem captured_still {part : RunM α} (settles : Leads stops made told .quiet part Still) :
    Leads stops made told .quiet (Render.captured part) Still := by
  intro state reached
  have fresh : Fresh made state := reached.fresh.resolve_left nofun
  have outcome := settles { state with sink := .unlimited }
    ⟨reached.fits, .inr ⟨rfl, rfl, fresh.before⟩⟩
  have restored {phase : Phase} {after : RunState} (reached : At made told phase after) :
      At made told phase { after with sink := state.sink } :=
    ⟨reached.fits, reached.fresh.imp id fun final => ⟨fresh.endless, fresh.whole, final.before⟩⟩
  unfold Render.captured
  generalize part { state with sink := .unlimited } = result at outcome
  cases outcome with
  | passed passed => exact .passed passed
  | stopped stopped => exact .stopped ⟨stopped.one, stopped.nothingElse⟩
  | halted other still => exact .halted other (restored still)
  | ended reached still => exact .ended (restored reached) still

/-- Whatever is run by its name settles all reports. -/
def AllSettle (made : Nat) (told : Bool) (again : RunOptions → List Chunk → RunM Unit) : Prop :=
  ∀ options chunks, Leads options.stopOnError made told .quiet (again options chunks) Still

section

variable {again : RunOptions → List Chunk → RunM Unit}

theorem included_still (settles : AllSettle made told again) (name : String) :
    Leads stops made told .quiet (Render.included again name) Still := by
  apply Leads.after .getContext
  rintro _ context rfl
  cases context.loader name with
  | missing => exact .pure rfl
  | failed note =>
    have told : Reaches made told .quiet (Render.modifyContext (·.notify note)) Still := by
      apply Reaches.modifyContext
      intro context quiet
      refine ⟨.quiet, ⟨quiet.same, quiet.idle, quiet.unasked, ?_⟩, rfl⟩
      rw [← quiet.taken]
      exact Option.isSome_map
    apply Leads.after told
    rintro _ _ rfl
    exact .pure rfl
  | template template =>
    have forgotten : Reaches made told .quiet (Render.modifyContext Context.forgetLast) Still :=
      .modifyContext fun context quiet =>
        ⟨.quiet, ⟨quiet.same, quiet.idle, rfl, quiet.taken⟩, rfl⟩
    apply Leads.after forgotten
    rintro _ _ rfl
    exact attempted_still (settles template.runOptions template.chunks)

theorem runInclude_still (settles : AllSettle made told again) (options : RunOptions) (name : String)
    (depth : Nat) : Leads stops made told .quiet (Render.runInclude again options name depth) Still := by
  have goes (complete : Bool) : Goes stops made
      (if !complete then Render.write (Render.comment ("fail to include " ++ name)) else return) := by
    cases complete with
    | true => exact .pure (passed_kept stops made).growth ()
    | false => exact .write (passed_kept stops made) _
  have noted (complete : Bool) : Leads stops made told .quiet
      (if !complete then Render.write (Render.comment ("fail to include " ++ name)) else return) Still := by
    cases complete with
    | true => exact .pure rfl
    | false => exact (Reaches.write _).leads
  unfold Render.runInclude
  dsimp only
  split
  · refine Leads.bind (captured_still (included_still settles name)) (fun result => ?_) ?_
    · exact .bind (passed_kept stops made).growth (.write (passed_kept stops made) _) fun _ =>
        .bind (passed_kept stops made).growth (.pure (passed_kept stops made).growth _) goes
    · rintro _ result rfl
      apply Leads.after (Reaches.write _)
      rintro _ _ rfl
      exact noted result.1
  · apply Leads.bind (included_still settles name) goes
    rintro _ complete rfl
    exact noted complete

end

end HtmlTemplate.Stopping
