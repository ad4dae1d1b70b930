import HtmlTemplate.Proofs.Rules.Running

/-! The phases of a run up to its first report and after it, and the rules by which the parts
of a run lead from one phase to another. -/

namespace HtmlTemplate.Stopping

/-- How far a run has come. -/
inductive Phase where
  /-- Nothing has been reported. -/
  | quiet
  /-- There has been one report, and nothing has been done since. -/
  | warned
  /-- There have been reports. -/
  | late

/-- No report has been made since there were `made` of them, and none waits. `told` is whether
the host takes the reports. -/
structure Quiet (made : Nat) (told : Bool) (reports : Reports) : Prop where
  same : reports.made = made
  idle : reports.pending = []
  unasked : reports.last = none
  taken : reports.taken.isSome = told

/-- One report has been made since. -/
structure Warned (made : Nat) (told : Bool) (message : String) (reports : Reports) : Prop where
  one : reports.made = made + 1
  waits : reports.pending = if told then [] else [message]
  last : reports.last = some message

def Phase.Fits (made : Nat) (told : Bool) : Phase → Reports → Prop
  | quiet, reports => Quiet made told reports
  | warned, reports => ∃ message, Warned made told message reports
  | late, reports => made < reports.made

/-- The output takes everything, and all that has been done was done before any report. -/
structure Fresh (made : Nat) (state : RunState) : Prop where
  endless : state.sink.limit = none
  whole : state.sink.broken = false
  before : ∀ event ∈ state.past, event.1 = made

structure At (made : Nat) (told : Bool) (phase : Phase) (state : RunState) : Prop where
  fits : phase.Fits made told state.context.reports
  fresh : phase = .late ∨ Fresh made state

/-- After a report a body has been run, an alternative has been asked for or an included
template has been left; or the run does not stop at reports. -/
def Passed (stops : Bool) (made : Nat) (state : RunState) : Prop :=
  (∃ event ∈ state.past, made < event.1 ∧ (event.2 = .entered ∨ event.2 = .left)) ∨
    stops = false ∧ made < state.context.reports.made

/-- The run has stopped after one report, with nothing but its comment. -/
structure Stopped (made : Nat) (told : Bool) (message : String) (state : RunState) : Prop where
  one : state.context.reports.made = made + 1
  nothingElse : ∃ before,
    state.past = (if told then [] else [(made + 1, .wrote (Render.comment message))]) ++ before ∧
      ∀ event ∈ before, event.1 = made

/-- How a part has gone: `ends` tells with which results and in which phases it may have come to
its end. -/
inductive Outcome {α : Type} (stops : Bool) (made : Nat) (told : Bool) (ends : Phase → α → Prop) :
    Except Halt α × RunState → Prop where
  | passed {result : Except Halt α} {after : RunState} (passed : Passed stops made after) :
      Outcome stops made told ends (result, after)
  | stopped {message : String} {after : RunState} (stopped : Stopped made told message after) :
      Outcome stops made told ends (.error (.stopped message), after)
  | halted {halt : Halt} {after : RunState} (other : ∀ message, halt ≠ .stopped message)
      (still : At made told .quiet after) : Outcome stops made told ends (.error halt, after)
  | ended {phase : Phase} {value : α} {after : RunState} (reached : At made told phase after)
      (fits : ends phase value) : Outcome stops made told ends (.ok value, after)

/-- A part leads from a phase to others. -/
def Leads {α : Type} (stops : Bool) (made : Nat) (told : Bool) (start : Phase) (part : RunM α)
    (ends : Phase → α → Prop) : Prop :=
  ∀ state, At made told start state → Outcome stops made told ends (part state)

variable {stops : Bool} {made : Nat} {told : Bool} {α β : Type}

/-! A run that has passed its end stays there. -/

theorem Passed.of_grown {before after : RunState} (passed : Passed stops made before)
    (past : ∀ event ∈ before.past, event ∈ after.past)
    (reports : before.context.reports.made ≤ after.context.reports.made) :
    Passed stops made after := by
  rcases passed with ⟨event, member, later, kind⟩ | ⟨goesOn, later⟩
  · exact .inl ⟨event, past event member, later, kind⟩
  · exact .inr ⟨goesOn, Nat.lt_of_lt_of_le later reports⟩

theorem Passed.of_made {state : RunState} {context : Context} (passed : Passed stops made state)
    (reports : state.context.reports.made ≤ context.reports.made) :
    Passed stops made { state with context } :=
  passed.of_grown (fun _ member => member) reports

theorem made_le_add (reports : Reports) (fault : EvalFault) :
    reports.made ≤ (reports.add fault).made := by
  simp [Reports.made_add]

/-- Evaluation alone reports nothing. -/
theorem reports_of_writes {before after : Context} (step : Rules.Writes before after) :
    after.reports = before.reports := by
  obtain ⟨frames, hosted, rfl⟩ := step.elsewhere
  rfl

theorem reports_of_defineMixin {context after : Context} {mixin : Mixin}
    (defined : context.defineMixin mixin = .ok after) : after.reports = context.reports := by
  unfold Context.defineMixin at defined
  split at defined
  · cases defined
  · cases defined
    rfl

theorem passed_written (stops : Bool) (made : Nat) (state : RunState) :
    Rules.Kept (fun context => Passed stops made { state with context }) fun _ _ => True where
  growth := ⟨fun _ => trivial, fun _ _ => trivial⟩
  writes passed step := ⟨passed.of_made (Nat.le_of_eq (by rw [reports_of_writes step])), trivial⟩

theorem passed_kept (stops : Bool) (made : Nat) :
    Rules.RunKept (Passed stops made) fun _ _ => True where
  growth := ⟨fun _ => trivial, fun _ _ => trivial⟩
  within state :=
    { growth := ⟨fun _ => trivial, fun _ _ => trivial⟩
      evaluated := Rules.eval_stays (passed_written stops made state)
      listed := Rules.evalItems_stays (passed_written stops made state)
      reported := fun _ context passed => ⟨passed.of_made (made_le_add ..), trivial⟩
      told := fun passed _ => ⟨passed.of_made (Nat.le_refl _), trivial⟩
      taken := fun context passed => ⟨passed.of_made (Nat.le_refl _), trivial⟩
      forgotten := fun context passed => ⟨passed.of_made (Nat.le_refl _), trivial⟩
      named := fun name value context passed => ⟨passed.of_made (Nat.le_refl _), trivial⟩
      stored := fun value context passed => ⟨passed.of_made (Nat.le_refl _), trivial⟩
      defined := fun passed defined =>
        ⟨passed.of_made (Nat.le_of_eq (by rw [reports_of_defineMixin defined])), trivial⟩ }
  counting _ :=
    { counted := fun context passed => ⟨passed.of_made (Nat.le_refl _), trivial⟩
      refused := fun context passed => ⟨passed.of_made (made_le_add ..), trivial⟩ }
  remembered passed _ :=
    ⟨passed.of_grown (fun _ member => List.mem_cons_of_mem _ member) (Nat.le_refl _), trivial⟩
  wrote := by
    intro state passed text
    rw [Render.write_eq]
    split
    · exact ⟨passed.of_grown (fun _ member => List.mem_cons_of_mem _ member) (Nat.le_refl _), trivial⟩
    · exact ⟨passed.of_grown (fun _ member => member) (Nat.le_refl _), trivial⟩
  opened passed := passed.of_grown (fun _ member => member) (Nat.le_refl _)
  closed _ passed _ := ⟨passed.of_made (Nat.le_of_eq (by rw [Context.reports_popScope])), trivial⟩
  diverted passed := passed
  restored _ passed _ := ⟨passed, trivial⟩
  aliased _ _ _ _ passed _ _ := ⟨passed.of_made (Nat.le_refl _), trivial⟩

/-- A part changes nothing in that a run has passed its end. -/
def Goes (stops : Bool) (made : Nat) (part : RunM α) : Prop :=
  Rules.Stays (Passed stops made) (fun _ _ => True) part

/-! Where the parts of a run lead: expressions to at most one report, the writing of the
reports to the end of the run, and bodies that are not empty past the point where it should
have ended. -/

/-! Reports. -/

theorem Quiet.warned {reports : Reports} (quiet : Quiet made told reports) (fault : EvalFault) :
    Phase.warned.Fits made told (reports.add fault) := by
  refine ⟨(Diagnostic.plain .context fault.message).text, ?_⟩
  obtain ⟨taken, pending, last, faults⟩ := reports
  obtain ⟨rfl, rfl, rfl, rfl⟩ := quiet
  cases taken with
  | none => exact ⟨rfl, rfl, rfl⟩
  | some messages => exact ⟨rfl, rfl, rfl⟩

theorem warned_late {reports : Reports} (warned : Phase.warned.Fits made told reports) :
    made < reports.made := by
  obtain ⟨message, warned⟩ := warned
  rw [warned.one]
  exact Nat.lt_succ_self made

/-- Every phase but the first comes after a report. -/
theorem Phase.Fits.later {phase : Phase} {reports : Reports} (fits : phase.Fits made told reports)
    (loud : phase ≠ .quiet) : made < reports.made := by
  cases phase with
  | quiet => exact absurd rfl loud
  | warned => exact warned_late fits
  | late => exact fits

/-! Rules. -/

theorem At.of_reports {phase : Phase} {state : RunState} (reached : At made told phase state)
    {context : Context} (same : context.reports = state.context.reports) :
    At made told phase { state with context } :=
  ⟨by rw [same]; exact reached.fits, reached.fresh.imp id fun fresh => ⟨fresh.endless, fresh.whole, fresh.before⟩⟩

theorem Outcome.weaken {ends ends' : Phase → α → Prop} {result : Except Halt α × RunState}
    (outcome : Outcome stops made told ends result) (more : ∀ phase value, ends phase value → ends' phase value) :
    Outcome stops made told ends' result := by
  cases outcome with
  | passed passed => exact .passed passed
  | stopped stopped => exact .stopped stopped
  | halted other still => exact .halted other still
  | ended reached fits => exact .ended reached (more _ _ fits)

/-- Scopes have no part in how far a run has come. -/
theorem Outcome.closed {ends : Phase → α → Prop} {result : Except Halt α × RunState}
    (outcome : Outcome stops made told ends result) :
    Outcome stops made told ends (result.1, result.2.closed) := by
  have same (state : RunState) : state.closed.context.reports = state.context.reports :=
    Context.reports_popScope state.context
  cases outcome with
  | passed passed => exact .passed (passed.of_made (Nat.le_of_eq (congrArg Reports.made (same _).symm)))
  | stopped stopped => exact .stopped ⟨by rw [same, stopped.one], stopped.nothingElse⟩
  | halted other still => exact .halted other (still.of_reports (same _))
  | ended reached fits => exact .ended (reached.of_reports (same _)) fits

theorem write_fresh {sink : Sink} (endless : sink.limit = none) (whole : sink.broken = false)
    (context : Context) (past : List (Nat × Event)) (text : String) :
    Render.write text { context, sink, past } =
      (.ok (), RunState.remember { context, sink := { sink with text := sink.text ++ text }, past }
        (.wrote text)) := by
  have accepted : sink.accepts text = true := by
    rw [Sink.accepts, whole, endless]
    rfl
  have spent : sink.limit.map Sink.Limit.spent = sink.limit := by rw [endless, Option.map_none]
  rw [Render.write_eq, Sink.write, if_pos accepted, spent]
  rfl

/-- A part that always comes to its end. -/
def Reaches (made : Nat) (told : Bool) (start : Phase) (part : RunM α) (ends : Phase → α → Prop) :
    Prop :=
  ∀ state, At made told start state → ∃ phase value after,
    part state = (.ok value, after) ∧ At made told phase after ∧ ends phase value

namespace Reaches

theorem leads {start : Phase} {part : RunM α} {ends : Phase → α → Prop}
    (reaches : Reaches made told start part ends) : Leads stops made told start part ends := by
  intro state reached
  obtain ⟨phase, value, after, eq, final, fits⟩ := reaches state reached
  rw [eq]
  exact .ended final fits

/-- An action of the context, by what it does to the reports. -/
theorem inContext {action : Context → α × Context} {ends : Phase → α → Prop}
    (acts : ∀ context, Quiet made told context.reports →
      ∃ phase : Phase, phase.Fits made told (action context).2.reports ∧
        ends phase (action context).1) :
    Reaches made told .quiet (Render.inContext action) ends := by
  intro state reached
  obtain ⟨phase, fits, result⟩ := acts state.context reached.fits
  have fresh : Fresh made state := reached.fresh.resolve_left nofun
  exact ⟨phase, _, _, rfl, ⟨fits, .inr ⟨fresh.endless, fresh.whole, fresh.before⟩⟩, result⟩

theorem modifyContext {change : Context → Context} {ends : Phase → Unit → Prop}
    (changes : ∀ context, Quiet made told context.reports →
      ∃ phase : Phase, phase.Fits made told (change context).reports ∧ ends phase ()) :
    Reaches made told .quiet (Render.modifyContext change) ends := by
  have action : Reaches made told .quiet (Render.inContext fun context => ((), change context)) ends :=
    inContext changes
  exact action

theorem getContext {start : Phase} :
    Reaches made told start Render.getContext fun phase _ => phase = start :=
  fun state reached => ⟨start, state.context, state, rfl, reached, rfl⟩

theorem remembered {state : RunState} (reached : At made told .quiet state) (event : Event) :
    At made told .quiet (state.remember event) := by
  have fresh : Fresh made state := reached.fresh.resolve_left nofun
  refine ⟨reached.fits, .inr ⟨fresh.endless, fresh.whole, ?_⟩⟩
  intro event member
  cases member with
  | head => exact reached.fits.same
  | tail _ member => exact fresh.before event member

theorem note (event : Event) :
    Reaches made told .quiet (Render.note event) fun phase _ => phase = .quiet :=
  fun state reached => ⟨.quiet, (), state.remember event, rfl, remembered reached event, rfl⟩

theorem write (text : String) :
    Reaches made told .quiet (Render.write text) fun phase _ => phase = .quiet := by
  intro ⟨context, sink, past⟩ reached
  have fresh := reached.fresh.resolve_left nofun
  have accepted : At made told .quiet { context, sink := { sink with text := sink.text ++ text }, past } :=
    ⟨reached.fits, .inr ⟨fresh.endless, fresh.whole, fresh.before⟩⟩
  exact ⟨.quiet, (), _, write_fresh fresh.endless fresh.whole context past text,
    remembered accepted _, rfl⟩

end Reaches

namespace Leads

theorem weaken {start : Phase} {part : RunM α} {ends ends' : Phase → α → Prop}
    (leads : Leads stops made told start part ends) (more : ∀ phase value, ends phase value → ends' phase value) :
    Leads stops made told start part ends' :=
  fun state reached => (leads state reached).weaken more

theorem pure {start : Phase} {ends : Phase → α → Prop} {value : α} (fits : ends start value) :
    Leads stops made told start (Pure.pure value) ends :=
  fun _ reached => .ended reached fits

theorem bind {start : Phase} {first : RunM α} {next : α → RunM β} {between : Phase → α → Prop}
    {ends : Phase → β → Prop} (leads : Leads stops made told start first between)
    (goes : ∀ value, Goes stops made (next value))
    (further : ∀ phase value, between phase value → Leads stops made told phase (next value) ends) :
    Leads stops made told start (first >>= next) ends := by
  intro state reached
  have outcome := leads state reached
  rw [Rules.bind_eq]
  generalize first state = result at outcome
  cases outcome with
  | @passed result after passed =>
    cases result with
    | error halt => exact .passed passed
    | ok value => exact .passed ((goes value after passed).1)
  | stopped stopped => exact .stopped stopped
  | halted other still => exact .halted other still
  | ended reached fits => exact further _ _ fits _ reached

theorem closing {start : Phase} {part : RunM α} {ends : Phase → α → Prop}
    (leads : Leads stops made told start part ends) :
    Leads stops made told start (Render.closing part) ends :=
  fun state reached => (leads state reached).closed

theorem inScope {start : Phase} {part : RunM α} {ends : Phase → α → Prop}
    (leads : Leads stops made told start part ends) :
    Leads stops made told start (Render.inScope part) ends :=
  fun state reached => leads.closing state.opened (reached.of_reports rfl)

/-- After a part that always comes to its end. -/
theorem after {start : Phase} {first : RunM α} {next : α → RunM β} {between : Phase → α → Prop}
    {ends : Phase → β → Prop} (reaches : Reaches made told start first between)
    (further : ∀ phase value, between phase value → Leads stops made told phase (next value) ends) :
    Leads stops made told start (first >>= next) ends := by
  intro state reached
  obtain ⟨phase, value, after, eq, final, fits⟩ := reaches state reached
  rw [Rules.bind_eq, eq]
  exact further phase value fits after final

/-- Going into a body after a report. -/
theorem note_entered {start : Phase} (loud : start ≠ .quiet) :
    Leads stops made told start (Render.note .entered) fun _ _ => False :=
  fun _ reached => .passed (.inl ⟨_, List.mem_cons_self .., reached.fits.later loud, .inl rfl⟩)

end Leads

/-! Writing the reports. -/

/-- Where no report has been made there is nothing to do. -/
theorem flushReports_quiet (options : RunOptions) {state : RunState}
    (quiet : Quiet made told state.context.reports) :
    Render.flushReports options state = (.ok (), state) := by
  obtain ⟨⟨frames, hosted, loader, escapeOutput, stepLimit, steps,
    ⟨taken, pending, last, count⟩⟩, sink, past⟩ := state
  obtain ⟨-, rfl, rfl, -⟩ := quiet
  cases found : options.stopOnError with
  | false =>
    unfold Render.flushReports
    rw [found]
    rfl
  | true =>
    unfold Render.flushReports
    rw [found]
    rfl

theorem flush_quiet (options : RunOptions) :
    Reaches made told .quiet (Render.flushReports options) fun phase _ => phase = .quiet :=
  fun state reached => ⟨.quiet, (), state, flushReports_quiet options reached.fits, reached, rfl⟩

/-- What is left to do when the reports have been written: to end the run, if it has to. -/
theorem ends_after (options : RunOptions) {message : String} {state : RunState}
    (last : state.context.reports.last = some message)
    (stopped : Stopped made told message state) :
    Outcome options.stopOnError made told (fun _ _ => False) ((do
      if options.stopOnError then
        match (← Render.getContext).reports.last with
        | none => return
        | some message =>
          Render.modifyContext Context.forgetLast
          throw (.stopped message) : RunM Unit) state) := by
  cases found : options.stopOnError with
  | false =>
    refine .passed (.inr ⟨rfl, ?_⟩)
    exact Nat.lt_of_lt_of_eq (Nat.lt_succ_self made) stopped.one.symm
  | true =>
    rw [if_pos rfl, Rules.bind_eq]
    change Outcome true made told _ ((match state.context.reports.last with
      | none => pure ()
      | some message => do
        Render.modifyContext Context.forgetLast
        throw (.stopped message) : RunM Unit) state)
    rw [last]
    exact .stopped ⟨stopped.one, stopped.nothingElse⟩

theorem flush_warned (options : RunOptions) :
    Leads options.stopOnError made told .warned (Render.flushReports options) fun _ _ => False := by
  intro state reached
  obtain ⟨message, warned⟩ := reached.fits
  have fresh : Fresh made state := reached.fresh.resolve_left nofun
  unfold Render.flushReports
  rw [Rules.bind_eq, Render.inContext_eq]
  dsimp only [Context.takePending]
  rw [warned.waits, Rules.bind_eq]
  cases told with
  | true => exact ends_after options warned.last ⟨warned.one, state.past, rfl, fresh.before⟩
  | false =>
    have one : [message].forM (fun message => Render.write (Render.comment message)) = (do
        Render.write (Render.comment message)
        pure ⟨⟩ : RunM PUnit) := rfl
    rw [if_neg Bool.false_ne_true, one, Rules.bind_eq, write_fresh fresh.endless fresh.whole]
    refine ends_after options warned.last ⟨warned.one, state.past, ?_, fresh.before⟩
    change (state.context.reports.made, Event.wrote (Render.comment message)) :: state.past = _
    rw [warned.one]
    rfl

end HtmlTemplate.Stopping
