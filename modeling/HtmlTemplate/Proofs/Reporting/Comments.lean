import HtmlTemplate.Proofs.Folding.Abreast
import HtmlTemplate.Proofs.Rules.Assembly
import HtmlTemplate.Proofs.Stopping.Phases

/-! The comments of a run, for the reports that nobody takes. The run is compared with the same run under
a host that takes the reports: that one writes the same, without the comments, and the host is told what
the comments say. Where the host takes none, they wait to be written; the two contexts are otherwise the same all
along. -/

namespace HtmlTemplate

/-- What is reported about a fault. -/
def EvalFault.report (fault : EvalFault) : String := (Diagnostic.plain .context fault.message).text

namespace Context

/-- The context with a host that takes the reports. -/
def listened (context : Context) : Context :=
  { context with reports := { context.reports with taken := some [] } }

/-- The context if the host had taken the reports that wait here, and some before them. -/
def heard (told : List String) (context : Context) : Context :=
  { context with reports := { context.reports with
      taken := some (told ++ context.reports.pending ++ context.reports.taken.getD []), pending := [] } }

/-- Where nothing waits, the host has heard nothing yet. -/
theorem heard_nil {context : Context} (untaken : context.reports.taken = none)
    (idle : context.reports.pending = []) : context.heard [] = context.listened := by
  unfold heard listened
  simp only [untaken, idle, List.append_nil, Option.getD_none]

theorem heard_reportFault (told : List String) (context : Context) (fault : EvalFault) :
    (context.heard told).reportFault fault = (context.reportFault fault).heard told := by
  unfold reportFault Reports.add heard
  cases context.reports.taken with
  | none => simp only [List.append_assoc, Option.getD_none, List.append_nil]
  | some messages => simp only [List.append_assoc, Option.getD_some]

/-- The host has heard the reports that are taken to be written. -/
theorem heard_takePending (told : List String) (context : Context) :
    (context.heard told).takePending =
      ([], context.takePending.2.heard (told ++ context.reports.pending)) := by
  unfold takePending heard
  rw [List.append_nil]

theorem step_heard (told : List String) : Rules.Ignores (heard told) step := by
  intro ⟨frames, hosted, loader, escapeOutput, stepLimit, steps, reports⟩
  cases stepLimit with
  | none => rfl
  | some limit =>
    let counted : Context := ⟨frames, hosted, loader, escapeOutput, some limit, steps + 1, reports⟩
    have refused := heard_reportFault told counted .stepLimit
    unfold step
    change (if limit < steps + 1 then
        (false, if steps + 1 = limit + 1 then (counted.heard told).reportFault .stepLimit else _)
      else _) = _
    rw [refused]
    dsimp only
    split
    · split <;> rfl
    · rfl

end Context

namespace Reporting

open Rules Render

/-- Whether the host takes the reports is not seen by anything that a run does to a context. -/
theorem heard_aside (told : List String) : Aside (Context.heard told) where
  current _ := rfl
  binding? _ _ _ := rfl
  find? _ _ := rfl
  aliasBound _ := rfl
  hosted _ := rfl
  temp _ _ _ := rfl
  store _ _ _ _ := rfl
  setTemp _ _ _ _ := rfl
  setHosted _ _ := rfl
  pushTemp _ _ := rfl
  reportFault := Context.heard_reportFault told
  pushScope _ := rfl
  popScope context := by
    unfold Context.popScope
    change (if 1 < context.depth then _ else _) = _
    split <;> rfl
  mixin? _ _ := rfl
  defineMixin context mixin := by
    unfold Context.defineMixin
    change (if ((context.frames[context.current]?).any fun frame => frame.mixins.contains mixin.name) = true
      then _ else _) = _
    split <;> rfl

/-! What is reported, where there is no template to include. -/

/-- A context whose reports are of some kind, and without templates to include. -/
structure Alone (kind : Reports → Prop) (context : Context) : Prop where
  reports : kind context.reports
  alone : ∀ name, context.loader name = .missing

variable {kind : Reports → Prop}

/-- Reports stay of a kind that further reports are of, and that does not ask for those that wait. -/
theorem alone_apart (adds : ∀ reports fault, kind reports → kind (reports.add fault))
    (taken : ∀ reports, kind reports → kind { reports with pending := [] })
    (forgotten : ∀ reports, kind reports → kind { reports with last := none }) : Apart (Alone kind) where
  congr holds reports loader _ := ⟨reports ▸ holds.reports, loader ▸ holds.alone⟩
  reported fault holds := ⟨adds _ fault holds.reports, holds.alone⟩
  told {context name note} holds failed := by
    rw [holds.alone name] at failed
    cases failed
  taken holds := ⟨taken _ holds.reports, holds.alone⟩
  forgotten holds := ⟨forgotten _ holds.reports, holds.alone⟩

/-- The host takes no reports. -/
def Untaken (reports : Reports) : Prop := reports.taken = none

theorem untaken_apart : Apart (Alone Untaken) := by
  refine alone_apart (fun reports fault untaken => ?_) (fun _ untaken => untaken) fun _ untaken => untaken
  unfold Untaken Reports.add at *
  rw [untaken]

/-- The host has been told all that has been reported after some faults, and nothing else. -/
def Told (before : List EvalFault) (reports : Reports) : Prop :=
  ∃ made : List EvalFault, reports.faults = made.reverse ++ before ∧ reports.taken = some (made.map EvalFault.report)

theorem told_apart (before : List EvalFault) : Apart (Alone (Told before)) := by
  refine alone_apart ?_ (fun _ told => told) fun _ told => told
  rintro reports fault ⟨made, faults, taken⟩
  refine ⟨made ++ [fault], ?_, ?_⟩
  · rw [Reports.faults_add, List.reverse_append, List.append_assoc, ← faults]
    rfl
  · rw [Reports.taken_add, taken, List.map_append]
    rfl

/-! What is written. -/

/-- What has been written, the first text first. -/
def written (past : List (Nat × Event)) : List String :=
  past.reverse.filterMap fun (_, event) =>
    match event with
    | .wrote text => some text
    | _ => none

/-- What has been done in two runs, the last thing first: the same, but that comments with some messages,
given here in their order, have been written in the second one. -/
inductive Noted : List String → List (Nat × Event) → List (Nat × Event) → Prop where
  | nothing : Noted [] [] []
  | both {messages : List String} {plain commented : List (Nat × Event)} (entry : Nat × Event)
      (noted : Noted messages plain commented) : Noted messages (entry :: plain) (entry :: commented)
  | comment {messages : List String} {plain commented : List (Nat × Event)} (made : Nat)
      (message : String) (noted : Noted messages plain commented) :
      Noted (messages ++ [message]) plain ((made, .wrote (Render.comment message)) :: commented)

/-- The output takes everything, and it has got what has been written, after what it had before. -/
structure Written (before : String) (state : RunState) : Prop where
  endless : state.sink.Endless
  text : state.sink.text = before ++ String.join (written state.past)

theorem written_quiet {event : Event} (quiet : ∀ text, event ≠ .wrote text) (made : Nat)
    (past : List (Nat × Event)) : written ((made, event) :: past) = written past := by
  unfold written
  cases event with
  | wrote text => exact absurd rfl (quiet text)
  | _ => simp only [List.reverse_cons, List.filterMap_append, List.filterMap_cons_none,
      List.filterMap_nil, List.append_nil]

theorem written_wrote (text : String) (made : Nat) (past : List (Nat × Event)) :
    written ((made, .wrote text) :: past) = written past ++ [text] := by
  unfold written
  rw [List.reverse_cons, List.filterMap_append]
  rfl

namespace Written

variable {before : String} {state : RunState}

theorem quiet (holds : Written before state) {event : Event} (quiet : ∀ text, event ≠ .wrote text) :
    Written before (state.remember event) := by
  refine ⟨holds.endless, ?_⟩
  unfold RunState.remember
  rw [written_quiet quiet]
  exact holds.text

/-- Every write is accepted. -/
theorem write (holds : Written before state) (text : String) :
    ∃ after, Render.write text state = (.ok (), after) ∧ Written before after ∧
      after.context = state.context ∧
      after.past = (state.context.reports.made, .wrote text) :: state.past := by
  rw [write_eq, holds.endless.write]
  refine ⟨_, rfl, ⟨⟨holds.endless.limit, holds.endless.whole⟩, ?_⟩, rfl, rfl⟩
  change state.sink.text ++ text = before ++ String.join (written (_ :: state.past))
  rw [written_wrote, holds.text, String.join_append, String.append_assoc]
  simp only [String.join_cons, String.join_nil, String.append_empty]

end Written

/-- Two runs of which the second one is listened to. The first one is behind by some messages, which it
has taken to write them; the host of the second one has been told of all that has been reported after
some faults. -/
structure Behind (messages : List String) (faults : List EvalFault) (before : String)
    (state twin : RunState) : Prop where
  told : ∃ told, twin.context = state.context.heard (told ++ messages) ∧ Noted told twin.past state.past
  untaken : Alone Untaken state.context
  complete : Alone (Told faults) twin.context
  written : Written before state
  other : Written before twin

/-- Neither run is behind. -/
abbrev Level : List EvalFault → String → RunState → RunState → Prop := Behind []

variable {messages : List String} {faults : List EvalFault} {before : String} {state twin : RunState}
  {α β : Type}

namespace Behind

/-- What both runs ask their contexts has the same answer. -/
theorem act (behind : Behind messages faults before state twin) {action : Context → α × Context}
    (ignores : ∀ told, Ignores (Context.heard told) action)
    (quiet : Acts (Alone Untaken) (fun _ _ => True) action)
    (tells : Acts (Alone (Told faults)) (fun _ _ => True) action) :
    (action twin.context).1 = (action state.context).1 ∧
      Behind messages faults before { state with context := (action state.context).2 }
        { twin with context := (action twin.context).2 } := by
  obtain ⟨⟨told, same, noted⟩, untaken, complete, written, other⟩ := behind
  have tied : Alone (Told faults) (action twin.context).2 := (tells _ complete).1
  have answered := ignores (told ++ messages) state.context
  rw [← same] at answered
  rw [answered] at tied ⊢
  exact ⟨rfl, ⟨told, rfl, noted⟩, (quiet _ untaken).1, tied, ⟨written.endless, written.text⟩,
    ⟨other.endless, other.text⟩⟩

theorem change (behind : Behind messages faults before state twin) {change : Context → Context}
    (commutes : ∀ told, Commutes (Context.heard told) change)
    (quiet : Keeps (Alone Untaken) (fun _ _ => True) change)
    (tells : Keeps (Alone (Told faults)) (fun _ _ => True) change) :
    Behind messages faults before { state with context := change state.context }
      { twin with context := change twin.context } := by
  have silent (told : List String) : Ignores (Context.heard told) fun context => ((), change context) :=
    fun context => congrArg (Prod.mk ()) (commutes told context)
  exact (behind.act silent quiet tells).2

theorem remember (behind : Behind messages faults before state twin) {event : Event}
    (quiet : ∀ text, event ≠ .wrote text) :
    Behind messages faults before (state.remember event) (twin.remember event) := by
  obtain ⟨⟨told, same, noted⟩, untaken, complete, written, other⟩ := behind
  refine ⟨⟨told, same, ?_⟩, untaken, complete, written.quiet quiet, other.quiet quiet⟩
  have made : twin.context.reports.made = state.context.reports.made := by
    rw [same]
    rfl
  unfold RunState.remember
  rw [made]
  exact .both _ noted

/-- Both runs write the same. -/
theorem write (behind : Behind messages faults before state twin) (text : String) :
    ∃ after following, Render.write text state = (.ok (), after) ∧
      Render.write text twin = (.ok (), following) ∧ Behind messages faults before after following := by
  obtain ⟨⟨told, same, noted⟩, untaken, complete, written, other⟩ := behind
  have made : twin.context.reports.made = state.context.reports.made := by
    rw [same]
    rfl
  obtain ⟨after, wrote, written, context, past⟩ := written.write text
  obtain ⟨following, wroteTwin, other, contextTwin, pastTwin⟩ := other.write text
  refine ⟨after, following, wrote, wroteTwin, ⟨told, ?_, ?_⟩, ?_, ?_, written, other⟩
  · rw [context, contextTwin, same]
  · rw [past, pastTwin, made]
    exact .both _ noted
  · rw [context]
    exact untaken
  · rw [contextTwin]
    exact complete

/-- The first run writes a comment that it is behind by. -/
theorem comment {message : String} (behind : Behind (message :: messages) faults before state twin) :
    ∃ after, Render.write (Render.comment message) state = (.ok (), after) ∧
      after.context = state.context ∧ Behind messages faults before after twin := by
  obtain ⟨⟨told, same, noted⟩, untaken, complete, written, other⟩ := behind
  obtain ⟨after, wrote, written, context, past⟩ := written.write (Render.comment message)
  refine ⟨after, wrote, context, ⟨told ++ [message], ?_, ?_⟩, ?_, complete, written, other⟩
  · rw [context, same, List.append_assoc, List.singleton_append]
  · rw [past]
    exact .comment _ _ noted
  · rw [context]
    exact untaken

theorem comments (behind : Behind messages faults before state twin) :
    ∃ after, messages.forM (fun message => Render.write (Render.comment message)) state = (.ok (), after) ∧
      after.context = state.context ∧ Level faults before after twin := by
  induction messages generalizing state with
  | nil => exact ⟨state, rfl, rfl, behind⟩
  | cons message rest step =>
    obtain ⟨middle, wrote, context, behind⟩ := behind.comment
    obtain ⟨after, others, same, level⟩ := step behind
    refine ⟨after, ?_, same.trans context, level⟩
    change (Render.write (Render.comment message) >>= fun _ => rest.forM _) state = _
    rw [bind_eq, wrote]
    exact others

/-- The first run takes the messages that wait. -/
theorem take (level : Level faults before state twin) :
    Behind state.context.reports.pending faults before
        { state with context := state.context.takePending.2 }
        { twin with context := twin.context.takePending.2 } ∧
      twin.context.takePending.1 = [] := by
  obtain ⟨⟨told, same, noted⟩, untaken, complete, written, other⟩ := level
  rw [List.append_nil] at same
  have taken := Context.heard_takePending told state.context
  rw [← same] at taken
  have tied := (told_apart faults).taken complete
  rw [taken] at tied ⊢
  exact ⟨⟨⟨told, rfl, noted⟩, untaken_apart.taken untaken, tied, ⟨written.endless, written.text⟩,
    ⟨other.endless, other.text⟩⟩, rfl⟩

end Behind

/-- Ends the run at an error, if there has been one. -/
def stopping : RunM Unit := do
  match (← getContext).reports.last with
  | none => return
  | some message =>
    modifyContext Context.forgetLast
    throw (.stopped message)

/-- Two ends of runs side by side. If the runs stop at an error, no report waits. -/
structure Attended (faults : List EvalFault) (before : String)
    (ended other : Except Halt α × RunState) : Prop where
  alike : Alike (· = ·) (Level faults before) ended other
  drained : ∀ message, ended.1 = .error (.stopped message) → ended.2.context.reports.pending = []

/-- Two runs of which the second one is listened to go alike. -/
def Attends (faults : List EvalFault) (before : String) (first second : RunM α) : Prop :=
  ∀ state twin, Level faults before state twin → Attended faults before (first state) (second twin)

namespace Attends

variable {first second : RunM α}

/-- A run that does not stop. -/
theorem of_finished (finishes : ∀ state twin, Level faults before state twin →
    ∃ value after following, first state = (.ok value, after) ∧ second twin = (.ok value, following) ∧
      Level faults before after following) : Attends faults before first second := by
  intro state twin level
  obtain ⟨value, after, following, ran, twinRan, level⟩ := finishes state twin level
  rw [ran, twinRan]
  exact ⟨.ok rfl level, nofun⟩

theorem bind {next following : α → RunM β} (attends : Attends faults before first second)
    (goesOn : ∀ value, Attends faults before (next value) (following value)) :
    Attends faults before (first >>= next) (second >>= following) := by
  intro state twin level
  obtain ⟨alike, drained⟩ := attends state twin level
  rw [bind_eq, bind_eq]
  generalize first state = ended at alike drained
  generalize second twin = other at alike
  cases alike with
  | ok same level =>
    subst same
    exact goesOn _ _ _ level
  | error level => exact ⟨.error level, fun message stopped => drained message (by cases stopped; rfl)⟩

theorem inContext {action : Context → α × Context} (ignores : ∀ told, Ignores (Context.heard told) action)
    (quiet : Acts (Alone Untaken) (fun _ _ => True) action)
    (tells : Acts (Alone (Told faults)) (fun _ _ => True) action) :
    Attends faults before (Render.inContext action) (Render.inContext action) := by
  apply of_finished
  intro state twin level
  obtain ⟨same, level⟩ := level.act ignores quiet tells
  refine ⟨_, _, _, rfl, ?_, level⟩
  rw [inContext_eq, same]

theorem modifyContext {change : Context → Context} (commutes : ∀ told, Commutes (Context.heard told) change)
    (quiet : Keeps (Alone Untaken) (fun _ _ => True) change)
    (tells : Keeps (Alone (Told faults)) (fun _ _ => True) change) :
    Attends faults before (Render.modifyContext change) (Render.modifyContext change) := by
  apply of_finished
  intro state twin level
  exact ⟨(), _, _, rfl, rfl, level.change commutes quiet tells⟩

/-- A run that looks at its context. -/
theorem reading {next following : Context → RunM α}
    (goesOn : ∀ told context, Attends faults before (next context) (following (context.heard told))) :
    Attends faults before (getContext >>= next) (getContext >>= following) := by
  intro state twin level
  obtain ⟨told, same, -⟩ := level.told
  rw [bind_eq, bind_eq, getContext_eq, getContext_eq, same]
  exact goesOn _ state.context state twin level

theorem write (text : String) : Attends faults before (Render.write text) (Render.write text) := by
  apply of_finished
  intro state twin level
  obtain ⟨after, following, wrote, wroteTwin, level⟩ := level.write text
  exact ⟨(), after, following, wrote, wroteTwin, level⟩

/-- The runs stop at the same error, when no report waits. -/
theorem stop_attended (level : Level faults before state twin)
    (drained : state.context.reports.pending = []) :
    Attended faults before (stopping state) (stopping twin) := by
  obtain ⟨told, same, -⟩ := level.told
  have last : twin.context.reports.last = state.context.reports.last := by
    rw [same]
    rfl
  have forgotten := level.change (fun _ _ => rfl) (fun _ holds => ⟨untaken_apart.forgotten holds, trivial⟩)
    fun _ holds => ⟨(told_apart faults).forgotten holds, trivial⟩
  unfold stopping
  rw [bind_eq, bind_eq, getContext_eq, getContext_eq]
  dsimp only
  rw [last]
  cases state.context.reports.last with
  | none => exact ⟨.ok rfl level, nofun⟩
  | some message => exact ⟨.error forgotten, fun _ _ => drained⟩

/-- The reports that wait in the first run have been told in the second one. -/
theorem flushReports (options : RunOptions) :
    Attends faults before (Render.flushReports options) (Render.flushReports options) := by
  intro state twin level
  obtain ⟨behind, nothing⟩ := level.take
  obtain ⟨after, wrote, context, level⟩ := behind.comments
  have drained : after.context.reports.pending = [] := by
    rw [context]
    rfl
  unfold Render.flushReports
  rw [bind_eq, bind_eq, inContext_eq, inContext_eq]
  dsimp only
  rw [nothing, bind_eq, bind_eq]
  have taken : state.context.takePending.1 = state.context.reports.pending := rfl
  rw [taken, wrote]
  change Attended faults before ((if options.stopOnError then _ else _ : RunM Unit) after)
    ((if options.stopOnError then _ else _ : RunM Unit) { twin with context := twin.context.takePending.2 })
  split
  · exact stop_attended level drained
  · exact ⟨.ok rfl level, nofun⟩

theorem closing (attends : Attends faults before first second) :
    Attends faults before (Render.closing first) (Render.closing second) := by
  intro state twin level
  obtain ⟨alike, drained⟩ := attends state twin level
  unfold Render.closing
  generalize first state = ended at alike drained
  generalize second twin = other at alike
  have popped {state twin : RunState} (level : Level faults before state twin) :
      Level faults before state.closed twin.closed :=
    level.change (fun told => (heard_aside told).popScope) (fun _ holds => ⟨untaken_apart.popScope holds, trivial⟩)
      fun _ holds => ⟨(told_apart faults).popScope holds, trivial⟩
  cases alike with
  | ok same level => exact ⟨.ok same (popped level), nofun⟩
  | error level =>
    refine ⟨.error (popped level), fun message stopped => ?_⟩
    rw [← drained message stopped]
    exact congrArg Reports.pending (Context.reports_popScope _)

/-- Where there are no templates, including one writes that there is none. -/
theorem runInclude (again : RunOptions → List Chunk → RunM Unit) (options : RunOptions) (name : String)
    (depth : Nat) :
    Attends faults before (Render.runInclude again options name depth)
      (Render.runInclude again options name depth) := by
  have missed : Attends faults before (Render.missed options name depth)
      (Render.missed options name depth) := by
    unfold Render.missed
    split
    · exact .bind (.write "") fun _ => .write _
    · exact .write _
  intro state twin level
  obtain ⟨told, same, -⟩ := level.told
  have missing : twin.context.loader name = .missing := by
    rw [same]
    exact level.untaken.alone name
  rw [runInclude_missing again options depth (level.untaken.alone name),
    runInclude_missing again options depth missing]
  exact missed state twin level

end Attends

theorem attends_assembles (faults : List EvalFault) (before : String) :
    Assembles (Attends faults before) where
  pure value := Attends.of_finished fun state twin level => ⟨value, state, twin, rfl, rfl, level⟩
  bind := .bind
  exhausted := fun _ _ level => ⟨.error level, nofun⟩
  noted quiet := Attends.of_finished fun _ _ level => ⟨(), _, _, rfl, rfl, level.remember quiet⟩
  written := .write
  flushed := .flushReports
  asked asked := .inContext (fun told => asked.ignores (heard_aside told)) (asked.acts untaken_apart)
    (asked.acts (told_apart faults))
  counted := .inContext Context.step_heard untaken_apart.steps (told_apart faults).steps
  changed changed := .modifyContext (fun told => changed.commutes (heard_aside told))
    (changed.keeps untaken_apart) (changed.keeps (told_apart faults))
  defined name signature body := .modifyContext
    (fun told => define_commutes (heard_aside told) name signature body)
    (untaken_apart.defines name signature body) ((told_apart faults).defines name signature body)
  closing := .closing
  escaping goesOn := .reading fun _ context => goesOn context.escapeOutput
  finding name _ _ goesOn := .reading fun _ context => goesOn (context.mixin? name)
  included := .runInclude

end Reporting

end HtmlTemplate
