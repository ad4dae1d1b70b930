import HtmlTemplate.Proofs.Loops.Passes
import HtmlTemplate.Proofs.Rules.Composition
import HtmlTemplate.Proofs.Steps.Limits
import HtmlTemplate.Proofs.Stopping.Phases

/-! Runs of chunks that only read, in contexts that read alike. They end the same, and what they have
reported and written corresponds; how it corresponds is a parameter. Loops bring the variables of their
passes into both runs, each in the way of its own context. -/

namespace HtmlTemplate

namespace Chunk

mutual

/-- Nothing is assigned, stepped up or down or declared in a chunk or in those in it, no mixin is called
and no template is included. What is in a mixin that is only defined does not matter. -/
def reading : Chunk → Bool
  | includeTemplate _ _ | mixinCall _ _ => false
  | output _ expr | attr _ _ expr | attrs expr | code expr => expr.isReading
  | ifBlock expr body | unlessBlock expr body | elseIfBlock expr body | caseBlock expr body
  | whenBlock expr body | eachBlock _ _ expr body | whileBlock expr body =>
    expr.isReading && readingIn body
  | elseBlock body | defaultBlock body => readingIn body
  | text _ | escapable _ | mixin _ _ _ => true

def readingIn : List Chunk → Bool
  | [] => true
  | chunk :: rest => reading chunk && readingIn rest

end

end Chunk

namespace Loops

open Context Render Rules

/-- How what two runs have reported and written corresponds, and that it still does after reports and
writes. -/
structure Channel (options : RunOptions) (linked : Reports → Sink → Reports → Sink → Prop) : Prop where
  added : ∀ {reports sink other twin}, linked reports sink other twin → ∀ fault,
    linked (reports.add fault) sink (other.add fault) twin
  pending : ∀ {reports sink other twin}, linked reports sink other twin → reports.pending = other.pending
  taken : ∀ {reports sink other twin}, linked reports sink other twin →
    linked { reports with pending := [] } sink { other with pending := [] } twin
  accepted : ∀ {reports sink other twin}, linked reports sink other twin → ∀ text,
    (sink.write text).1 = (twin.write text).1
  written : ∀ {reports sink other twin}, linked reports sink other twin → ∀ text,
    linked reports (sink.write text).2 other (twin.write text).2
  last : ∀ {reports sink other twin}, linked reports sink other twin → options.stopOnError = true →
    reports.last = other.last
  forgotten : ∀ {reports sink other twin}, linked reports sink other twin → options.stopOnError = true →
    linked { reports with last := none } sink { other with last := none } twin

/-- Two runs in contexts that read alike. Since some contexts only the innermost scopes have been changed. -/
structure Beside (linked : Reports → Sink → Reports → Sink → Prop) (first second : Context)
    (state twin : RunState) : Prop where
  alike : ReadsAlike state.context twin.context
  within : Within first state.context
  withinTwin : Within second twin.context
  linked : linked state.context.reports state.sink twin.context.reports twin.sink

/-- Two runs in which no scope has been changed. -/
structure Still (linked : Reports → Sink → Reports → Sink → Prop) (first second : Context)
    (state twin : RunState) : Prop where
  same : SameScopes first state.context
  sameTwin : SameScopes second twin.context
  linked : linked state.context.reports state.sink twin.context.reports twin.sink

/-- Two parts go along with one another wherever they are run. -/
def Along (linked : Reports → Sink → Reports → Sink → Prop) {α : Type} (part following : RunM α) : Prop :=
  ∀ first second, Pairs (Beside linked first second) (· = ·) (Beside linked first second) part following

/-- They do, and leave all scopes as they are. -/
def StillAlong (linked : Reports → Sink → Reports → Sink → Prop) (first second : Context) {α : Type}
    (part following : RunM α) : Prop :=
  Pairs (Still linked first second) (· = ·) (Still linked first second) part following

variable {linked : Reports → Sink → Reports → Sink → Prop} {options : RunOptions} {first second : Context}
  {state twin : RunState} {α β : Type} {part following : RunM α}

theorem Still.beside (still : Still linked first second state twin) (alike : ReadsAlike first second) :
    Beside linked first second state twin where
  alike := alike.changed (still.same.readsAlike alike.sound alike.unlimited.1)
    (still.sameTwin.readsAlike alike.soundTwin alike.unlimited.2)
  within := still.same.within
  withinTwin := still.sameTwin.within
  linked := still.linked

/-- Reports do not belong to scopes. -/
theorem Still.reported (still : Still linked first second state twin) {reports others : Reports}
    (corresponds : linked reports state.sink others twin.sink) :
    Still linked first second { state with context := { state.context with reports } }
      { twin with context := { twin.context with reports := others } } where
  same := ⟨still.same.frames, still.same.hosted, still.same.escapes, still.same.limit⟩
  sameTwin := ⟨still.sameTwin.frames, still.sameTwin.hosted, still.sameTwin.escapes, still.sameTwin.limit⟩
  linked := corresponds

theorem Beside.still (beside : Beside linked first second state twin) :
    Still linked state.context twin.context state twin :=
  ⟨.refl _, .refl _, beside.linked⟩

theorem Beside.after (beside : Beside linked first second state twin) {later twinLater : RunState}
    (meanwhile : Beside linked state.context twin.context later twinLater) :
    Beside linked first second later twinLater :=
  ⟨meanwhile.alike, beside.within.trans meanwhile.within, beside.withinTwin.trans meanwhile.withinTwin,
    meanwhile.linked⟩

/-- Parts that leave all scopes as they are can be run wherever the contexts read alike. -/
theorem along_of_still
    (each : ∀ {first second}, ReadsAlike first second → StillAlong linked first second part following) :
    Along linked part following := by
  intro first second state twin beside
  have alike := each beside.alike state twin beside.still
  exact alike.relate (beside.after (alike.related.beside beside.alike))

/-! Reports and writes. -/

namespace StillAlong

theorem pure (value : α) : StillAlong linked first second (Pure.pure value) (Pure.pure value) :=
  Pairs.pure rfl

theorem bind {next more : α → RunM β} (along : StillAlong linked first second part following)
    (goesOn : ∀ value, StillAlong linked first second (next value) (more value)) :
    StillAlong linked first second (part >>= next) (following >>= more) :=
  Pairs.bind_same along goesOn

/-- A context goes on alike, with the same scopes. -/
theorem inContext {action other : Context → α × Context}
    (acts : ∀ {state twin : RunState}, Still linked first second state twin →
      (action state.context).1 = (other twin.context).1 ∧
      Still linked first second { state with context := (action state.context).2 }
        { twin with context := (other twin.context).2 }) :
    StillAlong linked first second (Render.inContext action) (Render.inContext other) := by
  intro state twin still
  obtain ⟨same, after⟩ := acts still
  rw [inContext_eq, inContext_eq]
  exact .ok same after

theorem note (event : Event) :
    StillAlong linked first second (Render.note event) (Render.note event) :=
  fun _ _ still => .ok rfl ⟨still.same, still.sameTwin, still.linked⟩

theorem write (channel : Channel options linked) (text : String) :
    StillAlong linked first second (Render.write text) (Render.write text) := by
  intro state twin still
  have written := channel.written still.linked text
  rw [write_eq, write_eq, channel.accepted still.linked text]
  split
  · exact .ok rfl ⟨still.same, still.sameTwin, written⟩
  · exact .error ⟨still.same, still.sameTwin, written⟩

theorem forM {items : List β} {act : β → RunM Unit}
    (each : ∀ item, StillAlong linked first second (act item) (act item)) :
    StillAlong linked first second (items.forM act) (items.forM act) := by
  induction items with
  | nil => exact pure ()
  | cons item rest step => exact bind (each item) fun _ => step

theorem flushReports (channel : Channel options linked) :
    StillAlong linked first second (Render.flushReports options) (Render.flushReports options) := by
  have taken : StillAlong linked first second (Render.inContext Context.takePending)
      (Render.inContext Context.takePending) :=
    inContext fun still => ⟨channel.pending still.linked, still.reported (channel.taken still.linked)⟩
  refine bind taken fun messages => bind (forM fun message => write channel (comment message)) fun _ => ?_
  cases stops : options.stopOnError with
  | false => exact pure ()
  | true =>
    intro state twin still
    rw [if_pos rfl, bind_eq, bind_eq, getContext_eq, getContext_eq]
    dsimp only
    rw [channel.last still.linked stops]
    cases twin.context.reports.last with
    | none => exact .ok rfl still
    | some message => exact .error (still.reported (channel.forgotten still.linked stops))

end StillAlong

namespace Along

theorem pure (value : α) : Along linked (Pure.pure value) (Pure.pure value) :=
  fun _ _ => Pairs.pure rfl

theorem bind {next more : α → RunM β} (along : Along linked part following)
    (goesOn : ∀ value, Along linked (next value) (more value)) : Along linked (part >>= next) (following >>= more) :=
  fun first second => (along first second).bind_same fun value => goesOn value first second

theorem note (event : Event) : Along linked (Render.note event) (Render.note event) :=
  along_of_still fun _ => .note event

theorem stepping {body other : RunM Unit} (along : Along linked body other) :
    Along linked (Render.stepping body) (Render.stepping other) :=
  bind (note .stepped) fun _ => along

end Along

/-! Passes of loops. -/

/-- Where there is no limit, there is a step left for every pass. -/
theorem Still.stepped (still : Still linked first second state twin) :
    Still linked first second { state with context := { state.context with steps := state.context.steps + 1 } }
      twin :=
  ⟨⟨still.same.frames, still.same.hosted, still.same.escapes, still.same.limit⟩, still.sameTwin, still.linked⟩

theorem Still.steppedTwin (still : Still linked first second state twin) :
    Still linked first second state
      { twin with context := { twin.context with steps := twin.context.steps + 1 } } :=
  ⟨still.same, ⟨still.sameTwin.frames, still.sameTwin.hosted, still.sameTwin.escapes, still.sameTwin.limit⟩,
    still.linked⟩

namespace StillAlong

theorem step (alike : ReadsAlike first second) :
    StillAlong linked first second (Render.inContext Context.step) (Render.inContext Context.step) := by
  apply inContext
  intro state twin still
  rw [step_of_none (still.same.limit.trans alike.unlimited.1),
    step_of_none (still.sameTwin.limit.trans alike.unlimited.2)]
  exact ⟨rfl, still.stepped.steppedTwin⟩

/-- A part is run in scopes in which the same can be read, and the scopes are closed. -/
theorem inScope (alike : ReadsAlike first second) {enter other : Context → Context}
    {shown : String → Option Value} (enters : Enters first enter shown) (entersTwin : Enters second other shown)
    (along : Along linked part following) :
    StillAlong linked first second
      (Render.inScope do
        modifyContext enter
        part)
      (Render.inScope do
        modifyContext other
        following) := by
  intro state twin still
  have entered := enters state.context still.same
  have enteredTwin := entersTwin twin.context still.sameTwin
  have alikeNow := (still.beside alike).alike
  have begun : Beside linked (enter state.context.pushScope) (other twin.context.pushScope)
      { state with context := enter state.context.pushScope }
      { twin with context := other twin.context.pushScope } := by
    refine ⟨entered.readsAlike alikeNow enteredTwin, .refl _, .refl _, ?_⟩
    rw [entered.reports, enteredTwin.reports]
    exact still.linked
  have closed {after twinAfter : RunState}
      (beside : Beside linked (enter state.context.pushScope) (other twin.context.pushScope) after twinAfter) :
      Still linked first second { after with context := after.context.popScope }
        { twinAfter with context := twinAfter.context.popScope } := by
    refine ⟨still.same.trans ((entered.within.trans beside.within).popScope alikeNow.sound.opened),
      still.sameTwin.trans ((enteredTwin.within.trans beside.withinTwin).popScope alikeNow.soundTwin.opened), ?_⟩
    rw [Context.reports_popScope, Context.reports_popScope]
    exact beside.linked
  have ran := along _ _ _ _ begun
  change Alike (· = ·) (Still linked first second)
    (closing part { state with context := enter state.context.pushScope })
    (closing following { twin with context := other twin.context.pushScope })
  unfold closing
  generalize part { state with context := enter state.context.pushScope } = result at ran
  generalize following { twin with context := other twin.context.pushScope } = otherResult at ran
  cases ran with
  | ok same after => exact .ok same (closed after)
  | error after => exact .error (closed after)

/-- A loop goes through passes in which the same can be read. -/
theorem eachStep (alike : ReadsAlike first second) {passes others : List (Context → Context)}
    {shown : List (String → Option Value)} (enters : List.Forall₂ (Enters first) passes shown)
    (entersTwin : List.Forall₂ (Enters second) others shown) {body other : RunM Unit} (along : Along linked body other) :
    StillAlong linked first second (Render.eachStep id body passes) (Render.eachStep id other others) := by
  induction enters generalizing others with
  | nil =>
    cases entersTwin
    exact pure ()
  | cons enter _ goesOn =>
    cases entersTwin with
    | cons enterTwin rest =>
      unfold Render.eachStep
      refine bind (step alike) fun again => ?_
      cases again with
      | false => exact pure ()
      | true => exact bind (inScope alike enter enterTwin along.stepping) fun _ => goesOn rest

end StillAlong

theorem reports_loopSource (context : Context) (handle : Handle) :
    (context.loopSource handle).2.reports = context.reports := by
  unfold Context.loopSource
  split
  · rfl
  · split <;> rfl
  · split <;> rfl

/-! The parts of a run. -/

/-- An expression that only reads yields what reads the same, or the same is reported. -/
theorem Beside.evaluated (channel : Channel options linked) {expr : Expr} (reading : expr.isReading = true)
    {mode : EvalMode} (reads : mode.target = false) (beside : Beside linked first second state twin) :
    (state.context.evaluate mode expr).1.Parallel (twin.context.evaluate mode expr).1 ∧
      Beside linked first second { state with context := (state.context.evaluate mode expr).2 }
        { twin with context := (twin.context.evaluate mode expr).2 } := by
  obtain ⟨parallel, reported⟩ := beside.alike.evaluate reading reads
  refine ⟨parallel, ?_⟩
  generalize (state.context.evaluate mode expr).2 = after at reported
  generalize (twin.context.evaluate mode expr).2 = twinAfter at reported
  cases reported with
  | silent => exact beside
  | fault fault =>
    exact beside.after ((beside.still.reported (channel.added beside.linked fault)).beside beside.alike)

namespace Along

theorem inScope (along : Along linked part following) :
    Along linked (Render.inScope part) (Render.inScope following) := by
  apply along_of_still
  intro first second alike
  have enters {context : Context} (sound : context.Sound) : Enters context id fun _ => none :=
    fun _ same => entered_pushScope (sound.of_frames same.frames).1
  exact StillAlong.inScope alike (enters alike.sound) (enters alike.soundTwin) along

/-- What is told of the value of such an expression is told in both runs. -/
theorem looked (channel : Channel options linked) {expr : Expr} (reading : expr.isReading = true)
    {mode : EvalMode} (reads : mode.target = false) {look : Handle → Context → α}
    (same : ∀ {first second handle other}, ReadsAlike first second → handle.Parallel other →
      look handle first = look other second) :
    Along linked
      (inContext fun context =>
        (look (context.evaluate mode expr).1 (context.evaluate mode expr).2, (context.evaluate mode expr).2))
      (inContext fun context =>
        (look (context.evaluate mode expr).1 (context.evaluate mode expr).2, (context.evaluate mode expr).2)) := by
  intro first second state twin beside
  obtain ⟨parallel, after⟩ := beside.evaluated channel reading reads
  rw [inContext_eq, inContext_eq]
  exact .ok (same after.alike parallel) after

theorem valued (channel : Channel options linked) {expr : Expr} (reading : expr.isReading = true) :
    Along linked (inContext (Context.execValue? expr)) (inContext (Context.execValue? expr)) :=
  looked channel reading rfl fun alike parallel => alike.read? parallel

theorem held (channel : Channel options linked) {guard : Expr} (reading : guard.isReading = true) :
    Along linked (inContext (Context.holds guard)) (inContext (Context.holds guard)) :=
  looked channel reading rfl fun alike parallel => congrArg Value.toBool (alike.valueOf parallel)

/-- Both loops go over the same, each in its own context. -/
theorem goesOver {handle twinHandle : Handle} (parallel : handle.Parallel twinHandle) (item : String)
    (key : Option String) (hasElse : Bool) {body other : RunM Unit} (along : Along linked body other)
    (first second : Context) :
    Pairs (Beside linked first second) (· = ·) (Beside linked first second)
      (do
        let source ← inContext (Context.loopSource handle)
        (sourcePasses item key hasElse source).elim (return false) fun passes => do
          eachStep id body passes
          return true)
      (do
        let source ← inContext (Context.loopSource twinHandle)
        (sourcePasses item key hasElse source).elim (return false) fun passes => do
          eachStep id other passes
          return true) := by
  intro state twin beside
  obtain ⟨sound, soundTwin, -, -, -, -, unlimited, unlimitedTwin⟩ := beside.alike
  obtain ⟨kept, within⟩ := readsAlike_loopSource sound unlimited handle
  obtain ⟨keptTwin, withinTwin⟩ := readsAlike_loopSource soundTwin unlimitedTwin twinHandle
  have begun : Beside linked first second { state with context := (state.context.loopSource handle).2 }
      { twin with context := (twin.context.loopSource twinHandle).2 } := by
    refine ⟨beside.alike.changed kept keptTwin, beside.within.trans within, beside.withinTwin.trans withinTwin, ?_⟩
    rw [reports_loopSource, reports_loopSource]
    exact beside.linked
  have passes : Option.Rel _ (sourcePasses item key hasElse (state.context.loopSource handle).1) _ :=
    loopSource_passes sound handle
  have passesTwin : Option.Rel _ (sourcePasses item key hasElse (twin.context.loopSource twinHandle).1) _ :=
    loopSource_passes soundTwin twinHandle
  rw [← beside.alike.read? parallel] at passesTwin
  rw [bind_eq, bind_eq, inContext_eq, inContext_eq]
  dsimp only
  generalize sourcePasses item key hasElse (state.context.loopSource handle).1 = enters at passes
  generalize sourcePasses item key hasElse (twin.context.loopSource twinHandle).1 = others at passesTwin
  generalize shownPasses item key hasElse (state.context.read? handle) = shown at passes passesTwin
  cases passes with
  | none =>
    cases passesTwin
    exact .ok rfl begun
  | some passes =>
    cases passesTwin with
    | some passesTwin =>
      have loops := StillAlong.eachStep begun.alike passes passesTwin along
      have returns := StillAlong.bind loops fun _ => StillAlong.pure true
      have ended := returns _ _ begun.still
      exact ended.relate (begun.after (ended.related.beside begun.alike))

theorem loop (channel : Channel options linked) {source : Expr} (reading : source.isReading = true)
    (item : String) (key : Option String) (hasElse : Bool) {body other : RunM Unit}
    (along : Along linked body other) :
    Along linked (Render.loop item key source hasElse body) (Render.loop item key source hasElse other) := by
  intro first second
  rw [loop_eq, loop_eq]
  have evaluated : Pairs (Beside linked first second) Handle.Parallel (Beside linked first second)
      (inContext (Context.exec source)) (inContext (Context.exec source)) := by
    intro state twin beside
    have reads : EvalMode.strict.target = false := rfl
    obtain ⟨parallel, after⟩ := beside.evaluated channel reading reads
    exact .ok parallel after
  exact evaluated.bind fun _ _ parallel => goesOver parallel item key hasElse along first second

theorem define (channel : Channel options linked) (name : String) (signature : Expr) (body : List Chunk) :
    Along linked (modifyContext (Render.define name signature body))
      (modifyContext (Render.define name signature body)) := by
  intro first second state twin beside
  have failed (fault : EvalFault) :
      Beside linked first second { state with context := state.context.reportFault fault }
        { twin with context := twin.context.reportFault fault } :=
    beside.after ((beside.still.reported (channel.added beside.linked fault)).beside beside.alike)
  have defined (mixin : Mixin) :
      Beside linked first second { state with context := state.context.withMixin mixin }
        { twin with context := twin.context.withMixin mixin } :=
    beside.after ⟨beside.alike.withMixin mixin, within_modifyFrame _ _, within_modifyFrame _ _, beside.linked⟩
  suffices after : Beside linked first second
      { state with context := Render.define name signature body state.context }
      { twin with context := Render.define name signature body twin.context } from .ok rfl after
  unfold Render.define
  cases Mixin.ofDefinition name signature body with
  | error fault => exact failed fault
  | ok mixin =>
    have goesOn (context : Context) :
        (Except.ok mixin >>= context.defineMixin : Except EvalFault Context) = context.defineMixin mixin := rfl
    have current : state.context.current = twin.context.current := by
      rw [Context.current, beside.alike.depth, Context.current]
    rw [goesOn, goesOn, defineMixin_eq, defineMixin_eq, current, beside.alike.mixins]
    by_cases known : Entries.contains mixin.name (twin.context.mixinsAt twin.context.current) = true
    · rw [if_pos known, if_pos known]
      exact failed _
    · rw [if_neg known, if_neg known]
      exact defined mixin

theorem whileStep (channel : Channel options linked) {guard : Expr} (reading : guard.isReading = true)
    {body other : RunM Unit} (along : Along linked body other) (bound : Nat) :
    Along linked (Render.whileStep guard body bound) (Render.whileStep guard other bound) := by
  induction bound with
  | zero => exact fun _ _ => Pairs.throw Halt.exhausted
  | succ bound step =>
    unfold Render.whileStep
    refine bind (inScope (bind (held channel reading) fun holds => ?_)) fun again => ?_
    · cases holds with
      | false => exact pure false
      | true =>
        refine bind (along_of_still .step) fun left => ?_
        cases left with
        | false => exact pure false
        | true => exact bind along.stepping fun _ => pure true
    · cases again with
      | false => exact pure ()
      | true => exact step

/-- Both contexts escape outputs, or neither does. -/
theorem escaping {next more : Bool → RunM Unit} (along : ∀ escapes, Along linked (next escapes) (more escapes)) :
    Along linked (do next (← getContext).escapeOutput) (do more (← getContext).escapeOutput) := by
  intro first second state twin beside
  rw [bind_eq, bind_eq, getContext_eq, getContext_eq]
  dsimp only
  rw [beside.alike.escapes]
  exact along _ _ _ _ _ beside

end Along

end Loops

end HtmlTemplate
