import HtmlTemplate.Proofs.Alternatives.Walking

/-! No chunk is reached by itself that should be run by another one. Whatever would be done there, a run is
the same: in contexts whose mixins have been compiled, and with templates to include that have been. -/

namespace HtmlTemplate.Alternatives

open Chunk Render Rules

variable {α β : Type}

/-- The chunks that can be found by a name are where they belong. -/
structure Fitting (context : Context) : Prop where
  mixins : context.Holds fun body => placed none body = true
  loaded : ∀ {name template}, context.loader name = .template template → placed none template.chunks = true

theorem fitting_new : Fitting .new where
  mixins := by
    intro frame member
    cases List.mem_singleton.mp member
    nofun
  loaded := nofun

/-- A host that gives templates that have been compiled. -/
theorem Fitting.load {context : Context} (fitting : Fitting context) {loader : String → Loaded}
    (compiles : ∀ name template, loader name = .template template →
      ∃ fold options source, Template.ofSourceWith fold options source = .ok template) :
    Fitting { context with loader } where
  mixins := fitting.mixins
  loaded {name template} found := by
    obtain ⟨fold, options, source, compiled⟩ := compiles name template found
    exact template_placed compiled

theorem loaded_apart : Apart fun context => ∀ {name template},
    context.loader name = .template template → placed none template.chunks = true where
  congr loaded _ same _ := by
    rw [same]
    exact loaded
  reported _ loaded := loaded
  told loaded _ := loaded
  taken loaded := loaded
  forgotten loaded := loaded

/-- Two runs do the same in such a context and leave such a context, with a result of some kind. -/
def Agree (fits : α → Prop) (first second : RunM α) : Prop :=
  ∀ state, Fitting state.context →
    first state = second state ∧ Fitting (second state).2.context ∧
      ∀ value, (second state).1 = .ok value → fits value

/-- Two runs that do the same, with whatever result. -/
abbrev Agrees (first second : RunM α) : Prop := Agree (fun _ => True) first second

namespace Agree

variable {fits : α → Prop} {later : β → Prop} {first second : RunM α}

/-- A run that keeps the context in order. -/
theorem kept {program : RunM α} (keeps : ∀ state, Fitting state.context → Fitting (program state).2.context) :
    Agrees program program :=
  fun state fitting => ⟨rfl, keeps state fitting, fun _ _ => trivial⟩

theorem pure {value : α} (holds : fits value) : Agree fits (Pure.pure value) (Pure.pure value) := by
  refine fun state fitting => ⟨rfl, fitting, fun result done => ?_⟩
  cases done
  exact holds

theorem throw (halt : Halt) : Agree fits (MonadExcept.throw halt) (MonadExcept.throw halt) :=
  fun _ fitting => ⟨rfl, fitting, nofun⟩

theorem bind {next following : α → RunM β} (agree : Agree fits first second)
    (goesOn : ∀ value, fits value → Agree later (next value) (following value)) :
    Agree later (first >>= next) (second >>= following) := by
  intro state fitting
  obtain ⟨same, kept, holds⟩ := agree state fitting
  rw [bind_eq, bind_eq, same]
  generalize second state = ended at kept holds
  obtain ⟨halt | value, after⟩ := ended
  · exact ⟨rfl, kept, nofun⟩
  · exact goesOn value (holds value rfl) after kept

/-- Two runs that look at their context. -/
theorem reading {next following : Context → RunM α}
    (agree : ∀ context, Fitting context → Agree fits (next context) (following context)) :
    Agree fits (getContext >>= next) (getContext >>= following) := by
  intro state fitting
  rw [bind_eq, bind_eq, getContext_eq]
  exact agree state.context fitting state fitting

theorem inContext {action : Context → α × Context}
    (loads : Acts (fun context => ∀ {name template},
      context.loader name = .template template → placed none template.chunks = true) (fun _ _ => True) action)
    (bodies : ∀ {context : Context}, context.Holds (fun body => placed none body = true) →
      (action context).2.Holds fun body => placed none body = true) :
    Agrees (Render.inContext action) (Render.inContext action) :=
  kept fun _ fitting => ⟨bodies fitting.mixins, (loads _ fitting.loaded).1⟩

theorem asked {action : Context → α × Context} (asked : Asked action) :
    Agrees (Render.inContext action) (Render.inContext action) :=
  inContext (asked.acts loaded_apart) asked.bodies

theorem step : Agrees (Render.inContext Context.step) (Render.inContext Context.step) :=
  inContext loaded_apart.steps step_blind.bodies

theorem changed {change : Context → Context} (changed : Changed change) :
    Agrees (modifyContext change) (modifyContext change) :=
  kept fun _ fitting => ⟨changed.bodies fitting.mixins, (changed.keeps loaded_apart _ fitting.loaded).1⟩

/-- What else is done to a context leaves its mixins and its templates as they are. -/
theorem quietly {change : Context → Context}
    (same : ∀ context, (change context).frames = context.frames ∧ (change context).loader = context.loader) :
    Agrees (modifyContext change) (modifyContext change) := by
  refine kept fun state fitting => ⟨?_, ?_⟩
  · unfold Context.Holds
    change ∀ frame ∈ (change state.context).frames, _
    rw [(same state.context).1]
    exact fitting.mixins
  · change ∀ {name template}, (change state.context).loader name = _ → _
    rw [(same state.context).2]
    exact fitting.loaded

theorem note (event : Event) : Agrees (Render.note event) (Render.note event) := kept fun _ fitting => fitting

theorem write (text : String) : Agrees (Render.write text) (Render.write text) := by
  refine kept fun state fitting => ?_
  rw [write_eq]
  split
  · exact fitting
  · exact fitting

theorem closing (agree : Agree fits first second) :
    Agree fits (Render.closing first) (Render.closing second) := by
  intro state fitting
  obtain ⟨same, kept, holds⟩ := agree state fitting
  unfold Render.closing
  rw [same]
  exact ⟨rfl, ⟨kept.mixins.popScope, loaded_apart.popScope kept.loaded⟩, holds⟩

theorem leaving (agree : Agrees first second) : Agrees (Render.leaving first) (Render.leaving second) := by
  intro state fitting
  obtain ⟨same, kept, -⟩ := agree state fitting
  unfold Render.leaving
  rw [same]
  exact ⟨rfl, kept, fun _ _ => trivial⟩

theorem attempted {first second : RunM Unit} (agree : Agrees first second) :
    Agrees (Render.attempted first) (Render.attempted second) := by
  intro state fitting
  obtain ⟨same, kept, -⟩ := agree state fitting
  unfold Render.attempted
  rw [same]
  refine ⟨rfl, ?_, fun _ _ => trivial⟩
  generalize second state = ended at kept
  obtain ⟨halt | value, after⟩ := ended
  · cases halt <;> exact kept
  · exact kept

theorem captured (agree : Agrees first second) : Agrees (Render.captured first) (Render.captured second) := by
  intro state fitting
  obtain ⟨same, kept, -⟩ := agree { state with sink := .unlimited } fitting
  unfold Render.captured
  rw [same]
  exact ⟨rfl, kept, fun _ _ => trivial⟩

theorem flushReports (options : RunOptions) :
    Agrees (Render.flushReports options) (Render.flushReports options) := by
  have taken : Agrees (Render.inContext Context.takePending) (Render.inContext Context.takePending) :=
    kept fun _ fitting => ⟨fitting.mixins, fitting.loaded⟩
  have written (messages : List String) : Agrees (messages.forM fun message => Render.write (comment message))
      (messages.forM fun message => Render.write (comment message)) := by
    induction messages with
    | nil => exact .pure trivial
    | cons message rest step => exact .bind (.write _) fun _ _ => step
  refine .bind taken fun messages _ => .bind (written messages) fun _ _ => ?_
  split
  · refine .reading fun context _ => ?_
    split
    · exact .pure trivial
    · exact .bind (.quietly fun _ => ⟨rfl, rfl⟩) fun _ _ => .throw _
  · exact .pure trivial

/-! Calls. -/

theorem callMixin {mixin : Mixin} (body : placed none mixin.body = true) (arguments : List Value) :
    Agree (fun found => ∀ chunks, found = some chunks → placed none chunks = true)
      (Render.callMixin mixin arguments) (Render.callMixin mixin arguments) := by
  refine .bind step fun counted _ => ?_
  cases counted with
  | false => exact .pure nofun
  | true =>
    refine .bind (asked (.enter mixin arguments)) fun entered _ => ?_
    cases entered with
    | false => exact .pure nofun
    | true => exact .pure fun chunks found => Option.some.inj found ▸ body

/-- The body of a mixin that is called is one that has been compiled. -/
theorem enterCall (name : String) (arguments : Option Expr) :
    Agree (fun found => ∀ chunks, found = some chunks → placed none chunks = true)
      (Render.enterCall name arguments) (Render.enterCall name arguments) := by
  rw [enterCall_eq]
  refine .reading fun context fitting => ?_
  cases found : context.mixin? name with
  | none => exact .bind (changed (.unfound name)) fun _ _ => .pure nofun
  | some mixin =>
    have body := fitting.mixins.mixin? found
    cases arguments with
    | none => exact callMixin body []
    | some arguments =>
      refine .bind (asked (.arguments arguments)) fun values _ => ?_
      cases values with
      | none => exact .pure nofun
      | some values => exact callMixin body values

end Agree

theorem agrees_loops : Loops Agrees where
  pure _ := .pure trivial
  bind agree goesOn := Agree.bind agree fun value _ => goesOn value
  exhausted := .throw _
  noted _ := .note _
  asked := .asked
  counted := .step
  changed := .changed
  closing := .closing

section

variable {again twin : RunOptions → List Chunk → RunM Unit}

/-- Included templates have been compiled. -/
theorem included_agrees (alike : ∀ options chunks, placed none chunks = true →
    Agrees (again options chunks) (twin options chunks)) (name : String) :
    Agrees (included again name) (included twin name) := by
  refine .reading fun context fitting => ?_
  cases found : context.loader name with
  | missing => exact .pure trivial
  | failed note => exact .bind (.quietly fun _ => ⟨rfl, rfl⟩) fun _ _ => .pure trivial
  | template template =>
    exact .bind (.quietly fun _ => ⟨rfl, rfl⟩) fun _ _ =>
      .attempted (.leaving (alike template.runOptions template.chunks (fitting.loaded found)))

theorem runInclude_agrees (alike : ∀ options chunks, placed none chunks = true →
    Agrees (again options chunks) (twin options chunks)) (options : RunOptions) (name : String) (depth : Nat) :
    Agrees (runInclude again options name depth) (runInclude twin options name depth) := by
  have noted (complete : Bool) : Agrees
      (if !complete then write (comment ("fail to include " ++ name)) else return)
      (if !complete then write (comment ("fail to include " ++ name)) else return) := by
    cases complete with
    | true => exact .pure trivial
    | false => exact .write _
  unfold runInclude
  dsimp only
  split
  · refine Agree.bind (.captured (included_agrees alike name)) fun result _ => .bind (.write _) fun _ _ => ?_
    have ended : Agrees (pure result.1) (pure result.1) := .pure trivial
    exact ended.bind fun complete _ => noted complete
  · exact Agree.bind (included_agrees alike name) fun complete _ => noted complete

/-- Chunks that are all where they belong: those of a body, or the branches of a choice by value. -/
def Ordered (chunks : List Chunk) : Prop :=
  (∃ previous, placed previous chunks = true) ∨ placedBranches chunks = true

theorem placedIn_of_ordered {chunk : Chunk} {rest : List Chunk} (ordered : Ordered (chunk :: rest)) :
    placedIn chunk = true := by
  rcases ordered with ⟨previous, placing⟩ | branches
  · exact (placed_cons.mp placing).2.1
  · simp only [placedBranches, Bool.and_eq_true] at branches
    exact branches.1.2

theorem ordered_visits : Visits (fun _ => True) Ordered where
  rest {chunk others} ordered := by
    rcases ordered with ⟨previous, placing⟩ | branches
    · exact .inl ⟨some chunk, (placed_cons.mp placing).2.2⟩
    · simp only [placedBranches, Bool.and_eq_true] at branches
      exact .inr branches.2
  body {chunk others} ordered _ := by
    have inner := placedIn_of_ordered ordered
    cases chunk with
    | caseBlock => exact .inr inner
    | _ => exact .inl ⟨none, inner⟩
  expr _ _ _ := trivial

theorem agrees_traverses (alike : ∀ options chunks, placed none chunks = true →
    Agrees (again options chunks) (twin options chunks)) (bound : Nat) (options : RunOptions) :
    Traverses id options options Agrees (fun _ => True) Ordered again twin bound bound where
  toVisits := ordered_visits
  pure := agrees_loops.pure
  bind := agrees_loops.bind
  began := .note _
  entered := .note _
  valued _ := .asked (.value _)
  held _ := .asked (.holds _)
  inScope := agrees_loops.inScope
  looped {item key source _ _} _ hasElse _ _ related := agrees_loops.loop related item key source hasElse
  written := .write
  texted := .write
  escaping agree := .reading fun context _ => agree context.escapeOutput
  flushed := .flushReports options
  repeated _ _ _ related := agrees_loops.whileStep related _ bound
  defined {name signature body more} ordered := by
    have inner : placed none body = true := placedIn_of_ordered ordered
    rw [Chunk.retextAll_id]
    exact .kept fun _ fitting => ⟨fitting.mixins.define name signature inner,
      (loaded_apart.defines name signature body _ fitting.loaded).1⟩
  called {name arguments more} _ := by
    refine Agree.bind (.enterCall name arguments) fun found body => ?_
    cases found with
    | none => exact .pure trivial
    | some chunks =>
      exact .closing (.bind (.note _) fun _ _ => agrees_loops.stepping (alike options chunks (body chunks rfl)))
  included _ := runInclude_agrees alike options _ _

end

theorem same_traverses (again : RunOptions → List Chunk → RunM Unit) (bound : Nat) (options : RunOptions) :
    Traverses id options options (fun first second => first = second) (fun _ => True) (fun _ => True)
      again again bound bound where
  rest _ := trivial
  body _ _ := trivial
  expr _ _ _ := trivial
  pure _ := rfl
  bind same goesOn := congrArg₂ _ same (funext goesOn)
  began := rfl
  entered := rfl
  valued _ := rfl
  held _ := rfl
  inScope := congrArg _
  looped _ _ _ _ := congrArg _
  written _ := rfl
  texted _ := rfl
  escaping same := congrArg _ (funext fun context => same context.escapeOutput)
  flushed := rfl
  repeated _ _ _ same := by rw [same]
  defined {_ _ body _} _ := by rw [Chunk.retextAll_id]
  called _ := rfl
  included _ := rfl

/-- With nothing to do in such a place, a walk is a run, through any chunks. -/
theorem walk_silent (bound : Nat) (options : RunOptions) (chunks : List Chunk) :
    walk (fun _ => pure ()) bound options chunks = run bound options chunks := by
  induction bound generalizing options chunks with
  | zero => rfl
  | succ bound step =>
    have same : walk (fun _ => pure ()) bound = run bound := funext fun options => funext (step options)
    unfold walk run
    rw [same]
    exact walkChunks_traverses (same_traverses (run bound) bound options) .closed chunks trivial
      (.start (.inl fun _ => rfl))

/-- Whatever is to be done in such a place, a walk through chunks that are where they belong is a run. -/
theorem walk_agrees (stray : Chunk → RunM Unit) (bound : Nat) (options : RunOptions) {chunks : List Chunk}
    (placing : placed none chunks = true) :
    Agrees (walk stray bound options chunks) (run bound options chunks) := by
  induction bound generalizing options chunks with
  | zero => exact .throw _
  | succ bound step =>
    exact walkChunks_traverses (agrees_traverses (fun options chunks placing => step options placing) bound options)
      .closed chunks (.inl ⟨none, placing⟩) (.start (.inr placing))

end HtmlTemplate.Alternatives
