import HtmlTemplate.Proofs.Rules.Running
import HtmlTemplate.Proofs.Rules.Unseen

/-! Relations between two runs of the same chunks, put together from the smallest parts of a run: what is
done to the context, what is written and what is noted. Loops and calls are made of these. They keep
what every run keeps, and carry through a change of contexts that none of them sees. -/

namespace HtmlTemplate.Rules

open Render

/-- What evaluation, loops and calls ask of a context. -/
inductive Asked : {α : Type} → (Context → α × Context) → Prop where
  | evaluate (expr : Expr) : Asked (Context.exec expr)
  | value (expr : Expr) : Asked (Context.execValue? expr)
  | holds (guard : Expr) : Asked (Context.holds guard)
  | arguments (arguments : Expr) : Asked (Context.execArguments arguments)
  | source (handle : Handle) : Asked (Context.loopSource handle)
  | enter (mixin : Mixin) (arguments : List Value) : Asked (mixin.enter arguments)

/-- What a run does to a context without an answer, apart from defining mixins. -/
inductive Changed : (Context → Context) → Prop where
  | scope : Changed Context.pushScope
  | scalar (item : String) (key : Option String) (value : Value) :
      Changed (enterScalar item key value ())
  | element (item : String) (key : Option String) (place : Place) (mutable : Bool) (position : Nat) :
      Changed (enterElement item key place mutable position)
  | entry (item : String) (key : Option String) (place : Place) (mutable : Bool) (name : String) :
      Changed (enterEntry item key place mutable name)
  | unfound (name : String) : Changed (·.reportFault (.mixinNotFound name))

/-! What is kept. -/

/-- An invariant that is not about the scopes of a context, nor about the values of the host or the
steps. -/
structure Apart (valid : Context → Prop) : Prop where
  congr : ∀ {context other : Context}, valid context → other.reports = context.reports →
    other.loader = context.loader → other.escapeOutput = context.escapeOutput → valid other
  reported : ∀ {context} fault, valid context → valid (context.reportFault fault)
  told : ∀ {context name note}, valid context → context.loader name = .failed note →
    valid (context.notify note)
  taken : ∀ {context}, valid context → valid context.takePending.2
  forgotten : ∀ {context}, valid context → valid context.forgetLast

namespace Apart

variable {valid : Context → Prop}

theorem popScope (apart : Apart valid) {context : Context} (holds : valid context) : valid context.popScope := by
  unfold Context.popScope
  split
  · exact apart.congr holds rfl rfl rfl
  · exact holds

theorem bindAlias (apart : Apart valid) {context : Context} (holds : valid context) (name : String)
    (place : Place) (mutable : Bool) : valid (context.bindAlias name place mutable) :=
  apart.congr holds rfl rfl rfl

theorem kept (apart : Apart valid) : ScopesKept valid fun _ _ => True := by
  have growth : Growth fun _ _ : Context => True := ⟨fun _ => trivial, fun _ _ => trivial⟩
  have written : Kept valid fun _ _ => True :=
    { growth
      writes := by
        intro before after holds step
        obtain ⟨frames, hosted, rfl⟩ := step.elsewhere
        exact ⟨apart.congr holds rfl rfl rfl, trivial⟩ }
  exact
    { growth
      evaluated := eval_stays written
      listed := evalItems_stays written
      reported := fun _ _ holds => ⟨apart.reported _ holds, trivial⟩
      told := fun holds failed => ⟨apart.told holds failed, trivial⟩
      taken := fun _ holds => ⟨apart.taken holds, trivial⟩
      forgotten := fun _ holds => ⟨apart.forgotten holds, trivial⟩
      named := fun _ _ _ holds => ⟨apart.congr holds rfl rfl rfl, trivial⟩
      stored := fun _ _ holds => ⟨apart.congr holds rfl rfl rfl, trivial⟩
      defined := by
        intro context after mixin holds defined
        unfold Context.defineMixin at defined
        split at defined
        · cases defined
        · cases defined
          exact ⟨apart.congr holds rfl rfl rfl, trivial⟩
      counted := fun _ holds => ⟨apart.congr holds rfl rfl rfl, trivial⟩
      refused := fun _ holds => ⟨apart.reported _ holds, trivial⟩
      opened := fun holds => apart.congr holds rfl rfl rfl
      closed := fun _ inner _ => ⟨apart.popScope inner, trivial⟩
      aliased := fun _ _ _ _ inner _ _ => ⟨apart.congr inner rfl rfl rfl, trivial⟩ }

end Apart

section

variable {valid : Context → Prop} {α : Type}

theorem enter_acts (apart : Apart valid) (mixin : Mixin) (arguments : List Value) :
    Acts valid (fun _ _ => True) (mixin.enter arguments) := by
  intro context holds
  have bound := (bindParameters_acts apart.kept.toContextKept mixin.name mixin.parameters arguments
    context.pushScope (apart.kept.opened holds)).1
  unfold Mixin.enter
  generalize Mixin.bindParameters mixin.name mixin.parameters arguments context.pushScope = result at bound
  obtain ⟨complete, after⟩ := result
  cases complete with
  | true => exact ⟨bound, trivial⟩
  | false => exact ⟨apart.popScope bound, trivial⟩

theorem Asked.acts (apart : Apart valid) {action : Context → α × Context} (asked : Asked action) :
    Acts valid (fun _ _ => True) action := by
  have kept := apart.kept.toContextKept
  cases asked with
  | evaluate expr => exact evaluate_acts kept .strict expr
  | value expr => exact execValue?_acts kept expr
  | holds guard => exact holds_acts kept guard
  | arguments arguments => exact execArguments_acts kept arguments
  | source handle => exact loopSource_acts kept handle
  | enter mixin arguments => exact enter_acts apart mixin arguments

theorem Changed.keeps (apart : Apart valid) {change : Context → Context} (changed : Changed change) :
    Keeps valid (fun _ _ => True) change := by
  have kept := apart.kept.toContextKept
  intro context holds
  cases changed with
  | scope => exact ⟨apart.kept.opened holds, trivial⟩
  | scalar item key value => exact enterScalar_keeps kept item key value context holds
  | element item key place mutable position =>
    exact keyed_keeps kept key _ _ (apart.bindAlias holds item _ mutable)
  | entry item key place mutable name =>
    exact ⟨apart.bindAlias (keyed_keeps kept key _ _ holds).1 item _ mutable, trivial⟩
  | unfound name => exact ⟨apart.reported _ holds, trivial⟩

theorem Apart.steps (apart : Apart valid) : Acts valid (fun _ _ => True) Context.step :=
  step_acts apart.kept.growth apart.kept.toStepsKept

theorem Apart.defines (apart : Apart valid) (name : String) (signature : Expr) (body : List Chunk) :
    Keeps valid (fun _ _ => True) (define name signature body) :=
  define_keeps apart.kept.toContextKept name signature body

end

/-! Changes that are carried through. -/

/-- A change of contexts that is seen neither through names and places nor through scopes and mixins. -/
structure Aside (change : Context → Context) : Prop extends Unseen change where
  pushScope : ∀ context, (change context).pushScope = change context.pushScope
  popScope : ∀ context, (change context).popScope = change context.popScope
  mixin? : ∀ context name, (change context).mixin? name = context.mixin? name
  defineMixin : ∀ context mixin,
    (change context).defineMixin mixin = (context.defineMixin mixin).map change

variable {change : Context → Context}

theorem enter_ignores_aside (aside : Aside change) (mixin : Mixin) (arguments : List Value) :
    Ignores change (mixin.enter arguments) := by
  intro context
  have bound := bindParameters_ignores aside.toUnseen mixin.name mixin.parameters arguments context.pushScope
  unfold Mixin.enter
  rw [aside.pushScope, bound]
  generalize Mixin.bindParameters mixin.name mixin.parameters arguments context.pushScope = result
  obtain ⟨complete, after⟩ := result
  cases complete with
  | true => rfl
  | false => exact congrArg (Prod.mk false) (aside.popScope after)

theorem define_commutes (aside : Aside change) (name : String) (signature : Expr) (body : List Chunk) :
    Commutes change (define name signature body) := by
  intro context
  have made : (Mixin.ofDefinition name signature body >>= (change context).defineMixin) =
      (Mixin.ofDefinition name signature body >>= context.defineMixin).map change := by
    cases Mixin.ofDefinition name signature body with
    | error fault => rfl
    | ok mixin => exact aside.defineMixin context mixin
  unfold define
  rw [made]
  cases Mixin.ofDefinition name signature body >>= context.defineMixin with
  | error fault => exact aside.reportFault context fault
  | ok defined => rfl

theorem Asked.ignores (aside : Aside change) {α : Type} {action : Context → α × Context}
    (asked : Asked action) : Ignores change action := by
  cases asked with
  | evaluate expr => exact evaluate_ignores aside.toUnseen .strict expr
  | value expr => exact execValue?_ignores aside.toUnseen expr
  | holds guard => exact holds_ignores aside.toUnseen guard
  | arguments arguments => exact execArguments_ignores aside.toUnseen arguments
  | source handle => exact loopSource_ignores aside.toUnseen handle
  | enter mixin arguments => exact enter_ignores_aside aside mixin arguments

theorem Changed.commutes (aside : Aside change) {action : Context → Context} (changed : Changed action) :
    Commutes change action := by
  cases changed with
  | scope => exact aside.pushScope
  | scalar item key value => exact enterScalar_commutes aside.toUnseen item key value ()
  | element item key place mutable position =>
    exact enterElement_commutes aside.toUnseen item key place mutable position
  | entry item key place mutable name => exact enterEntry_commutes aside.toUnseen item key place mutable name
  | unfound name => exact fun context => aside.reportFault context _

/-! Runs from their parts. -/

/-- A relation that goes through the smallest parts that loops and scopes are made of. -/
structure Loops (rel : {α : Type} → RunM α → RunM α → Prop) : Prop where
  pure : ∀ {α : Type} (value : α), rel (Pure.pure value) (Pure.pure value)
  bind : ∀ {α β : Type} {first second : RunM α} {next following : α → RunM β}, rel first second →
    (∀ value, rel (next value) (following value)) → rel (first >>= next) (second >>= following)
  exhausted : rel (throw .exhausted : RunM Unit) (throw .exhausted)
  noted : ∀ {event}, (∀ text, event ≠ .wrote text) → rel (note event) (note event)
  asked : ∀ {α : Type} {action : Context → α × Context}, Asked action →
    rel (inContext action) (inContext action)
  counted : rel (inContext Context.step) (inContext Context.step)
  changed : ∀ {change}, Changed change → rel (modifyContext change) (modifyContext change)
  closing : ∀ {α : Type} {first second : RunM α}, rel first second →
    rel (Render.closing first) (Render.closing second)

/-- A relation that goes through the smallest parts of two runs. -/
structure Assembles (rel : {α : Type} → RunM α → RunM α → Prop) : Prop extends Loops rel where
  written : ∀ text, rel (write text) (write text)
  flushed : ∀ options, rel (flushReports options) (flushReports options)
  defined : ∀ name signature body,
    rel (modifyContext (define name signature body)) (modifyContext (define name signature body))
  escaping : ∀ {next following : Bool → RunM Unit},
    (∀ escapes, rel (next escapes) (following escapes)) →
    rel (do next (← getContext).escapeOutput) (do following (← getContext).escapeOutput)
  /-- Whether there is a mixin is asked for in a run. -/
  finding : ∀ name {next following : Option Mixin → RunM (Option (List Chunk))},
    (∀ found, rel (next found) (following found)) →
    rel (do next ((← getContext).mixin? name)) (do following ((← getContext).mixin? name))
  /-- Templates are included without being looked into. -/
  included : ∀ again options name depth,
    rel (runInclude again options name depth) (runInclude again options name depth)

namespace Loops

variable {rel : {α : Type} → RunM α → RunM α → Prop} {α : Type} {body following : RunM Unit}

theorem stepping (loops : Loops rel) (related : rel body following) :
    rel (Render.stepping body) (Render.stepping following) :=
  loops.bind (loops.noted nofun) fun _ => related

theorem inScope (loops : Loops rel) {first second : RunM α} (related : rel first second) :
    rel (Render.inScope first) (Render.inScope second) :=
  loops.bind (loops.changed .scope) fun _ => loops.closing related

theorem eachStep (loops : Loops rel) {enter : α → Context → Context}
    (enters : ∀ item, Changed (enter item)) (related : rel body following) (items : List α) :
    rel (Render.eachStep enter body items) (Render.eachStep enter following items) := by
  induction items with
  | nil => exact loops.pure ()
  | cons item rest step =>
    apply loops.bind loops.counted
    intro counted
    cases counted with
    | false => exact loops.pure ()
    | true =>
      have pass := loops.bind (loops.changed (enters item)) fun _ => loops.stepping related
      exact loops.bind (loops.inScope pass) fun _ => step

theorem loop (loops : Loops rel) (related : rel body following) (item : String)
    (key : Option String) (source : Expr) (hasElse : Bool) :
    rel (Render.loop item key source hasElse body) (Render.loop item key source hasElse following) := by
  apply loops.bind (loops.asked (.evaluate source))
  intro handle
  apply loops.bind (loops.asked (.source handle))
  intro found
  cases found with
  | empty => exact loops.pure false
  | scalar value =>
    cases hasElse with
    | true => exact loops.pure false
    | false =>
      have once := loops.eachStep (fun _ => .scalar item key value) related [()]
      exact loops.bind once fun _ => loops.pure true
  | array place length mutable =>
    have each := loops.eachStep (.element item key place mutable) related (List.range length)
    exact loops.bind each fun _ => loops.pure true
  | dict place keys mutable =>
    have each := loops.eachStep (.entry item key place mutable) related keys
    exact loops.bind each fun _ => loops.pure true

theorem guardedPass (loops : Loops rel) (related : rel body following) (guard : Expr) :
    rel (Render.guardedPass guard body) (Render.guardedPass guard following) := by
  apply loops.bind (loops.asked (.holds guard))
  intro again
  cases again with
  | false => exact loops.pure false
  | true =>
    apply loops.bind loops.counted
    intro counted
    cases counted with
    | false => exact loops.pure false
    | true => exact loops.bind (loops.stepping related) fun _ => loops.pure true

theorem whileStep (loops : Loops rel) (related : rel body following) (guard : Expr) (bound : Nat) :
    rel (Render.whileStep guard body bound) (Render.whileStep guard following bound) := by
  induction bound with
  | zero => exact loops.exhausted
  | succ bound step =>
    apply loops.bind (loops.inScope (loops.guardedPass related guard))
    intro again
    cases again with
    | false => exact loops.pure ()
    | true => exact step

/-- What goes through loops and scopes goes through choices. -/
theorem steers (loops : Loops rel) : Steers rel fun _ => True where
  pure := loops.pure
  bind := loops.bind
  began := loops.noted nofun
  entered := loops.noted nofun
  valued _ := loops.asked (.value _)
  held _ := loops.asked (.holds _)
  inScope := loops.inScope
  looped _ item key hasElse _ _ related := loops.loop related item key _ hasElse

end Loops

namespace Assembles

variable {rel : {α : Type} → RunM α → RunM α → Prop}

/-! Calls. -/

theorem callMixin (assembles : Assembles rel) (mixin : Mixin) (arguments : List Value) :
    rel (Render.callMixin mixin arguments) (Render.callMixin mixin arguments) := by
  apply assembles.bind assembles.counted
  intro counted
  cases counted with
  | false => exact assembles.pure none
  | true =>
    apply assembles.bind (assembles.asked (.enter mixin arguments))
    intro entered
    cases entered with
    | false => exact assembles.pure none
    | true => exact assembles.pure (some mixin.body)

theorem enterCall (assembles : Assembles rel) (name : String) (arguments : Option Expr) :
    rel (Render.enterCall name arguments) (Render.enterCall name arguments) := by
  rw [enterCall_eq]
  apply assembles.finding name
  intro found
  cases found with
  | none => exact assembles.bind (assembles.changed (.unfound name)) fun _ => assembles.pure none
  | some mixin =>
    cases arguments with
    | none => exact assembles.callMixin mixin []
    | some arguments =>
      apply assembles.bind (assembles.asked (.arguments arguments))
      intro values
      cases values with
      | none => exact assembles.pure none
      | some values => exact assembles.callMixin mixin values

theorem composes (assembles : Assembles rel) {again : RunOptions → List Chunk → RunM Unit}
    (related : ∀ options chunks, rel (again options chunks) (again options chunks)) (bound : Nat) :
    Composes rel (fun _ => True) True again again bound bound where
  toSteers := assembles.steers
  written := assembles.written
  flushed := assembles.flushed
  escaping := assembles.escaping
  repeated _ _ _ related := assembles.whileStep related _ bound
  defined name signature body _ _ := assembles.defined name signature body
  called name arguments _ options := by
    apply assembles.bind (assembles.enterCall name arguments)
    intro found
    cases found with
    | none => exact assembles.pure ()
    | some body =>
      exact assembles.closing (assembles.bind (assembles.noted nofun) fun _ =>
        assembles.stepping (related options body))
  included _ options name depth := assembles.included again options name depth

/-- What goes through the smallest parts of two runs goes through the runs of all chunks. -/
theorem run (assembles : Assembles rel) (bound : Nat) (options : RunOptions) (chunks : List Chunk) :
    rel (Render.run bound options chunks) (Render.run bound options chunks) := by
  induction bound generalizing options chunks with
  | zero => exact assembles.exhausted
  | succ bound step =>
    exact runChunks_composes (assembles.composes step bound) options .closed chunks (.everything chunks)

end Assembles

end HtmlTemplate.Rules
