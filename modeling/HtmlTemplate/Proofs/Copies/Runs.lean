import HtmlTemplate.Proofs.Copies.Evaluation

/-! Runs of chunks that change nothing but parameters. Each part of such a run leaves what is outside of the call
as it was, however the part ends; so does a call in it, as that call has an outside of its own. -/

namespace HtmlTemplate.Call

open Rules Render

variable {callable : List String} {call : Call callable} {α : Type}

/-- A part of a run leaves everything outside of the call as it was, and as many scopes open. -/
def Contains (call : Call callable) {α : Type} (part : RunM α) : Prop :=
  Stays (fun state : RunState => call.Inside state.context)
    (fun before after => Level before.context after.context) part

theorem run_growth : Growth fun before after : RunState => Level before.context after.context :=
  ⟨fun _ => rfl, level_growth.trans⟩

/-! What the scopes are not looked at for. -/

theorem counts : StepsKept call.Inside Level where
  counted _ inside := ⟨inside.congr rfl rfl, rfl⟩
  refused _ inside := ⟨inside.congr rfl rfl, rfl⟩

namespace Contains

theorem pure (value : α) : call.Contains (Pure.pure value : RunM α) :=
  Stays.pure run_growth value

theorem bind {β : Type} {first : RunM α} {next : α → RunM β} (contains : call.Contains first)
    (goesOn : ∀ value, call.Contains (next value)) : call.Contains (first >>= next) :=
  Stays.bind run_growth contains goesOn

theorem note (event : Event) : call.Contains (Render.note event) := fun _ inside => ⟨inside, rfl⟩

theorem write (text : String) : call.Contains (Render.write text) := by
  intro state inside
  rw [write_eq]
  split
  · exact ⟨inside, rfl⟩
  · exact ⟨inside, rfl⟩

theorem step : call.Contains (inContext Context.step) :=
  .inContext fun _ => step_acts level_growth counts

theorem getContext : call.Contains Render.getContext := .of_unchanged run_growth fun _ => rfl

theorem flushReports (options : RunOptions) : call.Contains (Render.flushReports options) :=
  .flushing run_growth write (fun _ inside => ⟨inside.congr rfl rfl, rfl⟩)
    (fun _ inside => ⟨inside.congr rfl rfl, rfl⟩) options

theorem stepping {body : RunM Unit} (contains : call.Contains body) : call.Contains (Render.stepping body) :=
  (note .stepped).bind fun _ => contains

/-! Expressions. -/

section

variable {expr : Expr} (kind : expr.isLocal call.own = true)
include kind

theorem valued : call.Contains (inContext (Context.execValue? expr)) :=
  .inContext fun _ _ inside => evaluate_inside inside kind .strict

theorem held : call.Contains (inContext (Context.holds expr)) :=
  .inContext fun _ _ inside => evaluate_inside inside kind .guard

theorem handled : call.Contains (inContext (Context.exec expr)) :=
  .inContext fun _ _ inside => evaluate_inside inside kind .strict

end

/-! Scopes and loops. -/

theorem inScope {part : RunM α} (contains : call.Contains part) : call.Contains (Render.inScope part) := by
  intro state inside
  obtain ⟨final, level⟩ := contains state.opened inside.pushScope
  have depth : (part state.opened).2.context.depth = state.context.depth + 1 :=
    level.trans (Context.depth_pushScope state.context)
  have opened := inside.opened
  refine ⟨final.popScope (by omega), ?_⟩
  change (Context.popScope (part state.opened).2.context).depth = state.context.depth
  rw [Context.depth_popScope (by omega), depth, Nat.add_sub_cancel]

theorem loopSource (handle : Handle) : call.Contains (inContext (Context.loopSource handle)) := by
  refine .inContext fun _ context inside => ?_
  unfold Context.loopSource
  split
  · exact ⟨inside, rfl⟩
  · split
    · exact ⟨inside.pushTemp _, Context.depth_modifyFrame ..⟩
    · exact ⟨inside, rfl⟩
  · split
    · exact ⟨inside, rfl⟩
    · exact ⟨inside, rfl⟩

theorem eachStep {enter : α → Context → Context} (enters : ∀ item, Keeps call.Inside Level (enter item))
    {body : RunM Unit} (contains : call.Contains body) (items : List α) :
    call.Contains (Render.eachStep enter body items) := by
  induction items with
  | nil => exact pure ()
  | cons item rest further =>
    refine step.bind fun again => ?_
    cases again with
    | false => exact pure ()
    | true =>
      have entered : call.Contains (modifyContext (enter item)) := .modifyContext fun _ => enters item
      exact (inScope (entered.bind fun _ => stepping contains)).bind fun _ => further

theorem guardedPass {guard : Expr} (kind : guard.isLocal call.own = true) {body : RunM Unit}
    (contains : call.Contains body) : call.Contains (Render.guardedPass guard body) := by
  refine (held kind).bind fun again => ?_
  cases again with
  | false => exact pure false
  | true =>
    refine step.bind fun counted => ?_
    cases counted with
    | false => exact pure false
    | true => exact (stepping contains).bind fun _ => pure true

theorem whileStep {guard : Expr} (kind : guard.isLocal call.own = true) {body : RunM Unit}
    (contains : call.Contains body) (bound : Nat) : call.Contains (Render.whileStep guard body bound) :=
  .repeating run_growth (inScope (guardedPass kind contains)) bound

end Contains

/-! Loop variables. The item may stand for an element of a container outside of the call, so its name is no
parameter's. -/

theorem set_keeps (name : String) (value : Value) : Keeps call.Inside Level (·.set name value) :=
  fun _ inside => ⟨inside.bind fun _ => rfl, Context.depth_modifyFrame ..⟩

theorem keyed_keeps (key : Option String) (value : Value) :
    Keeps call.Inside Level fun context => key.elim context fun key => context.set key value := by
  intro context inside
  cases key with
  | none => exact ⟨inside, rfl⟩
  | some key => exact set_keeps key value context inside

theorem enterScalar_keeps (item : String) (key : Option String) (value : Value) :
    Keeps call.Inside Level (enterScalar item key value ()) := by
  intro context inside
  obtain ⟨bound, level⟩ := set_keeps item value context inside
  exact level_growth.further level (keyed_keeps key _ _ bound)

section

variable {item : String} (other : item ∉ call.own)
include other

theorem bindAlias_keeps (place : Place) (mutable : Bool) :
    Keeps call.Inside Level (·.bindAlias item place mutable) :=
  fun _ inside => ⟨inside.bind fun own => absurd own other, Context.depth_modifyFrame ..⟩

theorem enterElement_keeps (key : Option String) (place : Place) (mutable : Bool) (position : Nat) :
    Keeps call.Inside Level (enterElement item key place mutable position) := by
  intro context inside
  obtain ⟨bound, level⟩ := bindAlias_keeps other (place.child (.index position)) mutable context inside
  exact level_growth.further level (keyed_keeps key _ _ bound)

theorem enterEntry_keeps (key : Option String) (place : Place) (mutable : Bool) (name : String) :
    Keeps call.Inside Level (enterEntry item key place mutable name) := by
  intro context inside
  obtain ⟨bound, level⟩ := keyed_keeps key (.text name) context inside
  exact level_growth.further level (bindAlias_keeps other (place.child (.key name)) mutable _ bound)

theorem Contains.loop {source : Expr} (kind : source.isLocal call.own = true) (key : Option String)
    (hasElse : Bool) {body : RunM Unit} (contains : call.Contains body) :
    call.Contains (Render.loop item key source hasElse body) := by
  refine (Contains.handled kind).bind fun handle => ?_
  refine (Contains.loopSource handle).bind fun found => ?_
  cases found with
  | empty => exact .pure false
  | scalar value =>
    cases hasElse with
    | true => exact .pure false
    | false =>
      exact (Contains.eachStep (fun _ => enterScalar_keeps item key value) contains [()]).bind fun _ => .pure true
  | array place length mutable =>
    exact (Contains.eachStep (enterElement_keeps other key place mutable) contains (List.range length)).bind
      fun _ => .pure true
  | dict place keys mutable =>
    exact (Contains.eachStep (enterEntry_keeps other key place mutable) contains keys).bind fun _ => .pure true

end

/-! Mixins. -/

theorem define_keeps {name : String} {signature : Expr} {body : List Chunk}
    (kind : (Chunk.mixin name signature body).isLocal callable call.own = true) :
    Keeps call.Inside Level (define name signature body) := by
  intro context inside
  unfold define
  cases found : Mixin.ofDefinition name signature body with
  | error fault => exact ⟨inside.congr rfl rfl, rfl⟩
  | ok mixin =>
    have goesOn : (Except.ok mixin >>= context.defineMixin) = context.defineMixin mixin := rfl
    rw [goesOn]
    cases defined : context.defineMixin mixin with
    | error fault => exact ⟨inside.congr rfl rfl, rfl⟩
    | ok after => exact inside.defineMixin (Chunk.definition_local kind found) defined

/-! Calls. -/

/-- Either a call has been refused and has changed nothing, or its scope is open, on those that were open before,
and its body changes nothing but its parameters. -/
def Entered (callable : List String) (given : Context)
    (result : Except Halt (Option (List Chunk)) × RunState) : Prop :=
  match result with
  | (.ok (some body), after) =>
    ∃ call : Call callable, call.outer = given.frames ∧ call.hosted = given.hosted ∧
      call.Inside after.context ∧ after.context.depth = given.depth + 1 ∧
      Chunk.areLocal callable call.own body = true
  | (_, after) => given.LeftAlone after.context

theorem step_leftAlone (context : Context) : context.LeftAlone context.step.2 := by
  unfold Context.step
  dsimp only
  split
  · split
    · split
      · exact ⟨rfl, rfl⟩
      · exact ⟨rfl, rfl⟩
    · exact ⟨rfl, rfl⟩
  · exact ⟨rfl, rfl⟩

section

variable {mixin : Mixin} (copies : mixin.isLocal callable = true)
include copies

theorem callMixin_entered (values : List Value) {state : RunState} (opened : 0 < state.context.depth)
    (kind : ∀ name ∈ callable, ∀ mixin, state.context.mixin? name = some mixin → mixin.isLocal callable = true) :
    Entered callable state.context (callMixin mixin values state) := by
  obtain ⟨frames, hosted⟩ := step_leftAlone state.context
  have depth : state.context.step.2.depth = state.context.depth := congrArg List.length frames
  have kind : ∀ name ∈ callable, ∀ mixin, state.context.step.2.mixin? name = some mixin →
      mixin.isLocal callable = true := by
    intro name called mixin found
    rw [Context.mixin?, frames] at found
    exact kind name called mixin found
  unfold callMixin
  rw [bind_eq, inContext_eq]
  cases (state.context.step).1 with
  | false => exact ⟨frames, hosted⟩
  | true =>
    obtain ⟨entered, refused⟩ := enter_inside kind (depth ▸ opened) copies values
    dsimp only
    rw [if_pos rfl, bind_eq, inContext_eq]
    dsimp only
    cases complete : (mixin.enter values state.context.step.2).1 with
    | false => exact (Context.LeftAlone.mk frames hosted).trans (refused complete)
    | true =>
      obtain ⟨inside, single⟩ := entered complete
      exact ⟨_, frames, hosted, inside, single.trans (by rw [depth]), (Bool.and_eq_true_iff.mp copies).2⟩

/-- A call of a mixin that has been found is made once its arguments have been evaluated. -/
theorem answerCall_entered (name : String) (arguments : Option Expr) {state : RunState}
    (opened : 0 < (state.context.argumentValues arguments).2.depth)
    (kind : ∀ name ∈ callable, ∀ mixin, (state.context.argumentValues arguments).2.mixin? name = some mixin →
      mixin.isLocal callable = true) :
    Entered callable (state.context.argumentValues arguments).2
      (answerCall name arguments (some mixin) state) := by
  cases arguments with
  | none => exact callMixin_entered copies [] opened kind
  | some arguments =>
    unfold answerCall
    dsimp only
    rw [bind_eq, inContext_eq]
    change Entered callable (state.context.execArguments arguments).2 _
    cases (state.context.execArguments arguments).1 with
    | none => exact ⟨rfl, rfl⟩
    | some values =>
      let evaluated : RunState := { state with context := (state.context.execArguments arguments).2 }
      have evaluatedOpened : 0 < evaluated.context.depth := opened
      exact callMixin_entered copies values evaluatedOpened kind

end

/-- Whatever is run by its name leaves everything outside of its call as it was. -/
def AllContained (callable : List String) (again : RunOptions → List Chunk → RunM Unit) : Prop :=
  ∀ (call : Call callable) options chunks, Chunk.areLocal callable call.own chunks = true →
    call.Contains (again options chunks)

variable {again : RunOptions → List Chunk → RunM Unit}

/-- When a call is over, the scopes are as they were once its arguments had been evaluated. -/
theorem mixinCall_leftAlone (contained : AllContained callable again) {name : String}
    {arguments : Option Expr} {given : Context} (opened : 0 < given.depth) {state : RunState}
    (entered : Entered callable given (enterCall name arguments state)) (bound : Nat) (options : RunOptions) :
    given.LeftAlone (runChunk again bound options (.mixinCall name arguments) state).2.context := by
  unfold runChunk
  rw [bind_eq]
  generalize enterCall name arguments state = result at entered
  obtain ⟨halt | _ | body, after⟩ := result
  · exact entered
  · exact entered
  · obtain ⟨call, frames, hosted, inside, single, kind⟩ := entered
    have body := (Contains.note .entered).bind fun _ => Contains.stepping (contained call options body kind)
    obtain ⟨final, level⟩ := body after inside
    have outer : call.outer.length = given.depth := congrArg List.length frames
    obtain ⟨scopes, values⟩ := final.left (level.trans (outer ▸ single)) (outer ▸ opened)
    exact ⟨scopes.trans frames, values.trans hosted⟩

/-- A call in a call is made from what its arguments have left, if there is such a mixin. -/
theorem Inside.enterCall {state : RunState} (inside : call.Inside state.context) {name : String}
    (called : name ∈ callable) {arguments : Option Expr} (kind : arguments.all (Expr.isLocal call.own) = true) :
    ∃ given, call.Inside given ∧ Level state.context given ∧
      Entered callable given (Render.enterCall name arguments state) := by
  rw [enterCall_eq, bind_eq, getContext_eq]
  dsimp only
  cases found : state.context.mixin? name with
  | none => exact ⟨state.context, inside, rfl, rfl, rfl⟩
  | some mixin =>
    obtain ⟨given, level⟩ : call.Inside (state.context.argumentValues arguments).2 ∧
        Level state.context (state.context.argumentValues arguments).2 := by
      cases arguments with
      | none => exact ⟨inside, rfl⟩
      | some arguments => exact execArguments_inside inside kind
    exact ⟨_, given, level, answerCall_entered (inside.mixin? called found) name arguments
      (Nat.zero_lt_of_lt given.opened) fun _ called _ found => given.mixin? called found⟩

theorem Contains.mixinCall (contained : AllContained callable again) {name : String} (called : name ∈ callable)
    {arguments : Option Expr} (kind : arguments.all (Expr.isLocal call.own) = true) (bound : Nat)
    (options : RunOptions) : call.Contains (runChunk again bound options (.mixinCall name arguments)) := by
  intro state inside
  obtain ⟨given, before, level, entered⟩ := inside.enterCall called kind
  obtain ⟨frames, hosted⟩ :=
    mixinCall_leftAlone contained (Nat.zero_lt_of_lt before.opened) entered bound options
  exact ⟨before.congr frames hosted, (congrArg List.length frames).trans level⟩

/-! All chunks. -/

theorem contains_traverses (call : Call callable) (contained : AllContained callable again) (bound : Nat)
    (options : RunOptions) :
    Traverses id options options (Twice call.Contains) (fun expr => expr.isLocal call.own = true)
      (fun chunks => Chunk.areLocal callable call.own chunks = true) again again bound bound where
  toVisits := Chunk.local_visits
  pure value := ⟨rfl, .pure value⟩
  bind twice goesOn := twice.bind Contains.bind goesOn
  began := ⟨rfl, .note .began⟩
  entered := ⟨rfl, .note .entered⟩
  valued kind := ⟨rfl, .valued kind⟩
  held kind := ⟨rfl, .held kind⟩
  inScope := by
    rintro α part _ ⟨rfl, contains⟩
    exact ⟨rfl, .inScope contains⟩
  written text := ⟨rfl, .write text⟩
  texted text := ⟨rfl, .write text⟩
  escaping twice := .bind Contains.bind ⟨rfl, .getContext⟩ fun context => twice context.escapeOutput
  flushed := ⟨rfl, .flushReports options⟩
  looped := by
    rintro item key source inner more kind hasElse body _ ⟨rfl, contains⟩
    obtain ⟨kind, -⟩ := Chunk.areLocal_cons kind
    rw [Chunk.isLocal, Bool.and_eq_true, Bool.and_eq_true, Bool.not_eq_true', Bool.eq_false_iff] at kind
    obtain ⟨⟨other, source⟩, -⟩ := kind
    exact ⟨rfl, .loop (fun own => other (List.contains_iff_mem.mpr own)) source key hasElse contains⟩
  repeated := by
    rintro guard kind body _ ⟨rfl, contains⟩
    exact ⟨rfl, .whileStep kind contains bound⟩
  defined := by
    intro name signature body more kind
    rw [Chunk.retextAll_id]
    exact ⟨rfl, .modifyContext fun _ => define_keeps (Chunk.areLocal_cons kind).1⟩
  called := by
    intro name arguments more kind
    obtain ⟨kind, -⟩ := Chunk.areLocal_cons kind
    rw [Chunk.isLocal, Bool.and_eq_true] at kind
    have contains := Contains.mixinCall contained (List.contains_iff_mem.mp kind.1) kind.2 bound options
    unfold runChunk at contains
    exact ⟨rfl, contains⟩
  included := by
    intro name depth more kind
    obtain ⟨kind, -⟩ := Chunk.areLocal_cons kind
    rw [Chunk.isLocal] at kind
    cases kind

/-- A run of chunks that change nothing but the parameters of a call leaves what is outside of the call as it
was. -/
theorem run_contained (callable : List String) (bound : Nat) : AllContained callable (run bound) := by
  induction bound with
  | zero => exact fun _ _ _ _ => Stays.throw run_growth _
  | succ bound step =>
    intro call options chunks kind
    have runs := (runChunks_traverses (contains_traverses call step bound options) .closed chunks kind).2
    exact runs

end HtmlTemplate.Call
