import HtmlTemplate.Proofs.Rules.Actions
import HtmlTemplate.Proofs.Rules.Composition

/-! Assertions for runs of templates. What the parts of a run within a scope keep, and the
opening and closing of scopes, every run keeps: of any chunks, with any output, however it
ends. -/

namespace HtmlTemplate

namespace RunState

/-- A state with a scope opened in it. -/
def opened (state : RunState) : RunState := { state with context := state.context.pushScope }

def closed (state : RunState) : RunState := { state with context := state.context.popScope }

end RunState

namespace Rules

/-- The place of one element of what a loop goes over, and whether it may be changed. -/
inductive Element : LoopSource → Place → Bool → Prop where
  | position {place : Place} {length : Nat} {mutable : Bool} {index : Nat} (within : index < length) :
      Element (.array place length mutable) (place.child (.index index)) mutable
  | entry {place : Place} {keys : List String} {mutable : Bool} {name : String} (member : name ∈ keys) :
      Element (.dict place keys mutable) (place.child (.key name)) mutable

/-- An invariant and a relation that everything a run does keeps. -/
structure RunKept (valid : RunState → Prop) (grows : RunState → RunState → Prop) : Prop where
  growth : Growth grows
  /-- What is done to the context within a scope. -/
  within : ∀ state : RunState, ContextKept (fun context => valid { state with context })
    fun before after => grows { state with context := before } { state with context := after }
  counting : ∀ state : RunState, StepsKept (fun context => valid { state with context })
    fun before after => grows { state with context := before } { state with context := after }
  remembered : ∀ {state}, valid state → ∀ event,
    valid (state.remember event) ∧ grows state (state.remember event)
  wrote : ∀ {state}, valid state → ∀ text,
    valid (Render.write text state).2 ∧ grows state (Render.write text state).2
  opened : ∀ {state}, valid state → valid state.opened
  closed : ∀ {state inner}, valid state → valid inner → grows state.opened inner →
    valid inner.closed ∧ grows state inner.closed
  /-- A part is given an output of its own. -/
  diverted : ∀ {state : RunState}, valid state → valid { state with sink := .unlimited }
  restored : ∀ {state inner : RunState}, valid state → valid inner →
    grows { state with sink := .unlimited } inner →
    valid { inner with sink := state.sink } ∧ grows state { inner with sink := state.sink }
  /-- A loop variable is bound in the scope of a pass, when the run has gone on from where the
  loop began. -/
  aliased : ∀ {start later inner : RunState} {handle place mutable}, valid start →
    Element (start.context.loopSource handle).1 place mutable →
    valid later → grows { start with context := (start.context.loopSource handle).2 } later →
    valid inner → grows later.opened inner → ∀ name,
    let bound := { inner with context := inner.context.bindAlias name place mutable }
    valid bound ∧ grows inner bound

/-- An invariant and a relation of contexts alone that everything a run does keeps. -/
structure ScopesKept (valid : Context → Prop) (grows : Context → Context → Prop) : Prop
    extends ContextKept valid grows, StepsKept valid grows where
  opened : ∀ {context}, valid context → valid context.pushScope
  closed : ∀ {context inner}, valid context → valid inner → grows context.pushScope inner →
    valid inner.popScope ∧ grows context inner.popScope
  aliased : ∀ {start handle later inner place mutable}, valid start →
    Element (start.loopSource handle).1 place mutable →
    valid later → grows (start.loopSource handle).2 later →
    valid inner → grows later.pushScope inner → ∀ name,
    valid (inner.bindAlias name place mutable) ∧ grows inner (inner.bindAlias name place mutable)

theorem ScopesKept.run {valid : Context → Prop} {grows : Context → Context → Prop}
    (kept : ScopesKept valid grows) :
    RunKept (fun state => valid state.context)
      fun before after => grows before.context after.context where
  growth := ⟨fun state => kept.growth.refl state.context, kept.growth.trans⟩
  within _ := kept.toContextKept
  counting _ := kept.toStepsKept
  remembered holds _ := ⟨holds, kept.growth.refl _⟩
  wrote holds text := by
    rw [Render.write_eq]
    split
    · exact ⟨holds, kept.growth.refl _⟩
    · exact ⟨holds, kept.growth.refl _⟩
  opened holds := kept.opened holds
  closed holds inner related := kept.closed holds inner related
  diverted holds := holds
  restored _ inner related := ⟨inner, related⟩
  aliased holds element later related inner further := kept.aliased holds element later related inner further

section

variable {valid : RunState → Prop} {grows : RunState → RunState → Prop} {α β : Type}

/-! Loop variables. -/

theorem keyed_keeps {valid : Context → Prop} {grows : Context → Context → Prop}
    (kept : ContextKept valid grows) (key : Option String) (value : Value) :
    Keeps valid grows fun context => key.elim context fun key => context.set key value := by
  intro context holds
  cases key with
  | none => exact ⟨holds, kept.growth.refl context⟩
  | some key => exact kept.named key value context holds

theorem enterScalar_keeps {valid : Context → Prop} {grows : Context → Context → Prop}
    (kept : ContextKept valid grows) (item : String) (key : Option String) (value : Value) :
    Keeps valid grows (Render.enterScalar item key value ()) := by
  intro context holds
  obtain ⟨bound, related⟩ := kept.named item value context holds
  exact kept.growth.further related (keyed_keeps kept key _ _ bound)

/-- Entering an item of a loop in the scope that has been opened for a pass. -/
def Enters (valid : RunState → Prop) (grows : RunState → RunState → Prop)
    (enter : Context → Context) (later : RunState) : Prop :=
  let entered := { later.opened with context := enter later.opened.context }
  valid entered ∧ grows later.opened entered

/-- The variables of a pass are bound in the scope of the pass. -/
theorem enterElement_enters (kept : RunKept valid grows) {start : RunState} {handle : Handle}
    (holds : valid start) {place : Place} {length : Nat} {mutable : Bool}
    (source : (start.context.loopSource handle).1 = .array place length mutable) {position : Nat}
    (inside : position < length) {later : RunState} (laterHolds : valid later)
    (related : grows { start with context := (start.context.loopSource handle).2 } later)
    (item : String) (key : Option String) :
    Enters valid grows (Render.enterElement item key place mutable position) later := by
  have opened := kept.opened laterHolds
  have element : Element (start.context.loopSource handle).1 (place.child (.index position)) mutable :=
    source ▸ .position inside
  obtain ⟨bound, further⟩ := kept.aliased holds element laterHolds related opened
    (kept.growth.refl _) item
  exact kept.growth.further further (keyed_keeps (kept.within later.opened) key _ _ bound)

theorem enterEntry_enters (kept : RunKept valid grows) {start : RunState} {handle : Handle}
    (holds : valid start) {place : Place} {keys : List String} {mutable : Bool}
    (source : (start.context.loopSource handle).1 = .dict place keys mutable) {name : String}
    (member : name ∈ keys) {later : RunState} (laterHolds : valid later)
    (related : grows { start with context := (start.context.loopSource handle).2 } later)
    (item : String) (key : Option String) :
    Enters valid grows (Render.enterEntry item key place mutable name) later := by
  have element : Element (start.context.loopSource handle).1 (place.child (.key name)) mutable :=
    source ▸ .entry member
  obtain ⟨bound, further⟩ := keyed_keeps (kept.within later.opened) key (.text name)
    later.opened.context (kept.opened laterHolds)
  exact kept.growth.further further
    (kept.aliased holds element laterHolds related bound further item)

/-! Parts of runs. -/

namespace Stays

theorem inContext {action : Context → α × Context}
    (acts : ∀ state : RunState, Acts (fun context => valid { state with context })
      (fun before after => grows { state with context := before } { state with context := after })
      action) :
    Stays valid grows (Render.inContext action) :=
  fun state holds => acts state state.context holds

theorem modifyContext {change : Context → Context}
    (keeps : ∀ state : RunState, Keeps (fun context => valid { state with context })
      (fun before after => grows { state with context := before } { state with context := after })
      change) :
    Stays valid grows (Render.modifyContext change) :=
  fun state holds => keeps state state.context holds

theorem stepped (kept : RunKept valid grows) (state : RunState) :
    Acts (fun context => valid { state with context })
      (fun before after => grows { state with context := before } { state with context := after })
      Context.step :=
  step_acts (kept.within state).growth (kept.counting state)

theorem getContext (kept : RunKept valid grows) : Stays valid grows Render.getContext :=
  of_unchanged kept.growth fun _ => rfl

theorem note (kept : RunKept valid grows) (event : Event) : Stays valid grows (Render.note event) :=
  fun _ holds => kept.remembered holds event

theorem write (kept : RunKept valid grows) (text : String) :
    Stays valid grows (Render.write text) :=
  fun _ holds => kept.wrote holds text

theorem entering (kept : RunKept valid grows) (chunks : List Chunk) {body : RunM Unit}
    (stays : Stays valid grows body) : Stays valid grows (Render.entering chunks body) := by
  unfold Render.entering
  split
  · exact .bind kept.growth (note kept .entered) fun _ => stays
  · exact .bind kept.growth (.pure kept.growth ()) fun _ => stays

theorem stepping (kept : RunKept valid grows) {body : RunM Unit} (stays : Stays valid grows body) :
    Stays valid grows (Render.stepping body) :=
  .bind kept.growth (note kept .stepped) fun _ => stays

theorem forM (growth : Growth grows) {act : α → RunM Unit}
    (stays : ∀ item, Stays valid grows (act item)) (items : List α) :
    Stays valid grows (items.forM act) := by
  induction items with
  | nil => exact .pure growth ()
  | cons item rest step => exact .bind growth (stays item) fun _ => step

/-- Writing the reports keeps what writing and the forgetting of reports keep. -/
theorem flushing (growth : Growth grows) (written : ∀ text, Stays valid grows (Render.write text))
    (taken : Stays valid grows (Render.inContext Context.takePending))
    (forgotten : Stays valid grows (Render.modifyContext Context.forgetLast))
    (options : RunOptions) : Stays valid grows (Render.flushReports options) := by
  apply Stays.bind growth taken
  intro messages
  apply Stays.bind growth (forM growth (fun message => written _) messages)
  intro _
  split
  · apply Stays.bind growth (.of_unchanged growth fun _ => rfl)
    intro context
    split
    · exact .pure growth ()
    · exact .bind growth forgotten fun _ => .throw growth _
  · exact .pure growth ()

theorem flushReports (kept : RunKept valid grows) (options : RunOptions) :
    Stays valid grows (Render.flushReports options) :=
  flushing kept.growth (write kept) (inContext fun state => (kept.within state).taken)
    (modifyContext fun state => (kept.within state).forgotten) options

/-- Closing the scope of a part that has been run in it. -/
theorem closing_of_opened (kept : RunKept valid grows) {part : RunM α} {before : RunState}
    (holds : valid before) (state : RunState) (inner : valid state)
    (related : grows before.opened state) (stays : Stays valid grows part) :
    valid (Render.closing part state).2 ∧ grows before (Render.closing part state).2 := by
  obtain ⟨final, further⟩ := stays state inner
  exact kept.closed holds final (kept.growth.trans related further)

theorem inScope (kept : RunKept valid grows) {part : RunM α} (stays : Stays valid grows part) :
    Stays valid grows (Render.inScope part) := by
  intro state holds
  exact closing_of_opened kept holds state.opened (kept.opened holds) (kept.growth.refl _) stays

/-- What holds of a part anywhere holds of it after a given state too. -/
theorem since (growth : Growth grows) {part : RunM α} (stays : Stays valid grows part)
    (start : RunState) : Stays (fun state => valid state ∧ grows start state) grows part := by
  intro state ⟨holds, earlier⟩
  obtain ⟨final, related⟩ := stays state holds
  exact ⟨⟨final, growth.trans earlier related⟩, related⟩

theorem eachStep_since (kept : RunKept valid grows) (start : RunState)
    {enter : α → Context → Context} {body : RunM Unit} (stays : Stays valid grows body)
    (items : List α)
    (enters : ∀ item ∈ items, ∀ later, valid later → grows start later →
      Enters valid grows (enter item) later) :
    Stays (fun state => valid state ∧ grows start state) grows
      (Render.eachStep enter body items) := by
  induction items with
  | nil => exact .pure kept.growth ()
  | cons item rest step =>
    apply Stays.bind kept.growth
      (since kept.growth (inContext (stepped kept)) start)
    intro again
    cases again with
    | false => exact .pure kept.growth ()
    | true =>
      have pass : Stays (fun state => valid state ∧ grows start state) grows
          (Render.inScope do
            Render.modifyContext (enter item)
            Render.stepping body) := by
        intro state ⟨holds, earlier⟩
        obtain ⟨entered, related⟩ := enters item (List.mem_cons_self ..) state holds earlier
        have closed := closing_of_opened kept holds
          { state.opened with context := enter item state.opened.context } entered related
          (stepping kept stays)
        exact ⟨⟨closed.1, kept.growth.trans earlier closed.2⟩, closed.2⟩
      exact .bind kept.growth pass fun _ =>
        step fun other member => enters other (List.mem_cons_of_mem _ member)

theorem guardedPass (kept : RunKept valid grows) (guard : Expr) {body : RunM Unit}
    (stays : Stays valid grows body) : Stays valid grows (Render.guardedPass guard body) := by
  apply Stays.bind kept.growth (inContext fun state => holds_acts (kept.within state) guard)
  intro again
  cases again with
  | false => exact .pure kept.growth false
  | true =>
    apply Stays.bind kept.growth (inContext (stepped kept))
    intro counted
    cases counted with
    | false => exact .pure kept.growth false
    | true => exact .bind kept.growth (stepping kept stays) fun _ => .pure kept.growth true

/-- A loop by a guard keeps what each of its passes keeps. -/
theorem repeating (growth : Growth grows) {guard : Expr} {body : RunM Unit}
    (pass : Stays valid grows (Render.inScope (Render.guardedPass guard body))) (bound : Nat) :
    Stays valid grows (Render.whileStep guard body bound) := by
  induction bound with
  | zero => exact .throw growth _
  | succ bound step =>
    apply Stays.bind growth pass
    intro again
    cases again with
    | false => exact .pure growth ()
    | true => exact step

theorem whileStep (kept : RunKept valid grows) (guard : Expr) {body : RunM Unit}
    (stays : Stays valid grows body) (bound : Nat) :
    Stays valid grows (Render.whileStep guard body bound) :=
  repeating kept.growth (inScope kept (guardedPass kept guard stays)) bound

/-- A guard and its body, in the scope that has been opened for them. -/
theorem guarded (kept : RunKept valid grows) (guard : Expr) (negate : Bool) {body : RunM Unit}
    (stays : Stays valid grows body) :
    Stays valid grows (do
      let chosen := (← Render.inContext (Context.holds guard)) != negate
      if chosen then body
      return chosen) := by
  apply Stays.bind kept.growth (inContext fun state => holds_acts (kept.within state) guard)
  intro held
  dsimp only
  split
  · exact .bind kept.growth stays fun _ => .pure kept.growth _
  · exact .pure kept.growth _

theorem branch (kept : RunKept valid grows) (guard : Expr) (negate : Bool) {body : RunM Unit}
    (stays : Stays valid grows body) : Stays valid grows (Render.branch guard negate body) :=
  inScope kept (guarded kept guard negate stays)

/-- The passes of a loop that begins here. -/
theorem passes (kept : RunKept valid grows) {enter : α → Context → Context} {body : RunM Unit}
    (stays : Stays valid grows body) (items : List α) (state : RunState) (holds : valid state)
    (enters : ∀ item ∈ items, ∀ later, valid later → grows state later →
      Enters valid grows (enter item) later) :
    let loop : RunM Bool := do
      Render.eachStep enter body items
      return true
    valid (loop state).2 ∧ grows state (loop state).2 := by
  have whole := Stays.bind kept.growth (eachStep_since kept state stays items enters)
    fun _ => .pure kept.growth true
  obtain ⟨⟨final, -⟩, related⟩ := whole state ⟨holds, kept.growth.refl _⟩
  exact ⟨final, related⟩

theorem loop (kept : RunKept valid grows) (item : String) (key : Option String) (source : Expr)
    (hasElse : Bool) {body : RunM Unit} (stays : Stays valid grows body) :
    Stays valid grows (Render.loop item key source hasElse body) := by
  apply Stays.bind kept.growth
    (inContext fun state => evaluate_acts (kept.within state) .strict source)
  intro handle state holds
  have stored := loopSource_acts (kept.within state) handle state.context holds
  rw [bind_eq, Render.inContext_eq]
  dsimp only
  cases found : (state.context.loopSource handle).1 with
  | empty => exact stored
  | scalar value =>
    cases hasElse with
    | true => exact stored
    | false =>
      apply kept.growth.further stored.2
      apply passes kept stays [()] _ stored.1
      intro _ _ later laterHolds _
      exact enterScalar_keeps (kept.within later.opened) item key value _ (kept.opened laterHolds)
  | array place length mutable =>
    apply kept.growth.further stored.2
    apply passes kept stays (List.range length) _ stored.1
    intro position member later laterHolds related
    exact enterElement_enters kept holds found (List.mem_range.mp member) laterHolds related item key
  | dict place keys mutable =>
    apply kept.growth.further stored.2
    apply passes kept stays keys _ stored.1
    intro name member later laterHolds related
    exact enterEntry_enters kept holds found member laterHolds related item key

theorem captured (kept : RunKept valid grows) {part : RunM α}
    (stays : Stays valid grows part) : Stays valid grows (Render.captured part) := by
  intro state holds
  obtain ⟨final, related⟩ := stays _ (kept.diverted holds)
  exact kept.restored holds final related

theorem attempted {part : RunM Unit} (stays : Stays valid grows part) :
    Stays valid grows (Render.attempted part) := by
  intro state holds
  have final := stays state holds
  unfold Render.attempted
  generalize part state = result at final
  obtain ⟨(halt | value), after⟩ := result
  · cases halt <;> exact final
  · exact final

theorem leaving (kept : RunKept valid grows) {part : RunM α} (stays : Stays valid grows part) :
    Stays valid grows (Render.leaving part) := by
  intro state holds
  obtain ⟨final, related⟩ := stays state holds
  exact kept.growth.further related (kept.remembered final .left)

end Stays

/-! Calls. The scope of a call is opened by one part of the run and closed by the next. -/

/-- Either a call has been refused, or its scope is open. -/
def Entered (valid : RunState → Prop) (grows : RunState → RunState → Prop) (start : RunState)
    (result : Except Halt (Option (List Chunk)) × RunState) : Prop :=
  match result with
  | (.ok (some _), after) =>
    ∃ before, valid before ∧ grows start before ∧ valid after ∧ grows before.opened after
  | (_, after) => valid after ∧ grows start after

theorem Entered.further (growth : Growth grows) {first second : RunState}
    {result : Except Halt (Option (List Chunk)) × RunState} (related : grows first second)
    (entered : Entered valid grows second result) : Entered valid grows first result := by
  obtain ⟨halt | _ | body, after⟩ := result
  · exact growth.further related entered
  · exact growth.further related entered
  · obtain ⟨before, holds, between, inner⟩ := entered
    exact ⟨before, holds, growth.trans related between, inner⟩

theorem enter_entered (kept : RunKept valid grows) (mixin : Mixin) (arguments : List Value)
    (state : RunState) (holds : valid state) :
    Entered valid grows state ((do
      if ← Render.inContext (mixin.enter arguments) then return some mixin.body
      return none : RunM (Option (List Chunk))) state) := by
  obtain ⟨bound, related⟩ := bindParameters_acts (kept.within state.opened) mixin.name
    mixin.parameters arguments state.opened.context (kept.opened holds)
  rw [bind_eq, Render.inContext_eq]
  unfold Mixin.enter
  change valid { state.opened with context := (Mixin.bindParameters mixin.name mixin.parameters
    arguments state.context.pushScope).2 } at bound
  change grows state.opened { state.opened with context := (Mixin.bindParameters mixin.name
    mixin.parameters arguments state.context.pushScope).2 } at related
  generalize Mixin.bindParameters mixin.name mixin.parameters arguments state.context.pushScope =
    result at bound related
  obtain ⟨complete, after⟩ := result
  cases complete with
  | true => exact ⟨state, holds, kept.growth.refl _, bound, related⟩
  | false => exact kept.closed holds bound related

theorem call_entered (kept : RunKept valid grows) (mixin : Mixin) (arguments : List Value)
    (state : RunState) (holds : valid state) :
    Entered valid grows state (Render.callMixin mixin arguments state) := by
  obtain ⟨counted, related⟩ := Stays.stepped kept state state.context holds
  unfold Render.callMixin
  rw [bind_eq, Render.inContext_eq]
  cases (state.context.step).1 with
  | true => exact (enter_entered kept mixin arguments _ counted).further kept.growth related
  | false => exact ⟨counted, related⟩

theorem enterCall_entered (kept : RunKept valid grows) (name : String) (arguments : Option Expr)
    (state : RunState) (holds : valid state) :
    Entered valid grows state (Render.enterCall name arguments state) := by
  unfold Render.enterCall
  rw [bind_eq, Render.getContext_eq]
  dsimp only
  cases state.context.mixin? name with
  | none =>
    have other : EvalFault.mixinNotFound name ≠ .stepLimit := nofun
    exact (kept.within state).reported other state.context holds
  | some mixin =>
    cases arguments with
    | none => exact call_entered kept mixin [] state holds
    | some arguments =>
      obtain ⟨evaluated, related⟩ :=
        execArguments_acts (kept.within state) arguments state.context holds
      dsimp only
      rw [bind_eq, Render.inContext_eq]
      cases (state.context.execArguments arguments).1 with
      | none => exact ⟨evaluated, related⟩
      | some values => exact (call_entered kept mixin values _ evaluated).further kept.growth related

theorem mixinCall_stays (kept : RunKept valid grows) (name : String) (arguments : Option Expr)
    {run : List Chunk → RunM Unit} (stays : ∀ body, Stays valid grows (run body)) :
    Stays valid grows (do
      match ← Render.enterCall name arguments with
      | some body => Render.closing (run body)
      | none => return) := by
  intro state holds
  have entered := enterCall_entered kept name arguments state holds
  rw [bind_eq]
  generalize Render.enterCall name arguments state = result at entered
  obtain ⟨halt | _ | body, after⟩ := result
  · exact entered
  · exact entered
  · obtain ⟨before, beforeHolds, between, inner, related⟩ := entered
    exact kept.growth.further between
      (Stays.closing_of_opened kept beforeHolds after inner related (stays body))

/-- Whatever is run by its name keeps the invariant and the relation. -/
def AllStay (valid : RunState → Prop) (grows : RunState → RunState → Prop)
    (again : RunOptions → List Chunk → RunM Unit) : Prop :=
  ∀ options chunks, Stays valid grows (again options chunks)

section

variable {again : RunOptions → List Chunk → RunM Unit}

theorem included_stays (kept : RunKept valid grows) (stays : AllStay valid grows again)
    (name : String) :
    Stays valid grows (Render.included again name) := by
  intro state holds
  unfold Render.included
  rw [bind_eq, Render.getContext_eq]
  dsimp only
  cases found : state.context.loader name with
  | missing => exact ⟨holds, kept.growth.refl state⟩
  | failed note => exact (kept.within state).told holds found
  | template template =>
    exact Stays.bind kept.growth (.modifyContext fun state => (kept.within state).forgotten)
      (fun _ => .attempted (.leaving kept (stays template.runOptions template.chunks))) state holds

theorem runInclude_stays (kept : RunKept valid grows) (stays : AllStay valid grows again)
    (options : RunOptions) (name : String) (depth : Nat) :
    Stays valid grows (Render.runInclude again options name depth) := by
  have noted (complete : Bool) : Stays valid grows
      (if !complete then Render.write (Render.comment ("fail to include " ++ name)) else return) := by
    cases complete with
    | true => exact .pure kept.growth ()
    | false => exact .write kept _
  unfold Render.runInclude
  dsimp only
  split
  · apply Stays.bind kept.growth (.captured kept (included_stays kept stays name))
    intro result
    exact .bind kept.growth (.write kept _) fun _ => .bind kept.growth (.pure kept.growth _) noted
  · exact .bind kept.growth (included_stays kept stays name) noted

theorem stays_composes (kept : RunKept valid grows) (stays : AllStay valid grows again) (bound : Nat) :
    Composes (Twice (Stays valid grows)) (fun _ => True) True again again bound bound where
  pure value := ⟨rfl, .pure kept.growth value⟩
  bind twice goesOn := twice.bind (.bind kept.growth) goesOn
  began := ⟨rfl, .note kept .began⟩
  entered := ⟨rfl, .note kept .entered⟩
  written text := ⟨rfl, .write kept text⟩
  flushed options := ⟨rfl, .flushReports kept options⟩
  escaping twice :=
    .bind (.bind kept.growth) ⟨rfl, .getContext kept⟩ fun context => twice context.escapeOutput
  valued {expr} _ := ⟨rfl, .inContext fun state => execValue?_acts (kept.within state) expr⟩
  held {guard} _ := ⟨rfl, .inContext fun state => holds_acts (kept.within state) guard⟩
  inScope := by
    rintro α part _ ⟨rfl, stays⟩
    exact ⟨rfl, .inScope kept stays⟩
  looped := by
    rintro source - item key hasElse body _ ⟨rfl, stays⟩
    exact ⟨rfl, .loop kept item key source hasElse stays⟩
  repeated := by
    rintro guard - body _ ⟨rfl, stays⟩
    exact ⟨rfl, .whileStep kept guard stays bound⟩
  defined name {signature body} _ _ :=
    ⟨rfl, .modifyContext fun state => define_keeps (kept.within state) name signature body⟩
  called name {arguments} _ options := by
    refine ⟨rfl, mixinCall_stays kept name arguments fun body => ?_⟩
    exact .bind kept.growth (.note kept .entered) fun _ => .stepping kept (stays options body)
  included _ options name depth := ⟨rfl, runInclude_stays kept stays options name depth⟩

theorem runChunks_stays (kept : RunKept valid grows) (stays : AllStay valid grows again)
    (bound : Nat) (options : RunOptions) (chain : Render.Chain) (chunks : List Chunk) :
    Stays valid grows (Render.runChunks again bound options chain chunks) :=
  (runChunks_composes (stays_composes kept stays bound) options chain chunks (.everything chunks)).2

theorem runChunk_stays (kept : RunKept valid grows) (stays : AllStay valid grows again)
    (bound : Nat) (options : RunOptions) (chunk : Chunk) :
    Stays valid grows (Render.runChunk again bound options chunk) :=
  (runChunk_composes (stays_composes kept stays bound) options chunk (.everything [chunk])).2

theorem runBranches_stays (kept : RunKept valid grows) (stays : AllStay valid grows again)
    (bound : Nat) (options : RunOptions) (subject : Value) (matched : Bool) (branches : List Chunk) :
    Stays valid grows (Render.runBranches again bound options subject matched branches) :=
  (runBranches_composes (stays_composes kept stays bound) options subject matched branches
    (.everything branches)).2

end

theorem run_stays (kept : RunKept valid grows) (bound : Nat) (options : RunOptions)
    (chunks : List Chunk) : Stays valid grows (Render.run bound options chunks) := by
  induction bound generalizing options chunks with
  | zero => exact .throw kept.growth _
  | succ bound step => exact runChunks_stays kept step bound options .closed chunks

/-- A run of a template keeps what everything it does to a context keeps. -/
theorem template_run_keeps {valid : Context → Prop} {grows : Context → Context → Prop}
    (kept : ScopesKept valid grows) (template : Template) (bound : Nat) {context : Context}
    (holds : valid context) (sink : Sink) :
    valid (template.run bound context sink).2.context ∧
      grows context (template.run bound context sink).2.context := by
  obtain ⟨forgotten, related⟩ := kept.forgotten context holds
  exact kept.growth.further related
    (run_stays kept.run bound template.runOptions template.chunks _ forgotten)

end

end Rules

end HtmlTemplate
