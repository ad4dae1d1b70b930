import HtmlTemplate.Proofs.Folding.Twins
import HtmlTemplate.Proofs.Rules.Basic
import HtmlTemplate.Proofs.Rules.Chunks

/-! Two runs side by side in contexts that only mixins tell apart. What keeps them abreast in single
steps keeps them abreast in scopes, loops and calls. -/

namespace HtmlTemplate

namespace Sink

/-- The output takes everything. -/
structure Endless (sink : Sink) : Prop where
  limit : sink.limit = none
  whole : sink.broken = false

theorem Endless.write {sink : Sink} (endless : sink.Endless) (text : String) :
    sink.write text = (true, { sink with text := sink.text ++ text }) := by
  obtain ⟨limit, whole⟩ := endless
  simp only [Sink.write, accepts, limit, whole, Option.all_none, Option.map_none, Bool.not_false,
    Bool.and_self, if_true]

end Sink

namespace Folding

open Rules Render

/-- A relation of two runs that is kept by all that does not look at mixins, and by opening and closing
scopes. Mixins that are found by one name correspond. -/
structure Abreast (level : RunState → RunState → Prop) (same : Mixin → Mixin → Prop) : Prop where
  acts : ∀ {α : Type} {action : Context → α × Context}, Blind action →
    Acts Calm (fun _ _ => True) action →
      Pairs level (· = ·) level (inContext action) (inContext action)
  changes : ∀ {change : Context → Context}, BlindChange change → Keeps Calm (fun _ _ => True) change →
    Pairs level (· = ·) level (modifyContext change) (modifyContext change)
  notes : ∀ event, Pairs level (· = ·) level (note event) (note event)
  writes : ∀ text, Pairs level (· = ·) level (write text) (write text)
  escapes : ∀ {state twin}, level state twin → twin.context.escapeOutput = state.context.escapeOutput
  opens : Pairs level (· = ·) level (modifyContext Context.pushScope) (modifyContext Context.pushScope)
  closes : ∀ {state twin}, level state twin →
    level { state with context := state.context.popScope } { twin with context := twin.context.popScope }
  finds : ∀ {state twin}, level state twin → ∀ name,
    Option.Rel same (state.context.mixin? name) (twin.context.mixin? name)
  enters : ∀ {mixin other}, same mixin other → ∀ arguments,
    Pairs level (· = ·) level (inContext (mixin.enter arguments)) (inContext (other.enter arguments))

theorem keyed_calm (key : Option String) (value : Value) {context : Context} (calm : Calm context) :
    Calm (key.elim context fun key => context.set key value) := by
  cases key with
  | none => exact calm
  | some key => exact calm.congr rfl rfl

namespace Abreast

variable {level : RunState → RunState → Prop} {same : Mixin → Mixin → Prop} {α β : Type}
  {first second : RunM Unit}

/-- Whether outputs are escaped is asked for in a run. -/
theorem escaping (abreast : Abreast level same) {next following : Bool → RunM Unit}
    (pairs : ∀ escapes, Pairs level (· = ·) level (next escapes) (following escapes)) :
    Pairs level (· = ·) level
      (do next (← getContext).escapeOutput)
      (do following (← getContext).escapeOutput) := by
  intro state twin related
  rw [bind_eq, bind_eq, getContext_eq, getContext_eq]
  dsimp only
  rw [abreast.escapes related]
  exact pairs _ state twin related

theorem writeValue (abreast : Abreast level same) (expr : Expr) (text : Value → String) :
    Pairs level (· = ·) level (Render.writeValue expr text) (Render.writeValue expr text) := by
  apply Pairs.bind_same (abreast.acts (fun _ => execValue?_ignores (mixins_unseen _) expr)
    (execValue?_acts calm_kept expr))
  intro value
  cases value with
  | none => exact .pure rfl
  | some value => exact abreast.writes _

/-! Scopes and bodies. -/

theorem closing (abreast : Abreast level same) {matched : α → β → Prop} {first : RunM α}
    {second : RunM β} (pairs : Pairs level matched level first second) :
    Pairs level matched level (Render.closing first) (Render.closing second) := by
  intro state twin related
  have alike := pairs state twin related
  unfold Render.closing
  generalize first state = result at alike
  generalize second twin = other at alike
  cases alike with
  | ok corresponds related => exact .ok corresponds (abreast.closes related)
  | error related => exact .error (abreast.closes related)

theorem inScope (abreast : Abreast level same) {matched : α → β → Prop} {first : RunM α}
    {second : RunM β} (pairs : Pairs level matched level first second) :
    Pairs level matched level (Render.inScope first) (Render.inScope second) :=
  .bind_same abreast.opens fun _ => abreast.closing pairs

theorem stepping (abreast : Abreast level same) (pairs : Pairs level (· = ·) level first second) :
    Pairs level (· = ·) level (Render.stepping first) (Render.stepping second) :=
  .bind_same (abreast.notes .stepped) fun _ => pairs

/-- A step is asked for. -/
theorem step (abreast : Abreast level same) :
    Pairs level (· = ·) level (inContext Context.step) (inContext Context.step) :=
  abreast.acts step_blind (step_acts calm_kept.growth calm_counting)

theorem holds (abreast : Abreast level same) (guard : Expr) :
    Pairs level (· = ·) level (inContext (Context.holds guard)) (inContext (Context.holds guard)) :=
  abreast.acts (fun _ => holds_ignores (mixins_unseen _) guard) (holds_acts calm_kept guard)

theorem branch (abreast : Abreast level same) (guard : Expr) (negate : Bool)
    (pairs : Pairs level (· = ·) level first second) :
    Pairs level (· = ·) level (Render.branch guard negate first)
      (Render.branch guard negate second) := by
  apply abreast.inScope
  apply Pairs.bind_same (abreast.holds guard)
  intro held
  dsimp only
  split
  · exact .bind_same pairs fun _ => .pure rfl
  · exact .pure rfl

/-! Loops. -/

theorem whileStep (abreast : Abreast level same) (guard : Expr)
    (pairs : Pairs level (· = ·) level first second) (bound : Nat) :
    Pairs level (· = ·) level (Render.whileStep guard first bound)
      (Render.whileStep guard second bound) := by
  induction bound with
  | zero => exact .throw _
  | succ bound step =>
    apply Pairs.bind_same
    · apply abreast.inScope
      apply Pairs.bind_same (abreast.holds guard)
      intro again
      cases again with
      | false => exact .pure rfl
      | true =>
        apply Pairs.bind_same abreast.step
        intro counted
        cases counted with
        | false => exact .pure rfl
        | true => exact .bind_same (abreast.stepping pairs) fun _ => .pure rfl
    · intro again
      cases again with
      | false => exact .pure rfl
      | true => exact step

theorem eachStep (abreast : Abreast level same) {enter : α → Context → Context}
    (blind : ∀ item, BlindChange (enter item)) (keeps : ∀ item, Keeps Calm (fun _ _ => True) (enter item))
    (pairs : Pairs level (· = ·) level first second) (items : List α) :
    Pairs level (· = ·) level (Render.eachStep enter first items)
      (Render.eachStep enter second items) := by
  induction items with
  | nil => exact .pure rfl
  | cons item rest step =>
    apply Pairs.bind_same abreast.step
    intro counted
    cases counted with
    | false => exact .pure rfl
    | true =>
      refine .bind_same (abreast.inScope ?_) fun _ => step
      exact .bind_same (abreast.changes (blind item) (keeps item)) fun _ => abreast.stepping pairs

theorem loop (abreast : Abreast level same) (item : String) (key : Option String) (source : Expr)
    (hasElse : Bool) (pairs : Pairs level (· = ·) level first second) :
    Pairs level (· = ·) level (Render.loop item key source hasElse first)
      (Render.loop item key source hasElse second) := by
  apply Pairs.bind_same (abreast.acts (fun _ => evaluate_ignores (mixins_unseen _) .strict source)
    (evaluate_acts calm_kept .strict source))
  intro handle
  apply Pairs.bind_same (abreast.acts (fun _ => loopSource_ignores (mixins_unseen _) handle)
    (loopSource_acts calm_kept handle))
  intro found
  cases found with
  | empty => exact .pure rfl
  | scalar value =>
    cases hasElse with
    | true => exact .pure rfl
    | false =>
      refine .bind_same (abreast.eachStep
        (fun _ _ => enterScalar_commutes (mixins_unseen _) item key value _) ?_ pairs [()])
        fun _ => .pure rfl
      exact fun _ context calm => ⟨keyed_calm key _ (calm.congr rfl rfl), trivial⟩
  | array place length mutable =>
    refine .bind_same (abreast.eachStep
      (fun _ _ => enterElement_commutes (mixins_unseen _) item key place mutable _) ?_ pairs _)
      fun _ => .pure rfl
    exact fun position context calm => ⟨keyed_calm key _ (calm.congr rfl rfl), trivial⟩
  | dict place keys mutable =>
    refine .bind_same (abreast.eachStep
      (fun _ _ => enterEntry_commutes (mixins_unseen _) item key place mutable _) ?_ pairs keys)
      fun _ => .pure rfl
    exact fun name context calm => ⟨(keyed_calm key _ calm).congr rfl rfl, trivial⟩

/-! Calls. -/

variable {bodies : List Chunk → List Chunk → Prop}

theorem callMixin (abreast : Abreast level same)
    (body : ∀ {mixin other}, same mixin other → bodies mixin.body other.body) {mixin other : Mixin}
    (alike : same mixin other) (arguments : List Value) :
    Pairs level (Option.Rel bodies) level (Render.callMixin mixin arguments)
      (Render.callMixin other arguments) := by
  apply Pairs.bind_same abreast.step
  intro counted
  cases counted with
  | false => exact .pure .none
  | true =>
    apply Pairs.bind_same (abreast.enters alike arguments)
    intro entered
    cases entered with
    | false => exact .pure .none
    | true => exact .pure (.some (body alike))

theorem enterCall (abreast : Abreast level same)
    (body : ∀ {mixin other}, same mixin other → bodies mixin.body other.body) (name : String)
    (arguments : Option Expr) :
    Pairs level (Option.Rel bodies) level (Render.enterCall name arguments)
      (Render.enterCall name arguments) := by
  intro state twin related
  have found := abreast.finds related name
  unfold Render.enterCall
  rw [bind_eq, bind_eq, getContext_eq, getContext_eq]
  dsimp only
  generalize state.context.mixin? name = mixin at found
  generalize twin.context.mixin? name = other at found
  cases found with
  | none =>
    have refused : Pairs level (Option.Rel bodies) level
        (do
          modifyContext (·.reportFault (.mixinNotFound name))
          return none)
        (do
          modifyContext (·.reportFault (.mixinNotFound name))
          return none) :=
      .bind_same (abreast.changes (fun _ _ => rfl) fun _ calm => ⟨calm.reportFault _, trivial⟩)
        fun _ => .pure .none
    exact refused _ _ related
  | some alike =>
    cases arguments with
    | none => exact abreast.callMixin body alike [] _ _ related
    | some arguments =>
      have evaluated : Pairs level (· = ·) level (inContext (Context.execArguments arguments))
          (inContext (Context.execArguments arguments)) :=
        abreast.acts (fun _ => execArguments_ignores (mixins_unseen _) arguments)
          (execArguments_acts calm_kept arguments)
      refine evaluated.bind_same (fun values => ?_) _ _ related
      cases values with
      | none => exact .pure .none
      | some values => exact abreast.callMixin body alike values

/-- A call, if bodies that correspond are run alike. -/
theorem mixinCall (abreast : Abreast level same)
    {again twin : List Chunk → RunM Unit}
    (alike : ∀ body other, bodies body other → Pairs level (· = ·) level (again body) (twin other))
    (body : ∀ {mixin other}, same mixin other → bodies mixin.body other.body)
    (name : String) (arguments : Option Expr) :
    Pairs level (· = ·) level
      (do
        match ← Render.enterCall name arguments with
        | some body => Render.closing do
          note .entered
          Render.stepping (again body)
        | none => return)
      (do
        match ← Render.enterCall name arguments with
        | some body => Render.closing do
          note .entered
          Render.stepping (twin body)
        | none => return) := by
  apply Pairs.bind (abreast.enterCall body name arguments)
  intro found other same
  cases same with
  | none => exact .pure rfl
  | some same =>
    exact abreast.closing (.bind_same (abreast.notes _) fun _ => abreast.stepping (alike _ _ same))

end Abreast

/-! The runs of a template with and without folding, side by side. Without folding a run may be
ahead by some text, which is in a later chunk with folding. -/

/-- The options under which folding is to make no difference. -/
def lenient : RunOptions := { pretty := false, stopOnError := false }

/-- The run without folding is ahead by some text. -/
structure Ahead (fold : Expr → Option Value) (text : String) (plain folded : RunState) : Prop where
  twins : Twins fold plain.context folded.context
  wrote : plain.sink.text = folded.sink.text ++ text
  endless : plain.sink.Endless
  other : folded.sink.Endless

/-- Neither run is ahead. -/
abbrev Level (fold : Expr → Option Value) : RunState → RunState → Prop := Ahead fold ""

variable {fold : Expr → Option Value} {text : String} {plain folded : RunState} {α β : Type}

theorem Ahead.remember (ahead : Ahead fold text plain folded) (event : Event) :
    Ahead fold text (plain.remember event) folded :=
  ⟨ahead.twins, ahead.wrote, ahead.endless, ahead.other⟩

theorem Ahead.remembered (ahead : Ahead fold text plain folded) (event : Event) :
    Ahead fold text plain (folded.remember event) :=
  ⟨ahead.twins, ahead.wrote, ahead.endless, ahead.other⟩

theorem Ahead.withContext (ahead : Ahead fold text plain folded) {context twin : Context}
    (twins : Twins fold context twin) :
    Ahead fold text { plain with context } { folded with context := twin } :=
  ⟨twins, ahead.wrote, ahead.endless, ahead.other⟩

/-! Reports. -/

theorem takePending_calm {context : Context} (calm : Calm context) :
    context.takePending = ([], context) := by
  unfold Context.takePending
  rw [calm.idle]
  have same : { context.reports with pending := [] } = context.reports := by
    rw [← calm.idle]
  rw [same]

/-- With all reports taken there is nothing to write. -/
theorem flushReports_calm {state : RunState} (calm : Calm state.context) :
    flushReports lenient state = (.ok (), state) := by
  unfold flushReports
  rw [bind_eq, inContext_eq, takePending_calm calm]
  rfl

theorem afterChain_calm {state : RunState} (calm : Calm state.context) (chain : Chain) (part : RunM α) :
    afterChain lenient chain part state = part (state.remember .began) := by
  unfold afterChain
  cases chain.isOpen with
  | true =>
    rw [if_pos rfl, bind_eq, flushReports_calm calm]
    rfl
  | false => rfl

theorem pairs_flush {same : α → β → Prop} {after : RunState → RunState → Prop} {first : RunM α}
    {second : RunM β} (pairs : Pairs (Ahead fold text) same after first second) :
    Pairs (Ahead fold text) same after
      (do
        flushReports lenient
        first)
      (do
        flushReports lenient
        second) := by
  intro plain folded ahead
  obtain ⟨calm, other⟩ := ahead.twins.calm
  rw [bind_eq, bind_eq, flushReports_calm calm, flushReports_calm other]
  exact pairs plain folded ahead

theorem pairs_afterChain {same : α → β → Prop} {after : RunState → RunState → Prop} {first : RunM α}
    {second : RunM β} (chain other : Chain) (pairs : Pairs (Ahead fold text) same after first second) :
    Pairs (Ahead fold text) same after (afterChain lenient chain first)
      (afterChain lenient other second) := by
  intro plain folded ahead
  obtain ⟨calm, calmOther⟩ := ahead.twins.calm
  rw [afterChain_calm calm, afterChain_calm calmOther]
  exact pairs _ _ ((ahead.remember _).remembered _)

/-! Parts within a scope. -/

theorem pairs_inContext {action : Context → α × Context} (blind : Blind action)
    (acts : Acts Calm (fun _ _ => True) action) :
    Pairs (Ahead fold text) (· = ·) (Ahead fold text) (inContext action) (inContext action) := by
  intro plain folded ahead
  obtain ⟨same, twins⟩ := ahead.twins.act blind acts
  rw [inContext_eq, inContext_eq, same]
  exact .ok rfl (ahead.withContext twins)

theorem pairs_modify {change other : Context → Context}
    (twins : ∀ context twin, Twins fold context twin → Twins fold (change context) (other twin)) :
    Pairs (Ahead fold text) (· = ·) (Ahead fold text) (modifyContext change) (modifyContext other) :=
  fun _ _ ahead => .ok rfl (ahead.withContext (twins _ _ ahead.twins))

theorem pairs_note (event : Event) :
    Pairs (Ahead fold text) (· = ·) (Ahead fold text) (note event) (note event) :=
  fun _ _ ahead => .ok rfl ((ahead.remember event).remembered event)

theorem pairs_write (text : String) :
    Pairs (Level fold) (· = ·) (Level fold) (write text) (write text) := by
  intro plain folded level
  rw [write_eq, write_eq, level.endless.write, level.other.write]
  refine .ok rfl ⟨level.twins, ?_, ⟨level.endless.limit, level.endless.whole⟩,
    ⟨level.other.limit, level.other.whole⟩⟩
  have wrote := level.wrote
  rw [String.append_empty] at wrote ⊢
  exact congrArg (· ++ text) wrote

/-- Two runs that are level stay so in scopes, loops and calls. -/
theorem level_abreast : Abreast (Level fold) (SameMixin fold) where
  acts := pairs_inContext
  changes blind keeps := pairs_modify fun _ _ twins => twins.change blind keeps
  notes := pairs_note
  writes := pairs_write
  escapes level := level.twins.escapeOutput
  opens := pairs_modify fun _ _ twins => twins.pushScope
  closes level := level.withContext level.twins.popScope
  finds level := level.twins.mixin?
  enters same arguments plain folded level := by
    obtain ⟨bound, twins⟩ := level.twins.enter same arguments
    rw [inContext_eq, inContext_eq, bound]
    exact .ok rfl (level.withContext twins)

/-! Bodies. -/

theorem entering_eq (chunks : List Chunk) (body : RunM Unit) (state : RunState) :
    entering chunks body state =
      body (if chunks.isEmpty then state else state.remember .entered) := by
  unfold entering
  cases chunks <;> rfl

/-- Whether a body is empty is seen in what is remembered alone. -/
theorem pairs_entering {first second : RunM Unit} (chunks others : List Chunk)
    (pairs : Pairs (Level fold) (· = ·) (Level fold) first second) :
    Pairs (Level fold) (· = ·) (Level fold) (entering chunks first) (entering others second) := by
  intro plain folded level
  rw [entering_eq, entering_eq]
  apply pairs
  split
  · split
    · exact level
    · exact level.remembered _
  · split
    · exact level.remember _
    · exact (level.remember _).remembered _

end Folding

end HtmlTemplate
