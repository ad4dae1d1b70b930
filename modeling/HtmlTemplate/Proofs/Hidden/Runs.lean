import HtmlTemplate.Proofs.Hidden.Actions
import HtmlTemplate.Proofs.Rules.Running

/-! Runs in contexts that look alike through the names of a template. They write the same and end the
same, and leave the contexts alike. -/

namespace HtmlTemplate.Hidden

open Rules Context

variable {known : String → Prop} {start origin : Context} {α : Type}

/-- Two runs that have written the same so far, in contexts that look alike. -/
structure Abreast (known : String → Prop) (start origin : Context) (state twin : RunState) : Prop where
  tied : Tied known start origin state.context twin.context
  sink : state.sink = twin.sink

/-- A part goes the same way in contexts that look alike. Meanwhile aliases stay sound and no root goes
away, so that loops can go on with what they began with. -/
structure Mirrors (known : String → Prop) (start origin : Context) (part : RunM α) : Prop where
  sound : Stays (fun state => state.context.Sound) (fun before after => before.context.Extends after.context) part
  pairs : Pairs (Abreast known start origin) (· = ·) (Abreast known start origin) part part

theorem sound_run : RunKept (fun state => state.context.Sound)
    fun before after => before.context.Extends after.context :=
  sound_kept.run

namespace Abreast

variable {state twin : RunState}

theorem withContext (abreast : Abreast known start origin state twin) {context other : Context}
    (tied : Tied known start origin context other) :
    Abreast known start origin { state with context } { twin with context := other } :=
  ⟨tied, abreast.sink⟩

theorem remember (abreast : Abreast known start origin state twin) (event : Event) :
    Abreast known start origin (state.remember event) (twin.remember event) :=
  ⟨abreast.tied, abreast.sink⟩

end Abreast

/-! Parts within a scope. -/

theorem pairs_inContext {action : Context → α × Context} (mirrored : Mirrored known start origin action) :
    Pairs (Abreast known start origin) (· = ·) (Abreast known start origin) (Render.inContext action)
      (Render.inContext action) := by
  intro state twin abreast
  obtain ⟨same, tied⟩ := mirrored abreast.tied
  rw [Render.inContext_eq, Render.inContext_eq]
  exact .ok same (abreast.withContext tied)

theorem pairs_closing {part : RunM α}
    (pairs : Pairs (Abreast known start origin) (· = ·) (Abreast known start origin) part part) :
    Pairs (Abreast known start origin) (· = ·) (Abreast known start origin) (Render.closing part)
      (Render.closing part) := by
  intro state twin abreast
  have alike := pairs state twin abreast
  unfold Render.closing
  generalize part state = ended at alike
  generalize part twin = other at alike
  cases alike with
  | ok corresponds after => exact .ok corresponds (after.withContext after.tied.popScope)
  | error after => exact .error (after.withContext after.tied.popScope)

namespace Mirrors

theorem pure (value : α) : Mirrors known start origin (Pure.pure value : RunM α) :=
  ⟨.pure sound_run.growth value, .pure rfl⟩

theorem throw (halt : Halt) : Mirrors known start origin (MonadExcept.throw halt : RunM α) :=
  ⟨.throw sound_run.growth halt, .throw halt⟩

theorem bind {β : Type} {first : RunM α} {next : α → RunM β} (mirrors : Mirrors known start origin first)
    (goesOn : ∀ value, Mirrors known start origin (next value)) :
    Mirrors known start origin (first >>= next) :=
  ⟨.bind sound_run.growth mirrors.sound fun value => (goesOn value).sound,
    .bind_same mirrors.pairs fun value => (goesOn value).pairs⟩

theorem inContext {action : Context → α × Context} (sound : Acts Sound Extends action)
    (mirrored : Mirrored known start origin action) : Mirrors known start origin (Render.inContext action) :=
  ⟨.inContext fun _ => sound, pairs_inContext mirrored⟩

theorem modifyContext {change : Context → Context} (sound : Keeps Sound Extends change)
    (mirrored : ∀ {first second}, Tied known start origin first second →
      Tied known start origin (change first) (change second)) :
    Mirrors known start origin (Render.modifyContext change) :=
  ⟨.modifyContext fun _ => sound, fun _ _ abreast => .ok rfl (abreast.withContext (mirrored abreast.tied))⟩

theorem note (event : Event) : Mirrors known start origin (Render.note event) :=
  ⟨.note sound_run event, fun _ _ abreast => .ok rfl (abreast.remember event)⟩

theorem write (text : String) : Mirrors known start origin (Render.write text) := by
  refine ⟨.write sound_run text, fun state twin abreast => ?_⟩
  rw [Render.write_eq, Render.write_eq, ← abreast.sink]
  have written : Abreast known start origin { state with sink := (state.sink.write text).2 }
      { twin with sink := (state.sink.write text).2 } :=
    ⟨abreast.tied, rfl⟩
  split
  · exact .ok rfl (written.remember _)
  · exact .error written

theorem stepping {body : RunM Unit} (mirrors : Mirrors known start origin body) :
    Mirrors known start origin (Render.stepping body) :=
  .bind (.note .stepped) fun _ => mirrors

theorem forM {act : String → RunM Unit} (mirrors : ∀ item, Mirrors known start origin (act item))
    (items : List String) : Mirrors known start origin (items.forM act) := by
  induction items with
  | nil => exact .pure ()
  | cons item rest step => exact .bind (mirrors item) fun _ => step

/-- A part that looks at the context and goes on in the same way in both. -/
theorem looking {next : Context → RunM α}
    (same : ∀ {first second}, Tied known start origin first second → next first = next second)
    (goesOn : ∀ context, Mirrors known start origin (next context)) :
    Mirrors known start origin (do next (← Render.getContext)) := by
  refine ⟨.bind sound_run.growth (.getContext sound_run) fun context => (goesOn context).sound, ?_⟩
  intro state twin abreast
  rw [bind_eq, bind_eq, Render.getContext_eq, Render.getContext_eq]
  dsimp only
  rw [← same abreast.tied]
  exact (goesOn _).pairs state twin abreast

theorem flushReports (options : RunOptions) : Mirrors known start origin (Render.flushReports options) := by
  unfold Render.flushReports
  apply Mirrors.bind (.inContext sound_kept.taken takePending_mirrored)
  intro messages
  apply Mirrors.bind (.forM (fun message => .write _) messages)
  intro _
  split
  · apply Mirrors.looking
    · intro first second tied
      rw [tied.reports.last]
    · intro context
      cases context.reports.last with
      | none => exact .pure ()
      | some message =>
        exact .bind (.modifyContext sound_kept.forgotten fun tied => tied.forgetLast) fun _ => .throw _
  · exact .pure ()

theorem inScope {part : RunM α} (mirrors : Mirrors known start origin part) :
    Mirrors known start origin (Render.inScope part) := by
  refine ⟨.inScope sound_run mirrors.sound, ?_⟩
  intro state twin abreast
  exact pairs_closing mirrors.pairs _ _ (abreast.withContext abreast.tied.pushScope)

/-! Loops. -/

theorem step : Mirrors known start origin (Render.inContext Context.step) :=
  .inContext (step_acts sound_kept.growth sound_kept.toStepsKept) step_mirrored

theorem guardedPass {guard : Expr} (sees : Sees known guard) {body : RunM Unit}
    (mirrors : Mirrors known start origin body) : Mirrors known start origin (Render.guardedPass guard body) := by
  apply Mirrors.bind (.inContext (holds_acts sound_kept.toContextKept guard) (holds_mirrored sees))
  intro again
  cases again with
  | false => exact .pure false
  | true =>
    apply Mirrors.bind .step
    intro counted
    cases counted with
    | false => exact .pure false
    | true => exact .bind (.stepping mirrors) fun _ => .pure true

theorem whileStep {guard : Expr} (sees : Sees known guard) {body : RunM Unit}
    (mirrors : Mirrors known start origin body) (bound : Nat) :
    Mirrors known start origin (Render.whileStep guard body bound) := by
  induction bound with
  | zero => exact .throw _
  | succ bound step =>
    apply Mirrors.bind (guardedPass sees mirrors).inScope
    intro again
    cases again with
    | false => exact .pure ()
    | true => exact step

end Mirrors

/-- Two runs that have gone on abreast from two contexts. -/
structure Since (known : String → Prop) (start origin earlier earlierTwin : Context) (state twin : RunState) :
    Prop where
  abreast : Abreast known start origin state twin
  later : earlier.Extends state.context
  laterTwin : earlierTwin.Extends twin.context

theorem Mirrors.since {part : RunM α} (mirrors : Mirrors known start origin part) (earlier earlierTwin : Context) :
    Pairs (Since known start origin earlier earlierTwin) (· = ·) (Since known start origin earlier earlierTwin)
      part part := by
  intro state twin ⟨abreast, later, laterTwin⟩
  have alike := mirrors.pairs state twin abreast
  have grown := (mirrors.sound state abreast.tied.fenced.sound).2
  have grownTwin := (mirrors.sound twin abreast.tied.fencedTwin.sound).2
  exact alike.relate ⟨alike.related, Extends.growth.trans later grown, Extends.growth.trans laterTwin grownTwin⟩

/-- What an item of a loop is entered into: the scope that has been opened for its pass. -/
structure Enters (known : String → Prop) (start origin earlier earlierTwin : Context)
    (enter : Context → Context) : Prop where
  grows : ∀ context : Context, context.Extends (enter context)
  tied : ∀ {first second}, Tied known start origin first second → earlier.Extends first →
    earlierTwin.Extends second → Tied known start origin (enter first.pushScope) (enter second.pushScope)

theorem pairs_pass {earlier earlierTwin : Context} {enter : Context → Context}
    (enters : Enters known start origin earlier earlierTwin enter) {body : RunM Unit}
    (mirrors : Mirrors known start origin body) :
    let pass : RunM Unit := Render.inScope do
      Render.modifyContext enter
      Render.stepping body
    Pairs (Since known start origin earlier earlierTwin) (· = ·) (Since known start origin earlier earlierTwin)
      pass pass := by
  intro pass state twin ⟨abreast, later, laterTwin⟩
  have entered := enters.tied abreast.tied later laterTwin
  have steps : Mirrors known start origin (Render.stepping body) := .stepping mirrors
  have alike := pairs_closing steps.pairs _ _ (abreast.withContext entered)
  have closed (state : RunState) (sound : state.context.Sound) (inner : (enter state.context.pushScope).Sound) :
      state.context.Extends (pass state).2.context :=
    (Stays.closing_of_opened sound_run sound _ inner (enters.grows _) steps.sound).2
  have grown := closed state abreast.tied.fenced.sound entered.fenced.sound
  have grownTwin := closed twin abreast.tied.fencedTwin.sound entered.fencedTwin.sound
  change Alike _ _ (pass state) (pass twin) at alike
  exact alike.relate ⟨alike.related, Extends.growth.trans later grown, Extends.growth.trans laterTwin grownTwin⟩

theorem pairs_eachStep {β : Type} {earlier earlierTwin : Context} {enter : β → Context → Context}
    {body : RunM Unit} (mirrors : Mirrors known start origin body) (items : List β)
    (enters : ∀ item ∈ items, Enters known start origin earlier earlierTwin (enter item)) :
    Pairs (Since known start origin earlier earlierTwin) (· = ·) (Since known start origin earlier earlierTwin)
      (Render.eachStep enter body items) (Render.eachStep enter body items) := by
  induction items with
  | nil => exact .pure rfl
  | cons item rest step =>
    apply Pairs.bind_same (Mirrors.step.since earlier earlierTwin)
    intro counted
    cases counted with
    | false => exact .pure rfl
    | true =>
      refine .bind_same (pairs_pass (enters item (List.mem_cons_self ..)) mirrors) fun _ => ?_
      exact step fun other member => enters other (List.mem_cons_of_mem _ member)

/-! Loop variables. -/

theorem extends_keyed (context : Context) (key : Option String) (value : Value) :
    context.Extends (key.elim context fun key => context.set key value) := by
  cases key with
  | none => exact Extends.growth.refl context
  | some key => exact Sound.extends_store ..

theorem tied_keyed {first second : Context} (tied : Tied known start origin first second)
    (inner : 0 < first.current) (key : Option String) (value : Value) :
    Tied known start origin (key.elim first fun key => first.set key value)
      (key.elim second fun key => second.set key value) := by
  cases key with
  | none => exact tied
  | some key => exact tied.set (visible_inner inner key) value

theorem current_of_extends {before after : Context} (grown : before.Extends after) :
    after.current = before.current :=
  congrArg (· - 1) grown.depth

theorem current_pushScope (context : Context) : context.pushScope.current = context.depth := by
  rw [current, depth_pushScope, Nat.add_sub_cancel]

theorem enters_scalar (earlier earlierTwin : Context) (item : String) (key : Option String) (value : Value)
    (position : Unit) :
    Enters known start origin earlier earlierTwin (Render.enterScalar item key value position) where
  grows context := Extends.growth.trans (Sound.extends_store ..) (extends_keyed _ key _)
  tied := by
    intro first second tied _ _
    have inner : 0 < first.pushScope.current := current_pushScope first ▸ tied.fenced.sound.opened
    have bound := tied.pushScope.set (visible_inner inner item) value
    have same : (first.pushScope.set item value).current = first.pushScope.current :=
      current_of_extends (Sound.extends_store ..)
    exact tied_keyed bound (same ▸ inner) key _

/-- A place that is there, and may be seen, when a loop over it begins. -/
structure Located (known : String → Prop) (earlier earlierTwin : Context) (place : Place) : Prop where
  visible : Visible known place.root
  isOpen : earlier.IsOpen place.root
  isOpenTwin : earlierTwin.IsOpen place.root

theorem tied_element {earlier earlierTwin first second inner innerTwin : Context} {place : Place}
    (located : Located known earlier earlierTwin place) (later : earlier.Extends first)
    (laterTwin : earlierTwin.Extends second) (tied : Tied known start origin inner innerTwin)
    (grown : first.pushScope.Extends inner) (grownTwin : second.pushScope.Extends innerTwin) (item : String)
    (mutable : Bool) :
    Tied known start origin (inner.bindAlias item place mutable) (innerTwin.bindAlias item place mutable) := by
  have isOpen := later.roots located.isOpen
  have isOpenTwin := laterTwin.roots located.isOpenTwin
  have outer : place.root.frame < inner.current := by
    rw [current_of_extends grown, current_pushScope]
    exact isOpen.lt_depth
  exact tied.bindAlias located.visible (grown.roots (isOpen_pushScope isOpen))
    (grownTwin.roots (isOpen_pushScope isOpenTwin)) outer item mutable

theorem enters_element {earlier earlierTwin : Context} {place : Place} {position : Nat}
    (located : Located known earlier earlierTwin (place.child (.index position))) (item : String)
    (key : Option String) (mutable : Bool) :
    Enters known start origin earlier earlierTwin (Render.enterElement item key place mutable position) where
  grows context := Extends.growth.trans (Sound.extends_store ..) (extends_keyed _ key _)
  tied := by
    intro first second tied later laterTwin
    have bound := tied_element located later laterTwin tied.pushScope (Extends.growth.refl _)
      (Extends.growth.refl _) item mutable
    have same : (first.pushScope.bindAlias item (place.child (.index position)) mutable).current =
        first.pushScope.current := current_of_extends (Sound.extends_store ..)
    apply tied_keyed bound
    rw [same, current_pushScope]
    exact tied.fenced.sound.opened

theorem enters_entry {earlier earlierTwin : Context} {place : Place} {name : String}
    (located : Located known earlier earlierTwin (place.child (.key name))) (item : String)
    (key : Option String) (mutable : Bool) :
    Enters known start origin earlier earlierTwin (Render.enterEntry item key place mutable name) where
  grows context := Extends.growth.trans (extends_keyed context key _) (Sound.extends_store ..)
  tied := by
    intro first second tied later laterTwin
    have inner : 0 < first.pushScope.current := current_pushScope first ▸ tied.fenced.sound.opened
    exact tied_element located later laterTwin (tied_keyed tied.pushScope inner key _) (extends_keyed _ key _)
      (extends_keyed _ key _) item mutable

/-- What a loop goes over is there in both contexts, and may be seen. -/
theorem located_element {first second : Context} (tied : Tied known start origin first second) {handle : Handle}
    (seen : handle.Seen known) {place : Place} {mutable : Bool}
    (element : Element (first.loopSource handle).1 place mutable) :
    Located known (first.loopSource handle).2 (second.loopSource handle).2 place := by
  obtain ⟨same, visible, -⟩ := loopSource_mirrored tied seen
  refine ⟨?_, tied.fenced.sound.element_open element, tied.fencedTwin.sound.element_open (same ▸ element)⟩
  cases found : (first.loopSource handle).1 with
  | array base length writable =>
    rw [found] at element visible
    cases element
    exact visible
  | dict base keys writable =>
    rw [found] at element visible
    cases element
    exact visible
  | _ =>
    rw [found] at element
    cases element

/-- Two runs that begin a loop abreast end it so. -/
theorem pairs_passes {β : Type} {enter : β → Context → Context} {body : RunM Unit}
    (mirrors : Mirrors known start origin body) (items : List β) {state twin : RunState}
    (abreast : Abreast known start origin state twin)
    (enters : ∀ item ∈ items, Enters known start origin state.context twin.context (enter item)) :
    let loop : RunM Bool := do
      Render.eachStep enter body items
      return true
    Alike (· = ·) (Abreast known start origin) (loop state) (loop twin) := by
  intro loop
  have whole : Pairs (Since known start origin state.context twin.context) (· = ·)
      (Since known start origin state.context twin.context) loop loop :=
    .bind_same (pairs_eachStep mirrors items enters) fun _ => .pure rfl
  have alike := whole state twin ⟨abreast, Extends.growth.refl _, Extends.growth.refl _⟩
  exact alike.relate alike.related.abreast

theorem loop_mirrors {source : Expr} (sees : Sees known source) (item : String) (key : Option String)
    (hasElse : Bool) {body : RunM Unit} (mirrors : Mirrors known start origin body) :
    Mirrors known start origin (Render.loop item key source hasElse body) := by
  refine ⟨.loop sound_run item key source hasElse mirrors.sound, ?_⟩
  have evaluated : Pairs (Abreast known start origin) (Same (Handle.Seen known)) (Abreast known start origin)
      (Render.inContext (exec source)) (Render.inContext (exec source)) := by
    intro state twin abreast
    obtain ⟨same, tied⟩ := evaluate_mirrored .strict sees abreast.tied
    rw [Render.inContext_eq, Render.inContext_eq]
    exact .ok same (abreast.withContext tied)
  apply Pairs.bind evaluated
  rintro handle _ ⟨rfl, seen⟩ state twin abreast
  obtain ⟨same, -, tied⟩ := loopSource_mirrored abreast.tied seen
  have after := abreast.withContext tied
  rw [bind_eq, bind_eq, Render.inContext_eq, Render.inContext_eq]
  dsimp only
  rw [← same]
  cases found : (state.context.loopSource handle).1 with
  | empty => exact .ok rfl after
  | scalar value =>
    cases hasElse with
    | true => exact .ok rfl after
    | false => exact pairs_passes mirrors [()] after fun position _ => enters_scalar _ _ item key value position
  | array place length mutable =>
    apply pairs_passes mirrors (List.range length) after
    intro position member
    have element : Element (state.context.loopSource handle).1 (place.child (.index position)) mutable :=
      found ▸ .position (List.mem_range.mp member)
    exact enters_element (located_element abreast.tied seen element) item key mutable
  | dict place keys mutable =>
    apply pairs_passes mirrors keys after
    intro name member
    have element : Element (state.context.loopSource handle).1 (place.child (.key name)) mutable :=
      found ▸ .entry member
    exact enters_entry (located_element abreast.tied seen element) item key mutable

/-! Calls. -/

/-- What a call finds to be run. -/
def Callable (known : String → Prop) (found other : Option (List Chunk)) : Prop :=
  found = other ∧ ∀ body, found = some body → Covers known False body

theorem pairs_call {mixin : Mixin} (familiar : mixin.Familiar known) (arguments : List Value) :
    Pairs (Abreast known start origin) (Callable known) (Abreast known start origin)
      (Render.callMixin mixin arguments) (Render.callMixin mixin arguments) := by
  apply Pairs.bind_same Mirrors.step.pairs
  intro counted
  cases counted with
  | false => exact .pure ⟨rfl, nofun⟩
  | true =>
    apply Pairs.bind_same (pairs_inContext (enter_mirrored familiar arguments))
    intro entered
    cases entered with
    | false => exact .pure ⟨rfl, nofun⟩
    | true =>
      refine .pure ⟨rfl, fun body same => ?_⟩
      cases same
      exact familiar.body

theorem pairs_enterCall (name : String) {arguments : Option Expr}
    (sees : ∀ expr, arguments = some expr → Sees known expr) :
    Pairs (Abreast known start origin) (Callable known) (Abreast known start origin)
      (Render.enterCall name arguments) (Render.enterCall name arguments) := by
  intro state twin abreast
  obtain ⟨same, familiar⟩ := abreast.tied.level.mixin? name
  unfold Render.enterCall
  rw [bind_eq, bind_eq, Render.getContext_eq, Render.getContext_eq]
  dsimp only
  rw [← same]
  cases found : state.context.mixin? name with
  | none => exact .ok ⟨rfl, nofun⟩ (abreast.withContext (abreast.tied.reportFault _))
  | some mixin =>
    have familiar := familiar mixin found
    cases arguments with
    | none => exact pairs_call familiar [] state twin abreast
    | some arguments =>
      refine Pairs.bind_same (pairs_inContext (execArguments_mirrored (sees arguments rfl))) ?_ state twin abreast
      intro values
      cases values with
      | none => exact .pure ⟨rfl, nofun⟩
      | some values => exact pairs_call familiar values

/-! Whole runs. -/

section

variable {again : RunOptions → List Chunk → RunM Unit}

theorem mirrors_composes
    (stays : AllStay (fun state => state.context.Sound)
      (fun before after => before.context.Extends after.context) again)
    (mirrors : ∀ options chunks, Covers known False chunks → Mirrors known start origin (again options chunks))
    (bound : Nat) :
    Composes (Twice (Mirrors known start origin)) known False again again bound bound where
  pure value := ⟨rfl, .pure value⟩
  bind twice goesOn := twice.bind .bind goesOn
  began := ⟨rfl, .note .began⟩
  entered := ⟨rfl, .note .entered⟩
  written text := ⟨rfl, .write text⟩
  flushed options := ⟨rfl, .flushReports options⟩
  escaping twice := by
    obtain rfl := funext fun escapes => (twice escapes).1
    refine ⟨rfl, .looking (fun tied => ?_) fun context => (twice context.escapeOutput).2⟩
    rw [tied.level.settings.escapeOutput]
  valued {expr} sees :=
    ⟨rfl, .inContext (execValue?_acts sound_kept.toContextKept expr) (execValue?_mirrored sees)⟩
  held {guard} sees := ⟨rfl, .inContext (holds_acts sound_kept.toContextKept guard) (holds_mirrored sees)⟩
  inScope := by
    rintro α part _ ⟨rfl, mirrors⟩
    exact ⟨rfl, mirrors.inScope⟩
  looped := by
    rintro source sees item key hasElse body _ ⟨rfl, mirrors⟩
    exact ⟨rfl, loop_mirrors sees item key hasElse mirrors⟩
  repeated := by
    rintro guard sees body _ ⟨rfl, mirrors⟩
    exact ⟨rfl, mirrors.whileStep sees bound⟩
  defined name {signature body} sees covers :=
    ⟨rfl, .modifyContext (define_keeps sound_kept.toContextKept name signature body)
      (define_mirrored name sees covers)⟩
  called name {arguments} sees options := by
    have body (chunks : List Chunk) (covers : Covers known False chunks) : Mirrors known start origin (do
        Render.note .entered
        Render.stepping (again options chunks)) :=
      .bind (.note .entered) fun _ => .stepping (mirrors options chunks covers)
    refine ⟨rfl, ⟨mixinCall_stays sound_run name arguments fun chunks => ?_, ?_⟩⟩
    · exact .bind sound_run.growth (.note sound_run .entered) fun _ => .stepping sound_run (stays options chunks)
    · apply Pairs.bind (pairs_enterCall name sees)
      rintro found _ ⟨rfl, covers⟩
      cases found with
      | none => exact .pure rfl
      | some chunks => exact pairs_closing (body chunks (covers chunks rfl)).pairs
  included never := never.elim

end

theorem run_mirrors (bound : Nat) (options : RunOptions) (chunks : List Chunk) (covers : Covers known False chunks) :
    Mirrors known start origin (Render.run bound options chunks) := by
  induction bound generalizing options chunks with
  | zero => exact .throw _
  | succ bound step =>
    exact (runChunks_composes (mirrors_composes (run_stays sound_run bound) step bound) options .closed chunks
      covers).2

end HtmlTemplate.Hidden
