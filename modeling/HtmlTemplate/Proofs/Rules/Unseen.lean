import HtmlTemplate.Proofs.Context.Mixins
import HtmlTemplate.Proofs.Rules.Resemblance
import HtmlTemplate.Render.Basic

/-! Changes of a context that are not seen through its names and places. What a run does within a scope
gives the same result after such a change as before, and leaves the change as it is. -/

namespace HtmlTemplate.Rules

/-- A change of contexts that is not seen through names and places, and that stays when they are
written to. -/
structure Unseen (change : Context → Context) : Prop where
  current : ∀ context, (change context).current = context.current
  binding? : ∀ context frame name, (change context).binding? frame name = context.binding? frame name
  find? : ∀ context name, (change context).find? name = context.find? name
  aliasBound : ∀ context, (change context).aliasBound = context.aliasBound
  hosted : ∀ context, (change context).hosted = context.hosted
  temp : ∀ context frame index,
    (change context).rootValue? (.temp frame index) = context.rootValue? (.temp frame index)
  store : ∀ context frame name binding,
    (change context).store frame name binding = change (context.store frame name binding)
  setTemp : ∀ context frame index value,
    (change context).setRoot (.temp frame index) value = change (context.setRoot (.temp frame index) value)
  setHosted : ∀ context hosted, { change context with hosted } = change { context with hosted }
  pushTemp : ∀ context value,
    (change context).pushTemp value = ((context.pushTemp value).1, change (context.pushTemp value).2)
  reportFault : ∀ context fault, (change context).reportFault fault = change (context.reportFault fault)

/-- An action gives the same result after a change as before, and leaves it as it is. -/
def Ignores {α : Type} (change : Context → Context) (action : Context → α × Context) : Prop :=
  ∀ context, action (change context) = ((action context).1, change (action context).2)

/-- The same of an action without a result. -/
def Commutes (change action : Context → Context) : Prop :=
  ∀ context, action (change context) = change (action context)

variable {change : Context → Context} {α β : Type}

namespace Unseen

/-! Reading and writing places. -/

theorem followAliases (unseen : Unseen change) (context : Context) (count : Nat) (place : Place) :
    (change context).followAliases count place = context.followAliases count place := by
  have leads (place : Place) : (change context).alias? place = context.alias? place := by
    simp only [Context.alias?, unseen.binding?]
  induction count generalizing place with
  | zero => rfl
  | succ count step => simp only [Context.followAliases, leads, step]

theorem canonical (unseen : Unseen change) (context : Context) (place : Place) :
    (change context).canonical place = context.canonical place := by
  simp only [Context.canonical, unseen.aliasBound, unseen.followAliases]

theorem rootValue? (unseen : Unseen change) (context : Context) (root : Root) :
    (change context).rootValue? root = context.rootValue? root := by
  cases root with
  | temp frame index => exact unseen.temp context frame index
  | slot frame name =>
    have source (source : Source) : (change context).sourceValue? source = context.sourceValue? source := by
      cases source with
      | hosted index => simp only [Context.sourceValue?, unseen.hosted]
      | _ => rfl
    simp only [Context.rootValue?, unseen.binding?, source]

theorem resolve? (unseen : Unseen change) (context : Context) (place : Place) :
    (change context).resolve? place = context.resolve? place := by
  simp only [Context.resolve?, unseen.canonical, unseen.rootValue?]

theorem isMutable (unseen : Unseen change) (context : Context) (place : Place) :
    (change context).isMutable place = context.isMutable place := by
  have writable (root : Root) : (change context).isRootWritable root = context.isRootWritable root := by
    cases root with
    | temp frame index => rfl
    | slot frame name => simp only [Context.isRootWritable, unseen.binding?]
  simp only [Context.isMutable, unseen.aliasBound, unseen.followAliases, writable]

theorem setRoot (unseen : Unseen change) (context : Context) (root : Root) (value : Value) :
    (change context).setRoot root value = change (context.setRoot root value) := by
  cases root with
  | temp frame index => exact unseen.setTemp context frame index value
  | slot frame name =>
    simp only [Context.setRoot, unseen.binding?, unseen.store, unseen.hosted, unseen.setHosted]
    split
    · rfl
    · rfl
    · rfl

theorem write? (unseen : Unseen change) (context : Context) (place : Place) (value : Value) :
    (change context).write? place value = (context.write? place value).map change := by
  simp only [Context.write?, unseen.canonical, unseen.rootValue?, unseen.setRoot]
  cases context.rootValue? (context.canonical place).root with
  | none => rfl
  | some old =>
    dsimp only [Bind.bind, Option.bind]
    cases Value.replace? (context.canonical place).path old value <;> rfl

/-! Handles. -/

theorem read? (unseen : Unseen change) (context : Context) (handle : Handle) :
    (change context).read? handle = context.read? handle := by
  cases handle with
  | reference mutable place => exact unseen.resolve? context place
  | slot frame name => exact unseen.resolve? context _
  | _ => rfl

theorem valueOf (unseen : Unseen change) (context : Context) (handle : Handle) :
    (change context).valueOf handle = context.valueOf handle := by
  rw [Context.valueOf, Context.valueOf, unseen.read?]

theorem truthy (unseen : Unseen change) (context : Context) (handle : Handle) :
    (change context).truthy handle = context.truthy handle := by
  rw [Context.truthy, Context.truthy, unseen.valueOf]

theorem resolveMutable? (unseen : Unseen change) (context : Context) (place : Place) :
    (change context).resolveMutable? place = context.resolveMutable? place := by
  rw [Context.resolveMutable?, Context.resolveMutable?, unseen.isMutable, unseen.resolve?]

theorem bind (unseen : Unseen change) (name : String) (binding : Binding) :
    Commutes change (·.bind name binding) := by
  intro context
  dsimp only
  rw [Context.bind, Context.bind, unseen.current, unseen.store]

theorem set (unseen : Unseen change) (name : String) (value : Value) : Commutes change (·.set name value) :=
  unseen.bind name _

theorem bindAlias (unseen : Unseen change) (name : String) (place : Place) (mutable : Bool) :
    Commutes change (·.bindAlias name place mutable) := by
  intro context
  dsimp only
  rw [Context.bindAlias, unseen.canonical]
  exact unseen.bind name _ context

theorem owner? (unseen : Unseen change) (context : Context) (place : Place) :
    (change context).owner? place = context.owner? place := by
  simp only [Context.owner?, unseen.canonical, unseen.binding?]

theorem method? (unseen : Unseen change) (context : Context) (place : Place) (member : Member) :
    Member.method? (change context) place member = Member.method? context place member := by
  cases member with
  | name word => rw [Member.method?, Member.method?, unseen.owner?]
  | index number => rfl

theorem atPlace (unseen : Unseen change) (context : Context) (place : Place) (target : Bool)
    (member : Member) :
    Member.atPlace (change context) place target member = Member.atPlace context place target member := by
  simp only [Member.atPlace, unseen.resolve?, unseen.isMutable]

theorem ofHandle (unseen : Unseen change) (context : Context) (base : Handle) (target : Bool)
    (member : Member) :
    Member.ofHandle (change context) base target member = Member.ofHandle context base target member := by
  cases base <;> simp only [Member.ofHandle, unseen.method?, unseen.atPlace, unseen.resolve?]

theorem isHosted (unseen : Unseen change) (context : Context) (frame : Nat) (name : String) :
    Assignment.isHosted (change context) frame name = Assignment.isHosted context frame name := by
  simp only [Assignment.isHosted, unseen.binding?]

theorem bindingFor (unseen : Unseen change) (context : Context) (frame : Nat) (name : String)
    (value : Handle) :
    Assignment.bindingFor (change context) frame name value =
      Assignment.bindingFor context frame name value := by
  unfold Assignment.bindingFor
  simp only [unseen.canonical, unseen.resolve?, unseen.isMutable, unseen.valueOf]

theorem loopAt (unseen : Unseen change) (context : Context) (place : Place) (mutable : Bool) :
    (change context).loopAt place mutable = context.loopAt place mutable := by
  simp only [Context.loopAt, unseen.resolve?]

end Unseen

namespace Ignores

theorem pure (value : α) : Ignores change (Pure.pure value : EvalM α) := fun _ => rfl

theorem bind {first : EvalM α} {next : α → EvalM β} (ignores : Ignores change first)
    (goesOn : ∀ value, Ignores change (next value)) : Ignores change (first >>= next) := by
  intro context
  rw [bind_eq, bind_eq, ignores context]
  obtain ⟨error | value, after⟩ := first context
  · rfl
  · exact goesOn value after

/-- A computation that looks at the context first. -/
theorem bind_get {next : Context → EvalM α}
    (goesOn : ∀ context, next (change context) (change context) =
      ((next context context).1, change (next context context).2)) :
    Ignores change (get >>= next) :=
  goesOn

theorem pairs {program : EvalM α} (ignores : Ignores change program) :
    Pairs (fun context twin => twin = change context) (· = ·) (fun context twin => twin = change context)
      program program := by
  intro context twin related
  rw [related, ignores context]
  obtain ⟨error | value, after⟩ := program context
  · exact .error rfl
  · exact .ok rfl rfl

theorem of_pairs {program : EvalM α} {same : α → α → Prop}
    (eq : ∀ first second, same first second → first = second)
    (pairs : Pairs (fun context twin => twin = change context) same (fun context twin => twin = change context)
      program program) : Ignores change program := by
  intro context
  have alike := pairs context _ rfl
  generalize program context = first at alike
  generalize program (change context) = second at alike
  cases alike with
  | ok corresponds related => rw [eq _ _ corresponds, related]
  | error related => rw [related]

end Ignores

/-! Writing through handles. -/

theorem writeTo_ignores (unseen : Unseen change) (place : Place) (value : Value) :
    Ignores change (Assignment.writeTo place value) := by
  apply Ignores.bind_get
  intro context
  simp only [unseen.resolveMutable?, unseen.write?]
  cases context.resolveMutable? place with
  | none => rfl
  | some old => cases context.write? place value <;> rfl

theorem insertAt_ignores (unseen : Unseen change) (container : Place) (key : String) (value : Value) :
    Ignores change (Assignment.insertAt container key value) := by
  apply Ignores.bind_get
  intro context
  simp only [unseen.resolveMutable?, unseen.write?]
  cases context.resolveMutable? container with
  | none => rfl
  | some old =>
    cases changed : old.insert? key value with
    | none =>
      simp only [changed]
      rfl
    | some grown =>
      simp only [changed]
      cases context.write? container grown <;> rfl

theorem assign_ignores (unseen : Unseen change) (target value : Handle) :
    Ignores change (Assignment.assign target value) := by
  apply Ignores.bind_get
  intro context
  simp only [unseen.valueOf]
  cases target with
  | slot frame name =>
    simp only [unseen.isHosted, unseen.bindingFor, unseen.store]
    cases Assignment.isHosted context frame name with
    | true => exact Ignores.bind (writeTo_ignores unseen _ _) (fun _ => .pure _) context
    | false => rfl
  | reference mutable place =>
    cases mutable with
    | true => exact Ignores.bind (writeTo_ignores unseen _ _) (fun _ => .pure _) context
    | false => rfl
  | vacant container key =>
    exact Ignores.bind (insertAt_ignores unseen _ _ _) (fun _ => .pure _) context
  | _ => rfl

theorem prepare_ignores (unseen : Unseen change) (target : Handle) :
    Ignores change (Assignment.prepare target) := by
  intro context
  cases target with
  | slot frame name =>
    rw [Assignment.prepare_slot, Assignment.prepare_slot, unseen.binding?]
    by_cases unset : context.binding? frame name = some .unset
    · rw [unset]
      exact congrArg (Prod.mk _) (unseen.store context frame name _)
    · rw [Assignment.filling_of_ne unset, Assignment.filling_of_ne unset]
  | reference mutable place => cases mutable <;> rfl
  | vacant container key =>
    exact Ignores.bind (insertAt_ignores unseen _ _ _) (fun _ => .pure _) context
  | _ => rfl

theorem update_ignores (unseen : Unseen change) (target : Handle)
    (changed : Value → Except EvalFault Value) : Ignores change (Assignment.update target changed) := by
  apply Ignores.bind (prepare_ignores unseen target)
  intro place
  apply Ignores.bind_get
  intro context
  simp only [unseen.resolveMutable?]
  cases context.resolveMutable? place with
  | none => rfl
  | some old =>
    cases result : changed old with
    | error fault =>
      simp only [result]
      rfl
    | ok value =>
      simp only [result]
      exact writeTo_ignores unseen place value context

/-! Names. -/

theorem lookupName_ignores (unseen : Unseen change) (mode : EvalMode) (name : String) :
    Ignores change (Eval.lookupName mode name) := by
  intro context
  rw [Eval.lookupName_eq, Eval.lookupName_eq, unseen.find?]
  cases context.find? name with
  | none => rfl
  | some frame => rw [Option.elim_some, Option.elim_some, unseen.binding?]

theorem declare_ignores (unseen : Unseen change) (name : String) : Ignores change (Eval.declare name) := by
  apply Ignores.bind_get
  intro context
  have bound := unseen.bind name .unset context
  dsimp only at bound
  simp only [unseen.current, unseen.binding?, bound]
  cases (context.binding? context.current name).isSome <;> rfl

/-- Contexts look alike before and after a change that is not seen. -/
theorem Unseen.likeness (unseen : Unseen change) :
    Likeness (fun context twin => twin = change context) (fun _ => True) fun _ => True where
  owned _ := trivial
  valueOf := by
    intro context twin handle related _
    rw [related, unseen.valueOf]
  member := by
    intro context twin base related _ target member
    rw [related]
    exact ⟨(unseen.ofHandle ..).symm, trivial⟩
  settled _ := trivial
  updated _ changed := ((update_ignores unseen _ changed).pairs).weaken fun _ _ _ => trivial
  assigned _ _ := ((assign_ignores unseen _ _).pairs).weaken fun _ _ same => ⟨same, trivial⟩
  looked mode {name} _ :=
    ((lookupName_ignores unseen mode name).pairs).weaken fun _ _ same => ⟨same, trivial⟩
  declared {name} _ := ((declare_ignores unseen name).pairs).weaken fun _ _ same => ⟨same, trivial⟩

/-! Evaluation as templates use it. -/

theorem eval_ignores (unseen : Unseen change) (mode : EvalMode) (expr : Expr) :
    Ignores change (Eval.eval mode expr) :=
  .of_pairs (fun _ _ same => same.1) (eval_alike unseen.likeness mode expr fun _ _ => trivial)

theorem evalItems_ignores (unseen : Unseen change) (mode : EvalMode) (items : List Expr) :
    Ignores change (Eval.evalItems mode items) :=
  .of_pairs (fun _ _ same => same) (evalItems_alike unseen.likeness mode items fun _ _ _ _ => trivial)

theorem evaluate_ignores (unseen : Unseen change) (mode : EvalMode) (expr : Expr) :
    Ignores change (Context.evaluate mode expr) := by
  intro context
  unfold Context.evaluate
  rw [eval_ignores unseen mode expr context]
  obtain ⟨fault | handle, after⟩ := Eval.eval mode expr context
  · exact congrArg (Prod.mk _) (unseen.reportFault after fault)
  · rfl

theorem execArguments_ignores (unseen : Unseen change) (arguments : Expr) :
    Ignores change (Context.execArguments arguments) := by
  intro context
  unfold Context.execArguments
  rw [evalItems_ignores unseen .strict arguments.items context]
  obtain ⟨fault | values, after⟩ := Eval.evalItems .strict arguments.items context
  · exact congrArg (Prod.mk _) (unseen.reportFault after fault)
  · rfl

theorem execValue?_ignores (unseen : Unseen change) (expr : Expr) :
    Ignores change (Context.execValue? expr) := by
  intro context
  unfold Context.execValue? Context.exec
  rw [evaluate_ignores unseen .strict expr context]
  simp only [unseen.read?]

theorem execValue_ignores (unseen : Unseen change) (expr : Expr) :
    Ignores change (Context.execValue expr) := by
  intro context
  unfold Context.execValue
  rw [execValue?_ignores unseen expr context]

theorem holds_ignores (unseen : Unseen change) (guard : Expr) : Ignores change (Context.holds guard) := by
  intro context
  unfold Context.holds Context.probe
  rw [evaluate_ignores unseen .guard guard context]
  simp only [unseen.truthy]

theorem loopSource_ignores (unseen : Unseen change) (handle : Handle) :
    Ignores change (Context.loopSource handle) := by
  intro context
  unfold Context.loopSource
  split
  · rfl
  · rw [unseen.pushTemp]
    split
    · simp only [unseen.loopAt]
    · rfl
  · simp only [unseen.loopAt, unseen.canonical, unseen.isMutable]
    split <;> rfl

theorem bindParameters_ignores (unseen : Unseen change) (mixin : String)
    (parameters : List (String × Option Expr)) (arguments : List Value) :
    Ignores change (Mixin.bindParameters mixin parameters arguments) := by
  induction parameters generalizing arguments with
  | nil => exact fun _ => rfl
  | cons parameter rest step =>
    obtain ⟨name, default⟩ := parameter
    intro context
    cases arguments with
    | cons argument arguments =>
      have named := unseen.set name argument context
      dsimp only at named
      unfold Mixin.bindParameters
      rw [named]
      exact step arguments _
    | nil =>
      cases default with
      | none => exact congrArg (Prod.mk _) (unseen.reportFault context _)
      | some default =>
        unfold Mixin.bindParameters
        rw [execValue_ignores unseen default context]
        have named := unseen.set name (context.execValue default).1 (context.execValue default).2
        dsimp only at named ⊢
        rw [named]
        exact step [] _

/-! Loop variables. -/

theorem keyed_commutes (unseen : Unseen change) (key : Option String) (value : Value) :
    Commutes change fun context => key.elim context fun key => context.set key value := by
  intro context
  cases key with
  | none => rfl
  | some key => exact unseen.set key value context

theorem enterScalar_commutes (unseen : Unseen change) (item : String) (key : Option String)
    (value : Value) (position : Unit) :
    Commutes change (Render.enterScalar item key value position) := by
  intro context
  have named := unseen.set item value context
  dsimp only at named
  unfold Render.enterScalar
  rw [named]
  exact keyed_commutes unseen key _ _

theorem enterElement_commutes (unseen : Unseen change) (item : String) (key : Option String)
    (place : Place) (mutable : Bool) (position : Nat) :
    Commutes change (Render.enterElement item key place mutable position) := by
  intro context
  have named := unseen.bindAlias item (place.child (.index position)) mutable context
  dsimp only at named
  unfold Render.enterElement
  rw [named]
  exact keyed_commutes unseen key _ _

theorem enterEntry_commutes (unseen : Unseen change) (item : String) (key : Option String)
    (place : Place) (mutable : Bool) (name : String) :
    Commutes change (Render.enterEntry item key place mutable name) := by
  intro context
  have named := keyed_commutes unseen key (.text name) context
  dsimp only at named
  unfold Render.enterEntry
  rw [named]
  exact unseen.bindAlias item (place.child (.key name)) mutable _

/-! What a run does to a context, apart from calling and defining mixins, it does without looking
at the mixins, and leaves them as they are. -/

theorem mixins_unseen (mixins : Nat → Entries Mixin) : Unseen (·.withMixins mixins) where
  current context := Context.current_withMixins context mixins
  binding? context := Context.binding?_withMixins context mixins
  find? context := Context.find?_withMixins context mixins
  aliasBound context := Context.aliasBound_withMixins context mixins
  hosted _ := rfl
  temp context frame index := by
    simp only [Context.rootValue?, Context.frame_withMixins]
    cases context.frames[frame]? <;> rfl
  store context := Context.store_withMixins context mixins
  setTemp context frame _ _ := Context.modifyFrame_withMixins context mixins (fun _ _ => rfl) frame
  setHosted _ _ := rfl
  pushTemp context := Context.pushTemp_withMixins context mixins
  reportFault context := Context.reportFault_withMixins context mixins

/-- An action gives the same result whatever the mixins are, and keeps them. -/
def Blind (action : Context → α × Context) : Prop := ∀ mixins, Ignores (·.withMixins mixins) action

/-- The same of a change. -/
def BlindChange (action : Context → Context) : Prop := ∀ mixins, Commutes (·.withMixins mixins) action

theorem step_blind : Blind Context.step := by
  intro mixins context
  unfold Context.step
  have limit : (context.withMixins mixins).stepLimit = context.stepLimit := rfl
  have steps : (context.withMixins mixins).steps = context.steps := rfl
  dsimp only
  rw [limit, steps]
  cases context.stepLimit with
  | none => rfl
  | some limit =>
    dsimp only
    split
    · split <;> rfl
    · rfl

end HtmlTemplate.Rules
