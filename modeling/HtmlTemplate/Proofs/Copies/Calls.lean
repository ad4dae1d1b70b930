import HtmlTemplate.Proofs.Copies.Runs
import HtmlTemplate.Template.Source

/-! What a call of a mixin leaves behind. If the mixin changes nothing but its parameters, and so do all that can
be called in it, then the call changes nothing that there was before it: the parameters are copies. -/

namespace HtmlTemplate

namespace Call

open Rules Render

variable {callable : List String} {context : Context}

/-! Evaluation defines no mixins and opens no scopes. -/

theorem mixins_modifyFrame {index : Nat} {change : Frame → Frame}
    (same : ∀ scope, (change scope).mixins = scope.mixins) :
    (context.modifyFrame index change).frames.map Frame.mixins = context.frames.map Frame.mixins := by
  apply List.ext_getElem?
  intro frame
  rw [List.getElem?_map, List.getElem?_map, Context.getElem?_modifyFrame, Option.map_map]
  congr 1
  funext scope
  dsimp only [Function.comp_apply]
  split
  · exact same scope
  · rfl

theorem mixins_store (frame : Nat) (name : String) (binding : Binding) :
    (context.store frame name binding).frames.map Frame.mixins = context.frames.map Frame.mixins :=
  mixins_modifyFrame fun _ => rfl

theorem mixins_setRoot (root : Root) (value : Value) :
    (context.setRoot root value).frames.map Frame.mixins = context.frames.map Frame.mixins := by
  cases root with
  | temp frame index => exact mixins_modifyFrame fun _ => rfl
  | slot frame name =>
    unfold Context.setRoot
    dsimp only
    split
    · exact mixins_store ..
    · rfl
    · rfl

theorem mixins_kept (start : Context) :
    Kept (fun after => after.frames.map Frame.mixins = start.frames.map Frame.mixins) fun _ _ => True where
  growth := ⟨fun _ => trivial, fun _ _ => trivial⟩
  writes same step := by
    refine ⟨?_, trivial⟩
    cases step with
    | assigned => exact (mixins_store ..).trans same
    | declared => exact (mixins_store ..).trans same
    | filled => exact (mixins_store ..).trans same
    | written _ done =>
      obtain ⟨root, replaced, rfl⟩ := Context.setRoot_of_write? done
      exact (mixins_setRoot root replaced).trans same

theorem mixins_given (arguments : Option Expr) (context : Context) :
    (context.argumentValues arguments).2.frames.map Frame.mixins = context.frames.map Frame.mixins := by
  cases arguments with
  | none => rfl
  | some arguments =>
    have kept := (evalItems_stays (mixins_kept context) .strict arguments.items context rfl).1
    change (context.execArguments arguments).2.frames.map _ = _
    unfold Context.execArguments
    generalize Eval.evalItems .strict arguments.items context = result at kept
    obtain ⟨fault | values, after⟩ := result
    · exact kept
    · exact kept

theorem depth_given (arguments : Option Expr) (context : Context) :
    (context.argumentValues arguments).2.depth = context.depth := by
  have same := congrArg List.length (mixins_given arguments context)
  rwa [List.length_map, List.length_map] at same

theorem mixin?_given (arguments : Option Expr) (context : Context) (name : String) :
    (context.argumentValues arguments).2.mixin? name = context.mixin? name := by
  have found (context : Context) : context.mixin? name =
      (context.frames.map Frame.mixins).reverse.findSome? (Entries.lookup name) := by
    rw [← List.map_reverse, List.findSome?_map]
    rfl
  rw [found, found, mixins_given]

/-! Missing arguments. -/

/-- The first parameter without an argument is reported if it has no default, and nothing else is. -/
theorem bindParameters_missing (mixin : String) {parameters : List (String × Option Expr)}
    (ordered : Mixin.Ordered parameters) (values : List Value) (context : Context)
    (missing : ∃ parameter ∈ parameters.drop values.length, parameter.2 = none) :
    ∃ word, parameters[values.length]? = some (word, none) ∧
      (Mixin.bindParameters mixin parameters values context).1 = false ∧
      (Mixin.bindParameters mixin parameters values context).2.reports =
        context.reports.add (.missingArgument mixin word) := by
  induction parameters generalizing values context with
  | nil =>
    obtain ⟨parameter, member, -⟩ := missing
    rw [List.drop_nil] at member
    cases member
  | cons parameter rest step =>
    obtain ⟨name, default⟩ := parameter
    obtain ⟨first, later⟩ := List.pairwise_cons.mp ordered
    cases values with
    | cons value values => exact step later values (context.set name value) missing
    | nil =>
      cases default with
      | none => exact ⟨name, rfl, rfl, rfl⟩
      | some default =>
        obtain ⟨parameter, member, required⟩ := missing
        rcases List.mem_cons.mp member with rfl | member
        · cases required
        · have known := first parameter member rfl
          rw [required] at known
          cases known

theorem reports_counted (counted : context.step.1 = true) : context.step.2.reports = context.reports := by
  unfold Context.step at counted ⊢
  dsimp only at counted ⊢
  split at counted
  · split at counted
    · cases counted
    · rw [if_neg ‹_›]
  · rfl

theorem enter_missing {mixin : Mixin} (values : List Value) (context : Context)
    (missing : ∃ parameter ∈ mixin.parameters.drop values.length, parameter.2 = none) :
    ∃ word, mixin.parameters[values.length]? = some (word, none) ∧ (mixin.enter values context).1 = false ∧
      (mixin.enter values context).2.reports = context.reports.add (.missingArgument mixin.name word) := by
  obtain ⟨word, first, refused, reported⟩ :=
    bindParameters_missing mixin.name mixin.ordered values context.pushScope missing
  refine ⟨word, first, ?_⟩
  unfold Mixin.enter
  generalize Mixin.bindParameters mixin.name mixin.parameters values context.pushScope = result at *
  obtain ⟨complete, after⟩ := result
  obtain rfl : complete = false := refused
  refine ⟨rfl, ?_⟩
  change after.popScope.reports = _
  unfold Context.popScope
  split
  · exact reported
  · exact reported

section

variable {again : RunOptions → List Chunk → RunM Unit} {name : String} {arguments : Option Expr} {state : RunState}
  {mixin : Mixin}

/-- A call of a mixin goes on to its arguments. -/
theorem enterCall_found (found : state.context.mixin? name = some mixin) :
    Render.enterCall name arguments state = answerCall name arguments (some mixin) state := by
  rw [enterCall_eq, bind_eq, getContext_eq]
  dsimp only
  rw [found]

theorem answerCall_given {values : List Value} (evaluated : (state.context.argumentValues arguments).1 = some values) :
    answerCall name arguments (some mixin) state =
      callMixin mixin values { state with context := (state.context.argumentValues arguments).2 } := by
  cases arguments with
  | none =>
    cases evaluated
    rfl
  | some arguments =>
    have evaluated : (state.context.execArguments arguments).1 = some values := evaluated
    unfold answerCall
    dsimp only
    rw [bind_eq, inContext_eq]
    dsimp only
    rw [evaluated]
    rfl

theorem callMixin_missing {values : List Value} (counted : state.context.step.1 = true)
    (missing : ∃ parameter ∈ mixin.parameters.drop values.length, parameter.2 = none) :
    ∃ word, mixin.parameters[values.length]? = some (word, none) ∧
      (callMixin mixin values state).1 = .ok none ∧
      (callMixin mixin values state).2.context.reports =
        state.context.reports.add (.missingArgument mixin.name word) ∧
      (callMixin mixin values state).2.sink = state.sink ∧ (callMixin mixin values state).2.past = state.past := by
  obtain ⟨word, first, refused, reported⟩ := enter_missing values state.context.step.2 missing
  rw [reports_counted counted] at reported
  unfold callMixin
  rw [bind_eq, inContext_eq, counted]
  dsimp only
  rw [if_pos rfl, bind_eq, inContext_eq]
  dsimp only
  rw [refused]
  exact ⟨word, first, rfl, reported, rfl, rfl⟩

end

/-- The parameters of a mixin are copies. If it changes nothing but them, and so does all that can be called in it,
then a call of it leaves the scopes and the values of the host as its arguments have left them, whether its body
comes to its end or not. A call that misses an argument is refused: that is reported once, and no body is run. -/
theorem call_copies {callable : List String} {name : String} {mixin : Mixin} {state : RunState}
    (opened : 0 < state.context.depth) (found : state.context.mixin? name = some mixin)
    (copies : mixin.isLocal callable = true)
    (others : ∀ word ∈ callable, ∀ other, state.context.mixin? word = some other → other.isLocal callable = true)
    (arguments : Option Expr) (bound : Nat) (options : RunOptions) :
    let given := state.context.argumentValues arguments
    let ended := runChunk (run bound) bound options (.mixinCall name arguments) state
    given.2.LeftAlone ended.2.context ∧ ended.2.context.depth = state.context.depth ∧
      (∀ place, ended.2.context.resolve? place = given.2.resolve? place) ∧
      ∀ values, given.1 = some values → given.2.step.1 = true →
        (∃ parameter ∈ mixin.parameters.drop values.length, parameter.2 = none) →
        ∃ word, mixin.parameters[values.length]? = some (word, none) ∧ ended.1 = .ok () ∧
          ended.2.context.reports = given.2.reports.add (.missingArgument mixin.name word) ∧
          ended.2.sink = state.sink ∧ ended.2.past = state.past := by
  intro given ended
  have depth : given.2.depth = state.context.depth := depth_given arguments state.context
  have leftAlone : given.2.LeftAlone ended.2.context := by
    refine mixinCall_leftAlone (run_contained callable bound) (depth ▸ opened) ?_ bound options
    rw [enterCall_found found]
    refine answerCall_entered copies name arguments (depth ▸ opened) fun word called other known => ?_
    rw [mixin?_given] at known
    exact others word called other known
  refine ⟨leftAlone, (congrArg List.length leftAlone.frames).trans depth, leftAlone.resolve?, ?_⟩
  intro values evaluated counted missing
  let begun : RunState := { state with context := given.2 }
  have begunCounted : begun.context.step.1 = true := counted
  obtain ⟨word, first, refused, reported, written, past⟩ := callMixin_missing begunCounted missing
  have entered : Render.enterCall name arguments state = callMixin mixin values begun := by
    rw [enterCall_found found, answerCall_given evaluated]
  have done : ended = (.ok (), (callMixin mixin values begun).2) := by
    change runChunk (run bound) bound options (.mixinCall name arguments) state = _
    unfold runChunk
    rw [bind_eq, entered]
    generalize callMixin mixin values begun = result at refused
    obtain ⟨outcome, after⟩ := result
    cases refused
    rfl
  rw [done]
  exact ⟨word, first, rfl, reported, written, past⟩

/-- The counter of an item. -/
def count : Expr := .binary .member (.name "item") (.name "count")

/-- Raises a counter of its item until it is large. -/
def raise : Mixin where
  name := "raise"
  parameters := [("item", none), ("step", some (.unary .postIncrement count))]
  ordered := by decide
  body := [.code (.binary .addAssign count (.name "step")),
    .ifBlock (.binary .less count (.literal (.int 10))) [.mixinCall "raise" (some (.name "item"))]]

/-- A run that has one variable and one mixin. -/
def having (name : String) (value : Value) (mixin : Mixin) : RunState where
  context :=
    { Context.new with
      frames := [{ bindings := [(name, .ofValue value)], mixins := [(mixin.name, mixin)], temps := [] }] }
  sink := .unlimited

def stocked : RunState := having "stock" (.dict [("count", .int 2)]) raise

/-- However far it is raised, the counter of the caller is what it was; and there has to be an item. -/
theorem raise_copies :
    0 < stocked.context.depth ∧ stocked.context.mixin? "raise" = some raise ∧ raise.isLocal ["raise"] = true ∧
      ((runChunk (run 9) 9 ⟨false, false⟩ (.mixinCall "raise" (some (.name "stock"))) stocked).2.context.resolve?
        ⟨.slot 0 "stock", [.key "count"]⟩).map Value.toText = some "2" ∧
      (runChunk (run 9) 9 ⟨false, false⟩ (.mixinCall "raise" none) stocked).2.context.reports.faults =
        [.missingArgument "raise" "item"] := by
  have opened : 0 < stocked.context.depth := by decide
  have found : stocked.context.mixin? "raise" = some raise := rfl
  have copies : raise.isLocal ["raise"] = true := rfl
  have others : ∀ word ∈ ["raise"], ∀ other, stocked.context.mixin? word = some other →
      other.isLocal ["raise"] = true := by
    intro word member other known
    obtain rfl := List.mem_singleton.mp member
    cases found.symm.trans known
    exact copies
  refine ⟨opened, found, copies, ?_, ?_⟩
  · rw [(call_copies opened found copies others (some (.name "stock")) 9 ⟨false, false⟩).2.2.1]
    decide +kernel
  · obtain ⟨word, first, -, reported, -⟩ :=
      (call_copies opened found copies others none 9 ⟨false, false⟩).2.2.2 [] rfl rfl
        ⟨("item", none), List.mem_cons_self .., rfl⟩
    cases first
    rw [reported]
    rfl

/-- Its first default steps up a name that only the second parameter has. -/
def hasty : Mixin where
  name := "hasty"
  parameters := [("a", some (.unary .postIncrement (.name "b"))), ("b", some (.literal (.int 2)))]
  ordered := by decide
  body := [.text "x"]

/-- A name that no parameter has been bound to yet is the caller's. And where no call is made, since an argument
fails or there is no step left, that is reported and not that an argument is missing. -/
theorem hasty_steps_outer :
    (hasty.parameters.all fun parameter => parameter.2.all (Expr.isLocal (hasty.parameters.map Prod.fst))) = true ∧
      Chunk.areLocal [] (hasty.parameters.map Prod.fst) hasty.body = true ∧
      ((having "b" (.int 1) hasty).context.get? "b").map Value.toText = some "1" ∧
      ((runChunk (run 1) 1 ⟨false, false⟩ (.mixinCall "hasty" none)
        (having "b" (.int 1) hasty)).2.context.get? "b").map Value.toText = some "2" ∧
      (Template.ofSource { pretty := false, stopOnError := false }
          "- var b = 1\nmixin m(a = b++, b = 2)\n  | x\n+m\n= b".toList).toOption.map
        (fun template => (template.run 2 .new .unlimited).2.sink.text) = some "x2" ∧
      (runChunk (run 1) 1 ⟨false, false⟩ (.mixinCall "raise" none)
        { stocked with context := stocked.context.setStepLimit (some 0) }).2.context.reports.faults =
          [.stepLimit] ∧
      (runChunk (run 1) 1 ⟨false, false⟩ (.mixinCall "raise" (some (.name "lost"))) stocked).2.context.reports.faults =
        [.unknownName "lost"] := by
  rw [String.toList_ofList]
  decide +kernel

end Call

end HtmlTemplate
