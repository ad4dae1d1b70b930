import HtmlTemplate.Proofs.Hidden.Fences
import HtmlTemplate.Proofs.Rules.Composition

/-! Contexts that look alike through some names, and the changes that keep them so. They may differ in
what their outermost scopes have behind other names, and in where the host keeps its data. -/

namespace HtmlTemplate

/-- What a scope holds apart from its names. -/
structure Layer where
  mixins : Entries Mixin
  temps : List Value

def Frame.layer (frame : Frame) : Layer := ⟨frame.mixins, frame.temps⟩

/-- A mixin that has only names that are known, and includes no templates. -/
structure Mixin.Familiar (known : String → Prop) (mixin : Mixin) : Prop where
  parameters : ∀ parameter ∈ mixin.parameters,
    known parameter.1 ∧ ∀ default, parameter.2 = some default → Rules.Sees known default
  body : Rules.Covers known False mixin.body

namespace Reports

/-- Since two earlier times the same has been reported in both, and now the same reports wait. -/
structure SameSince (start origin first second : Reports) : Prop where
  made : ∃ faults, first.faults = faults ++ start.faults ∧ second.faults = faults ++ origin.faults
  /-- A host that takes the reports has been told the same. -/
  told : ∃ messages, first.taken = start.taken.map (· ++ messages) ∧
    second.taken = origin.taken.map (· ++ messages)
  taking : first.taken.isSome = second.taken.isSome
  pending : first.pending = second.pending
  last : first.last = second.last

namespace SameSince

variable {start origin first second : Reports}

theorem begun (taking : start.taken.isSome = origin.taken.isSome) (waiting : start.pending = origin.pending) :
    SameSince start origin { start with last := .none } { origin with last := .none } := by
  refine ⟨⟨[], rfl, rfl⟩, ⟨[], ?_, ?_⟩, taking, waiting, rfl⟩
  · simp
  · simp

theorem add (same : SameSince start origin first second) (fault : EvalFault) :
    SameSince start origin (first.add fault) (second.add fault) := by
  obtain ⟨faults, made, madeTwin⟩ := same.made
  obtain ⟨messages, told, toldTwin⟩ := same.told
  constructor
  · refine ⟨fault :: faults, ?_, ?_⟩
    · rw [faults_add, made, List.cons_append]
    · rw [faults_add, madeTwin, List.cons_append]
  · refine ⟨messages ++ [(Diagnostic.plain .context fault.message).text], ?_, ?_⟩
    · simp only [taken_add, told, Option.map_map, Function.comp_def, List.append_assoc]
    · simp only [taken_add, toldTwin, Option.map_map, Function.comp_def, List.append_assoc]
  · rw [taken_add, taken_add, Option.isSome_map, Option.isSome_map, same.taking]
  · rw [pending_add, pending_add, same.pending, same.taking]
  · rw [last_add, last_add]

theorem drain (same : SameSince start origin first second) :
    SameSince start origin { first with pending := [] } { second with pending := [] } :=
  ⟨same.made, same.told, same.taking, rfl, same.last⟩

theorem forget (same : SameSince start origin first second) :
    SameSince start origin { first with last := .none } { second with last := .none } :=
  ⟨same.made, same.told, same.taking, same.pending, rfl⟩

end SameSince

end Reports

namespace Context

def layers (context : Context) : List Layer := context.frames.map Frame.layer

theorem length_layers (context : Context) : context.layers.length = context.depth := List.length_map ..

theorem layers_modifyFrame {first second : Context} (same : first.layers = second.layers) (index : Nat)
    {change : Frame → Frame}
    (alike : ∀ {frame other : Frame}, frame.layer = other.layer → (change frame).layer = (change other).layer) :
    (first.modifyFrame index change).layers = (second.modifyFrame index change).layers := by
  apply List.ext_getElem?
  intro position
  have here := congrArg (·[position]?) same
  simp only [layers, List.getElem?_map] at here
  rw [layers, layers, List.getElem?_map, List.getElem?_map, getElem?_modifyFrame, getElem?_modifyFrame,
    Option.map_map, Option.map_map]
  cases one : first.frames[position]? with
  | none =>
    cases other : second.frames[position]? with
    | none => rfl
    | some frame =>
      rw [one, other] at here
      cases here
  | some frame =>
    cases other : second.frames[position]? with
    | none =>
      rw [one, other] at here
      cases here
    | some twin =>
      rw [one, other] at here
      have same : frame.layer = twin.layer := Option.some.inj here
      simp only [Option.map_some, Function.comp_apply]
      split
      · rw [alike same]
      · rw [same]

theorem mem_layers_modifyFrame {context : Context} {index : Nat} {change : Frame → Frame} {layer : Layer}
    (member : layer ∈ (context.modifyFrame index change).layers) :
    layer ∈ context.layers ∨ ∃ frame : Frame, frame.layer ∈ context.layers ∧ layer = (change frame).layer := by
  obtain ⟨scope, found, rfl⟩ := List.mem_map.mp member
  obtain ⟨position, found⟩ := List.mem_iff_getElem?.mp found
  rw [getElem?_modifyFrame] at found
  obtain ⟨frame, old, rfl⟩ := Option.map_eq_some_iff.mp found
  have earlier : frame.layer ∈ context.layers := List.mem_map_of_mem (List.mem_of_getElem? old)
  split
  · exact .inr ⟨frame, earlier, rfl⟩
  · exact .inl earlier

theorem layers_store (context : Context) (frame : Nat) (name : String) (binding : Binding) :
    (context.store frame name binding).layers = context.layers := by
  apply List.ext_getElem?
  intro position
  rw [store, layers, layers, List.getElem?_map, List.getElem?_map, getElem?_modifyFrame, Option.map_map]
  cases context.frames[position]? with
  | none => rfl
  | some scope =>
    simp only [Option.map_some, Function.comp_apply]
    split <;> rfl

theorem layers_setRoot_slot (context : Context) (frame : Nat) (name : String) (value : Value) :
    (context.setRoot (.slot frame name) value).layers = context.layers := by
  unfold setRoot
  dsimp only
  split
  · exact layers_store ..
  · rfl
  · rfl

theorem layers_setRoot {first second : Context} (same : first.layers = second.layers) (root : Root)
    (value : Value) : (first.setRoot root value).layers = (second.setRoot root value).layers := by
  cases root with
  | slot frame name => rw [layers_setRoot_slot, layers_setRoot_slot, same]
  | temp frame index =>
    apply layers_modifyFrame same frame
    intro scope other alike
    exact congrArg (fun layer : Layer => { layer with temps := layer.temps.set index value }) alike

theorem mixins_setRoot {context : Context} {root : Root} {value : Value} {layer : Layer}
    (member : layer ∈ (context.setRoot root value).layers) :
    ∃ earlier ∈ context.layers, layer.mixins = earlier.mixins := by
  cases root with
  | slot frame name =>
    rw [layers_setRoot_slot] at member
    exact ⟨layer, member, rfl⟩
  | temp frame index =>
    rcases mem_layers_modifyFrame member with earlier | ⟨scope, earlier, rfl⟩
    · exact ⟨layer, earlier, rfl⟩
    · exact ⟨scope.layer, earlier, rfl⟩

/-- A scope that is not open cannot be stored in. -/
theorem store_outside {context : Context} {frame : Nat} (outside : context.depth ≤ frame) (name : String)
    (binding : Binding) : context.store frame name binding = context := by
  have same : context.frames.modify frame (fun frame =>
      { frame with bindings := frame.bindings.insert name binding }) = context.frames :=
    List.modify_eq_self outside
  unfold store modifyFrame
  rw [same]

theorem aliasRoot?_of_kind {before after : Context} {frame : Nat} {name : String}
    (same : (after.binding? frame name).map Binding.kind = (before.binding? frame name).map Binding.kind) :
    after.aliasRoot? (.slot frame name) = before.aliasRoot? (.slot frame name) := by
  unfold aliasRoot?
  dsimp only
  exact Binding.kinds_induction _ _ same (fun _ => rfl) (fun _ _ _ => rfl) (fun _ _ _ => rfl)
    fun _ _ _ => rfl

/-! Contexts that look alike. -/

/-- The same flags and the same limit, with as many steps left. -/
structure SameSettings (first second : Context) : Prop where
  escapeOutput : first.escapeOutput = second.escapeOutput
  stepLimit : first.stepLimit = second.stepLimit
  /-- Where there is no limit, nobody asks for the steps. -/
  steps : first.stepLimit.isSome = true → first.steps = second.steps

structure Level (known : String → Prop) (first second : Context) : Prop where
  layers : first.layers = second.layers
  kinds : ∀ {frame name}, Visible known (.slot frame name) →
    (first.binding? frame name).map Binding.kind = (second.binding? frame name).map Binding.kind
  values : ∀ {frame name}, Visible known (.slot frame name) →
    first.rootValue? (.slot frame name) = second.rootValue? (.slot frame name)
  /-- Aliases lead to roots that may be seen. -/
  inside : ∀ {root target}, Visible known root → first.aliasRoot? root = some target → Visible known target
  familiar : ∀ layer ∈ first.layers, ∀ {name mixin}, layer.mixins.lookup name = some mixin →
    mixin.Familiar known
  settings : first.SameSettings second

namespace Level

variable {known : String → Prop} {first second after twin : Context}

theorem depth (level : Level known first second) : first.depth = second.depth := by
  rw [← length_layers, level.layers, length_layers]

theorem current (level : Level known first second) : first.current = second.current :=
  congrArg (· - 1) level.depth

/-- Both go on to stand for the same, but for names that go away in both. -/
theorem of_fewer (level : Level known first second) (layers : after.layers = twin.layers)
    (familiar : ∀ layer ∈ after.layers, ∀ {name mixin}, layer.mixins.lookup name = some mixin →
      mixin.Familiar known)
    (settings : after.SameSettings twin) (hosted : after.hosted = first.hosted)
    (hostedTwin : twin.hosted = second.hosted)
    (names : ∀ frame name, after.binding? frame name = first.binding? frame name ∧
      twin.binding? frame name = second.binding? frame name ∨
      after.binding? frame name = none ∧ twin.binding? frame name = none) :
    Level known after twin := by
  refine ⟨layers, ?_, ?_, ?_, familiar, settings⟩
  · intro frame name visible
    rcases names frame name with ⟨one, other⟩ | ⟨one, other⟩
    · rw [one, other, level.kinds visible]
    · rw [one, other]
  · intro frame name visible
    rcases names frame name with ⟨one, other⟩ | ⟨one, other⟩
    · rw [rootValue?_slot_congr one hosted, rootValue?_slot_congr other hostedTwin, level.values visible]
    · rw [rootValue?_of_unbound one, rootValue?_of_unbound other]
  · intro root target visible leads
    cases root with
    | temp frame index => cases leads
    | slot frame name =>
      rcases names frame name with ⟨one, -⟩ | ⟨one, -⟩
      · rw [aliasRoot?_congr one] at leads
        exact level.inside visible leads
      · rw [aliasRoot?_of_own (by rw [one]; nofun)] at leads
        cases leads

/-- A change of scopes in both that leaves the names as they are. -/
theorem modifyFrame (level : Level known first second) (index : Nat) {change : Frame → Frame}
    (same : ∀ scope, (change scope).bindings = scope.bindings)
    (alike : ∀ {frame other : Frame}, frame.layer = other.layer → (change frame).layer = (change other).layer)
    (familiar : ∀ frame : Frame, frame.layer ∈ first.layers → ∀ {name mixin},
      (change frame).mixins.lookup name = some mixin → mixin.Familiar known) :
    Level known (first.modifyFrame index change) (second.modifyFrame index change) := by
  have kept := level.settings
  refine level.of_fewer (layers_modifyFrame level.layers index alike) ?_
    ⟨kept.escapeOutput, kept.stepLimit, kept.steps⟩ rfl rfl ?_
  · intro layer member
    rcases mem_layers_modifyFrame member with earlier | ⟨frame, earlier, rfl⟩
    · exact level.familiar layer earlier
    · exact familiar frame earlier
  · exact fun frame name => .inl ⟨binding?_modifyFrame same frame name, binding?_modifyFrame same frame name⟩

theorem store (level : Level known first second) (frame : Nat) (name : String) {binding : Binding}
    (own : ∀ index owner, binding ≠ .value (.hosted index) owner)
    (inside : ∀ place mutable, binding = .alias place mutable → Visible known place.root) :
    Level known (first.store frame name binding) (second.store frame name binding) := by
  have kept := level.settings
  by_cases isOpen : frame < first.depth
  · have isOpenTwin : frame < second.depth := level.depth ▸ isOpen
    have stored := binding?_store_self isOpen name binding
    have storedTwin := binding?_store_self isOpenTwin name binding
    have layers : (first.store frame name binding).layers = (second.store frame name binding).layers := by
      rw [layers_store, layers_store, level.layers]
    refine ⟨layers, ?_, ?_, ?_, ?_, ⟨kept.escapeOutput, kept.stepLimit, kept.steps⟩⟩
    · intro other word visible
      by_cases here : other = frame ∧ word = name
      · rw [here.1, here.2, stored, storedTwin]
      · rw [binding?_store_of_ne here, binding?_store_of_ne here, level.kinds visible]
    · intro other word visible
      by_cases here : other = frame ∧ word = name
      · rw [here.1, here.2]
        cases binding with
        | value source owner =>
          rw [rootValue?_slot stored, rootValue?_slot storedTwin]
          cases source with
          | hosted index => exact absurd rfl (own index owner)
          | _ => rfl
        | _ => rw [rootValue?_of_other (by rw [stored]; nofun), rootValue?_of_other (by rw [storedTwin]; nofun)]
      · have different : Root.slot other word ≠ .slot frame name := by
          intro same
          cases same
          exact here ⟨rfl, rfl⟩
        rw [rootValue?_store_of_ne different, rootValue?_store_of_ne different, level.values visible]
    · intro root target visible leads
      by_cases here : root = .slot frame name
      · rw [here] at leads
        cases binding with
        | «alias» place mutable =>
          rw [aliasRoot?_of_binding stored] at leads
          cases leads
          exact inside place mutable rfl
        | _ =>
          rw [aliasRoot?_of_own (by rw [stored]; nofun)] at leads
          cases leads
      · rw [aliasRoot?_store_of_ne first here] at leads
        exact level.inside visible leads
    · rw [layers_store]
      exact level.familiar
  · have outside := Nat.le_of_not_lt isOpen
    rw [store_outside outside, store_outside (level.depth ▸ outside)]
    exact level

theorem setRoot (level : Level known first second) (apart : first.Apart) (apartTwin : second.Apart)
    {root : Root} {old : Value} (held : first.rootValue? root = some old)
    (heldTwin : second.rootValue? root = some old) (writable : first.isRootWritable root = true)
    (writableTwin : second.isRootWritable root = true) (value : Value) :
    Level known (first.setRoot root value) (second.setRoot root value) := by
  have settings : (first.setRoot root value).SameSettings (second.setRoot root value) := by
    have kept := level.settings
    obtain ⟨frames, hosted, one⟩ := Rules.setRoot_elsewhere first root value
    obtain ⟨framesTwin, hostedTwin, other⟩ := Rules.setRoot_elsewhere second root value
    rw [one, other]
    exact ⟨kept.escapeOutput, kept.stepLimit, kept.steps⟩
  refine ⟨layers_setRoot level.layers root value, ?_, ?_, ?_, ?_, settings⟩
  · intro frame name visible
    rw [kind?_setRoot, kind?_setRoot, level.kinds visible]
  · intro frame name visible
    by_cases here : root = .slot frame name
    · rw [← here, rootValue?_setRoot held writable, rootValue?_setRoot heldTwin writableTwin]
    · rw [rootValue?_setRoot_of_ne apart here, rootValue?_setRoot_of_ne apartTwin here, level.values visible]
  · intro origin target visible leads
    cases origin with
    | temp frame index => cases leads
    | slot frame name =>
      rw [aliasRoot?_of_kind (kind?_setRoot ..)] at leads
      exact level.inside visible leads
  · intro layer member name mixin found
    obtain ⟨earlier, known, same⟩ := mixins_setRoot member
    exact level.familiar earlier known (same ▸ found)

theorem pushTemp (level : Level known first second) (value : Value) :
    (first.pushTemp value).1 = (second.pushTemp value).1 ∧
      Level known (first.pushTemp value).2 (second.pushTemp value).2 := by
  have count (context : Context) : (context.layers[first.current]?).map (·.temps.length) =
      (context.frames[first.current]?).map (·.temps.length) := by
    rw [Context.layers, List.getElem?_map, Option.map_map]
    rfl
  unfold Context.pushTemp
  dsimp only
  rw [← level.current, ← count first, level.layers, count second]
  refine ⟨rfl, level.modifyFrame first.current (fun _ => rfl) ?_ ?_⟩
  · intro frame other alike
    exact congrArg (fun layer : Layer => { layer with temps := layer.temps ++ [value] }) alike
  · exact fun frame member => level.familiar frame.layer member

theorem pushScope (level : Level known first second) : Level known first.pushScope second.pushScope := by
  have kept := level.settings
  have layers (context : Context) : context.pushScope.layers = context.layers ++ [Frame.empty.layer] :=
    List.map_append
  refine level.of_fewer ?_ ?_ ⟨kept.escapeOutput, kept.stepLimit, kept.steps⟩ rfl rfl ?_
  · rw [layers, layers, level.layers]
  · intro layer member name mixin found
    rw [layers] at member
    rcases List.mem_append.mp member with earlier | new
    · exact level.familiar layer earlier found
    · rw [List.mem_singleton.mp new] at found
      cases found
  · exact fun frame name => .inl ⟨binding?_pushScope .., binding?_pushScope ..⟩

theorem popScope (level : Level known first second) : Level known first.popScope second.popScope := by
  by_cases inner : 1 < first.depth
  · have innerTwin : 1 < second.depth := level.depth ▸ inner
    have kept := level.settings
    have layers {context : Context} (inner : 1 < context.depth) :
        context.popScope.layers = context.layers.dropLast := by
      rw [Context.layers, frames_popScope inner, List.map_dropLast, Context.layers]
    have popped {context : Context} (inner : 1 < context.depth) :
        context.popScope = { context with frames := context.frames.dropLast } := by
      rw [Context.popScope, if_pos inner]
    refine level.of_fewer ?_ ?_ ?_ (by rw [popped inner]) (by rw [popped innerTwin]) ?_
    · rw [layers inner, layers innerTwin, level.layers]
    · intro layer member
      rw [layers inner] at member
      exact level.familiar layer (List.dropLast_subset _ member)
    · rw [popped inner, popped innerTwin]
      exact ⟨kept.escapeOutput, kept.stepLimit, kept.steps⟩
    · intro frame name
      rw [binding?_popScope inner, binding?_popScope innerTwin, level.depth]
      split
      · exact .inl ⟨rfl, rfl⟩
      · exact .inr ⟨rfl, rfl⟩
  · rw [Context.popScope, Context.popScope, if_neg inner, if_neg (level.depth ▸ inner)]
    exact level

end Level

end Context

end HtmlTemplate
