import HtmlTemplate.Proofs.Hidden.Evaluation
import HtmlTemplate.Render.Basic

/-! What the parts of a run do to contexts that look alike: they give the same and leave them alike. -/

namespace HtmlTemplate

namespace Mixin

/-- A parameter comes from an item that has its name and the names of its default. -/
theorem parameter?_names {item : Expr} {parameter : String × Option Expr}
    (found : parameter? item = some parameter) :
    parameter.1 ∈ item.names ∧ ∀ default, parameter.2 = some default → default.names ⊆ item.names := by
  unfold parameter? at found
  split at found
  · rename_i name named
    cases found
    exact ⟨Expr.mem_names_of_name? named, nofun⟩
  · rename_i target default unnamed assigned
    obtain ⟨name, named, rfl⟩ := Option.map_eq_some_iff.mp found
    obtain ⟨left, right⟩ := Expr.names_assignment? assigned
    refine ⟨left (Expr.mem_names_of_name? named), ?_⟩
    intro other same
    cases same
    exact right
  · cases found

theorem mem_of_addParameters {items : List Expr} {read parameters : List (String × Option Expr)}
    (found : addParameters read items = .ok parameters) {parameter : String × Option Expr}
    (member : parameter ∈ parameters) : parameter ∈ read ∨ ∃ item ∈ items, parameter? item = some parameter := by
  induction items generalizing read with
  | nil =>
    cases found
    exact .inl member
  | cons item rest step =>
    unfold addParameters at found
    split at found
    · cases found
    · rename_i added first
      split at found
      · cases found
      · rcases step found with earlier | ⟨other, among, later⟩
        · rcases List.mem_append.mp earlier with earlier | here
          · exact .inl earlier
          · rw [List.mem_singleton.mp here]
            exact .inr ⟨item, List.mem_cons_self .., first⟩
        · exact .inr ⟨other, List.mem_cons_of_mem _ among, later⟩

theorem parameters?_names {signature : Expr} {parameters : List (String × Option Expr)}
    (found : parameters? signature = .ok parameters) {parameter : String × Option Expr}
    (member : parameter ∈ parameters) :
    parameter.1 ∈ signature.names ∧
      ∀ default, parameter.2 = some default → default.names ⊆ signature.names := by
  unfold parameters? at found
  split at found
  · cases found
    cases member
  · rename_i callee arguments unnamed called
    have inside := Expr.names_call? called
    rcases mem_of_addParameters found member with none | ⟨item, among, made⟩
    · cases none
    · have itemInside := Expr.names_items item among
      obtain ⟨named, defaulted⟩ := parameter?_names made
      exact ⟨inside (itemInside named), fun default is _ name => inside (itemInside (defaulted default is name))⟩
  · cases found

theorem familiar_of_definition {known : String → Prop} {name : String} {signature : Expr} {body : List Chunk}
    {mixin : Mixin} (made : ofDefinition name signature body = .ok mixin) (sees : Rules.Sees known signature)
    (covers : Rules.Covers known False body) : mixin.Familiar known := by
  unfold ofDefinition at made
  split at made
  · rename_i parameters found
    cases made
    refine ⟨fun parameter member => ?_, covers⟩
    obtain ⟨named, defaulted⟩ := parameters?_names found member
    exact ⟨sees _ named, fun default is => sees.of_names (defaulted default is)⟩
  · cases made

end Mixin

/-- A loop that goes over nothing but what may be seen. -/
def LoopSource.Seen (known : String → Prop) : LoopSource → Prop
  | .array place _ _ | .dict place _ _ => Context.Visible known place.root
  | _ => True

namespace Context

open Rules

variable {known : String → Prop} {start origin first second : Context}

/-- An action gives the same in contexts that look alike, and leaves them alike. -/
def Mirrored {α : Type} (known : String → Prop) (start origin : Context) (action : Context → α × Context) : Prop :=
  ∀ {first second}, Tied known start origin first second →
    (action first).1 = (action second).1 ∧ Tied known start origin (action first).2 (action second).2

/-! Settings. -/

namespace Tied

theorem of_settings (tied : Tied known start origin first second) {after twin : Context}
    (frames : after.frames = first.frames) (hosted : after.hosted = first.hosted)
    (framesTwin : twin.frames = second.frames) (hostedTwin : twin.hosted = second.hosted)
    (settings : after.SameSettings twin)
    (reports : start.reports.SameSince origin.reports after.reports twin.reports) :
    Tied known start origin after twin := by
  have names (frame : Nat) (name : String) : after.binding? frame name = first.binding? frame name := by
    rw [binding?_eq, frames, binding?_eq]
  have namesTwin (frame : Nat) (name : String) : twin.binding? frame name = second.binding? frame name := by
    rw [binding?_eq, framesTwin, binding?_eq]
  have layers : after.layers = first.layers := congrArg (List.map Frame.layer) frames
  have layersTwin : twin.layers = second.layers := congrArg (List.map Frame.layer) framesTwin
  refine ⟨tied.fenced.of_same (tied.fenced.sound.of_frames frames).1 hosted names,
    tied.fencedTwin.of_same (tied.fencedTwin.sound.of_frames framesTwin).1 hostedTwin namesTwin, ?_, reports⟩
  apply tied.level.of_fewer _ _ settings hosted hostedTwin
  · exact fun frame name => .inl ⟨names frame name, namesTwin frame name⟩
  · rw [layers, layersTwin, tied.level.layers]
  · rw [layers]
    exact tied.level.familiar

/-- A change of the reports. -/
theorem reported (tied : Tied known start origin first second) {reports reportsTwin : Reports}
    (same : start.reports.SameSince origin.reports reports reportsTwin) :
    Tied known start origin { first with reports } { second with reports := reportsTwin } :=
  have kept := tied.level.settings
  tied.of_settings rfl rfl rfl rfl ⟨kept.escapeOutput, kept.stepLimit, kept.steps⟩ same

theorem reportFault (tied : Tied known start origin first second) (fault : EvalFault) :
    Tied known start origin (first.reportFault fault) (second.reportFault fault) :=
  tied.reported (tied.reports.add fault)

theorem forgetLast (tied : Tied known start origin first second) :
    Tied known start origin first.forgetLast second.forgetLast :=
  tied.reported tied.reports.forget

theorem pushScope (tied : Tied known start origin first second) :
    Tied known start origin first.pushScope second.pushScope :=
  ⟨tied.fenced.pushScope, tied.fencedTwin.pushScope, tied.level.pushScope, tied.reports⟩

theorem popScope (tied : Tied known start origin first second) :
    Tied known start origin first.popScope second.popScope := by
  refine ⟨tied.fenced.popScope, tied.fencedTwin.popScope, tied.level.popScope, ?_⟩
  rw [reports_popScope, reports_popScope]
  exact tied.reports

end Tied

theorem takePending_mirrored : Mirrored known start origin takePending := by
  intro first second tied
  exact ⟨tied.reports.pending, tied.reported tied.reports.drain⟩

theorem step_mirrored : Mirrored known start origin step := by
  intro first second tied
  have kept := tied.level.settings
  have counted : Tied known start origin { first with steps := first.steps + 1 }
      { second with steps := second.steps + 1 } :=
    tied.of_settings rfl rfl rfl rfl
      ⟨kept.escapeOutput, kept.stepLimit, fun limited => congrArg (· + 1) (kept.steps limited)⟩ tied.reports
  cases limited : first.stepLimit with
  | none =>
    have other : second.stepLimit = none := kept.stepLimit ▸ limited
    unfold step
    rw [limited, other] at counted ⊢
    exact ⟨rfl, counted⟩
  | some limit =>
    have other : second.stepLimit = some limit := kept.stepLimit ▸ limited
    have steps := kept.steps (by rw [limited, Option.isSome_some])
    unfold step
    rw [limited, other, ← steps] at counted ⊢
    dsimp only
    split
    · split
      · exact ⟨rfl, counted.reportFault .stepLimit⟩
      · exact ⟨rfl, counted⟩
    · exact ⟨rfl, counted⟩

/-! Evaluation. -/

theorem evaluate_mirrored (mode : EvalMode) {expr : Expr} (sees : Sees known expr)
    (tied : Tied known start origin first second) :
    Same (Handle.Seen known) (first.evaluate mode expr).1 (second.evaluate mode expr).1 ∧
      Tied known start origin (first.evaluate mode expr).2 (second.evaluate mode expr).2 := by
  have alike := eval_alike tied_likeness mode expr sees first second tied
  unfold evaluate
  generalize Eval.eval mode expr first = ended at alike
  generalize Eval.eval mode expr second = twin at alike
  cases alike with
  | ok corresponds related => exact ⟨corresponds, related⟩
  | error related => exact ⟨⟨rfl, trivial⟩, related.reportFault _⟩

theorem execArguments_mirrored {arguments : Expr} (sees : Sees known arguments) :
    Mirrored known start origin (execArguments arguments) := by
  intro first second tied
  have alike := evalItems_alike tied_likeness .strict arguments.items sees.items first second tied
  unfold execArguments
  generalize Eval.evalItems .strict arguments.items first = ended at alike
  generalize Eval.evalItems .strict arguments.items second = twin at alike
  cases alike with
  | ok corresponds related => exact ⟨congrArg some corresponds, related⟩
  | error related => exact ⟨rfl, related.reportFault _⟩

theorem execValue?_mirrored {expr : Expr} (sees : Sees known expr) :
    Mirrored known start origin (execValue? expr) := by
  intro first second tied
  obtain ⟨⟨same, seen⟩, after⟩ := evaluate_mirrored .strict sees tied
  refine ⟨?_, after⟩
  change (first.evaluate .strict expr).2.read? (first.evaluate .strict expr).1 =
    (second.evaluate .strict expr).2.read? (second.evaluate .strict expr).1
  rw [← same, after.read? seen]

theorem execValue_mirrored {expr : Expr} (sees : Sees known expr) :
    Mirrored known start origin (execValue expr) := by
  intro first second tied
  obtain ⟨same, after⟩ := execValue?_mirrored sees tied
  exact ⟨congrArg (fun value : Option Value => value.getD .null) same, after⟩

theorem holds_mirrored {guard : Expr} (sees : Sees known guard) :
    Mirrored known start origin (holds guard) := by
  intro first second tied
  obtain ⟨⟨same, seen⟩, after⟩ := evaluate_mirrored .guard sees tied
  refine ⟨?_, after⟩
  change (first.evaluate .guard guard).2.truthy (first.evaluate .guard guard).1 =
    (second.evaluate .guard guard).2.truthy (second.evaluate .guard guard).1
  rw [← same, truthy, truthy, after.valueOf seen]

/-! Loops. -/

theorem loopAt_seen (context : Context) {place : Place} (visible : Visible known place.root) (mutable : Bool) :
    (context.loopAt place mutable).Seen known := by
  unfold loopAt
  split
  · split
    · trivial
    · exact visible
  · split
    · trivial
    · exact visible
  · trivial
  · trivial
  · trivial

theorem Tied.loopAt (tied : Tied known start origin first second) {place : Place}
    (visible : Visible known place.root) (mutable : Bool) :
    first.loopAt place mutable = second.loopAt place mutable := by
  unfold Context.loopAt
  rw [tied.resolve? visible]

theorem Tied.pushTemp (tied : Tied known start origin first second) (value : Value) :
    (first.pushTemp value).1 = (second.pushTemp value).1 ∧
      Tied known start origin (first.pushTemp value).2 (second.pushTemp value).2 := by
  obtain ⟨same, level⟩ := tied.level.pushTemp value
  have names (context : Context) (frame : Nat) (name : String) :
      (context.pushTemp value).2.binding? frame name = context.binding? frame name :=
    binding?_modifyFrame (by exact fun _ => rfl) frame name
  exact ⟨same, tied.fenced.of_same (tied.fenced.sound.pushTemp value).1 rfl (names first),
    tied.fencedTwin.of_same (tied.fencedTwin.sound.pushTemp value).1 rfl (names second), level, tied.reports⟩

theorem loopSource_mirrored (tied : Tied known start origin first second) {handle : Handle}
    (seen : handle.Seen known) :
    (first.loopSource handle).1 = (second.loopSource handle).1 ∧ (first.loopSource handle).1.Seen known ∧
      Tied known start origin (first.loopSource handle).2 (second.loopSource handle).2 := by
  unfold loopSource
  split
  · exact ⟨rfl, trivial, tied⟩
  · split
    · rename_i value _ _
      obtain ⟨same, after⟩ := tied.pushTemp value
      have visible : Visible known (first.pushTemp value).1.root := trivial
      refine ⟨?_, loopAt_seen _ visible true, after⟩
      change (first.pushTemp value).2.loopAt (first.pushTemp value).1 true =
        (second.pushTemp value).2.loopAt (second.pushTemp value).1 true
      rw [← same, after.loopAt visible]
    · exact ⟨rfl, trivial, tied⟩
  · split
    · rename_i place leads
      have visible := seen.place? leads
      have stop := tied.canonical_visible visible
      refine ⟨?_, loopAt_seen first stop _, tied⟩
      change first.loopAt (first.canonical place) (first.isMutable place) =
        second.loopAt (second.canonical place) (second.isMutable place)
      rw [← tied.canonical visible, ← tied.isMutable visible, tied.loopAt stop]
    · exact ⟨rfl, trivial, tied⟩

/-! Names that are bound in a scope further in. -/

theorem visible_inner {frame : Nat} (inner : 0 < frame) (name : String) : Visible known (.slot frame name) := by
  cases frame with
  | zero => exact absurd inner (Nat.lt_irrefl 0)
  | succ frame => trivial

theorem Tied.set (tied : Tied known start origin first second) {name : String}
    (visible : Visible known (.slot first.current name)) (value : Value) :
    Tied known start origin (first.set name value) (second.set name value) := by
  unfold Context.set Context.bind
  rw [← tied.level.current]
  exact tied.storeOwn visible nofun nofun

theorem Tied.bindAlias (tied : Tied known start origin first second) {place : Place}
    (visible : Visible known place.root) (isOpen : first.IsOpen place.root) (isOpenTwin : second.IsOpen place.root)
    (outer : place.root.frame < first.current) (name : String) (mutable : Bool) :
    Tied known start origin (first.bindAlias name place mutable) (second.bindAlias name place mutable) := by
  have sound := (tied.fenced.sound.bindAlias isOpen outer name mutable).1
  have soundTwin := (tied.fencedTwin.sound.bindAlias isOpenTwin (tied.level.current ▸ outer) name mutable).1
  unfold Context.bindAlias Context.bind at sound soundTwin ⊢
  rw [← tied.level.current, ← tied.canonical visible] at soundTwin ⊢
  refine tied.store (visible_inner (Nat.lt_of_le_of_lt (Nat.zero_le _) outer) name) sound soundTwin nofun ?_
  intro target writable same
  cases same
  exact tied.canonical_visible visible

/-! Mixins. -/

theorem mixin?_eq (context : Context) (name : String) :
    context.mixin? name = context.layers.reverse.findSome? fun layer => layer.mixins.lookup name := by
  rw [layers, ← List.map_reverse, List.findSome?_map]
  rfl

theorem Level.mixin? (level : Level known first second) (name : String) :
    first.mixin? name = second.mixin? name ∧ ∀ mixin, first.mixin? name = some mixin → mixin.Familiar known := by
  rw [mixin?_eq, mixin?_eq, level.layers]
  refine ⟨rfl, fun mixin found => ?_⟩
  obtain ⟨layer, member, has⟩ := List.exists_of_findSome?_eq_some found
  rw [← level.layers] at member
  exact level.familiar layer (List.mem_reverse.mp member) has

theorem bindParameters_mirrored (mixin : String) {parameters : List (String × Option Expr)}
    (familiar : ∀ parameter ∈ parameters,
      known parameter.1 ∧ ∀ default, parameter.2 = some default → Sees known default) (arguments : List Value) :
    Mirrored known start origin (Mixin.bindParameters mixin parameters arguments) := by
  induction parameters generalizing arguments with
  | nil =>
    intro first second tied
    exact ⟨rfl, tied⟩
  | cons parameter rest step =>
    obtain ⟨name, default⟩ := parameter
    obtain ⟨named, sees⟩ := familiar _ (List.mem_cons_self ..)
    have further := step fun parameter member => familiar parameter (List.mem_cons_of_mem _ member)
    intro first second tied
    cases arguments with
    | cons argument arguments => exact further arguments (tied.set (visible_slot named _) argument)
    | nil =>
      cases default with
      | none => exact ⟨rfl, tied.reportFault _⟩
      | some default =>
        obtain ⟨same, after⟩ := execValue_mirrored (sees default rfl) tied
        have bound := after.set (visible_slot named _) (first.execValue default).1
        have ended := further [] bound
        rw [same] at ended
        unfold Mixin.bindParameters
        dsimp only
        rw [same]
        exact ended

theorem enter_mirrored {mixin : Mixin} (familiar : mixin.Familiar known) (arguments : List Value) :
    Mirrored known start origin (mixin.enter arguments) := by
  intro first second tied
  obtain ⟨same, after⟩ := bindParameters_mirrored mixin.name familiar.parameters arguments tied.pushScope
  unfold Mixin.enter
  generalize Mixin.bindParameters mixin.name mixin.parameters arguments first.pushScope = ended at same after
  generalize Mixin.bindParameters mixin.name mixin.parameters arguments second.pushScope = twin at same after
  obtain ⟨complete, context⟩ := ended
  obtain ⟨completeTwin, other⟩ := twin
  cases same
  cases complete with
  | true => exact ⟨rfl, after⟩
  | false => exact ⟨rfl, after.popScope⟩

/-- A mixin is defined in both, unless both have one of its name. -/
theorem Tied.defineMixin (tied : Tied known start origin first second) {mixin : Mixin}
    (familiar : mixin.Familiar known) :
    (∃ fault, first.defineMixin mixin = .error fault ∧ second.defineMixin mixin = .error fault) ∨
      ∃ defined twin, first.defineMixin mixin = .ok defined ∧ second.defineMixin mixin = .ok twin ∧
        Tied known start origin defined twin := by
  have has (context : Context) (index : Nat) :
      ((context.frames[index]?).any fun frame => frame.mixins.contains mixin.name) =
        (context.layers[index]?).any fun layer => layer.mixins.contains mixin.name := by
    rw [layers, List.getElem?_map, Option.any_map]
    rfl
  have names (context : Context) (frame : Nat) (name : String) :
      (context.modifyFrame first.current fun frame =>
        { frame with mixins := frame.mixins.insert mixin.name mixin }).binding? frame name =
      context.binding? frame name :=
    binding?_modifyFrame (by exact fun _ => rfl) frame name
  have sound {context : Context} (sound : context.Sound) :=
    (sound.modifyFrame first.current (fun frame => { frame with mixins := frame.mixins.insert mixin.name mixin })
      (fun _ => rfl) fun _ => Nat.le_refl _).1
  unfold Context.defineMixin
  rw [has, has, ← tied.level.current, ← tied.level.layers]
  cases (first.layers[first.current]?).any fun layer => layer.mixins.contains mixin.name with
  | true => exact .inl ⟨_, rfl, rfl⟩
  | false =>
    refine .inr ⟨_, _, rfl, rfl, tied.fenced.of_same (sound tied.fenced.sound) rfl (names first),
      tied.fencedTwin.of_same (sound tied.fencedTwin.sound) rfl (names second), ?_, tied.reports⟩
    apply tied.level.modifyFrame first.current
    · exact fun _ => rfl
    · intro frame other alike
      exact congrArg (fun layer : Layer => { layer with mixins := layer.mixins.insert mixin.name mixin }) alike
    · intro frame member name other found
      by_cases here : name = mixin.name
      · rw [here, Entries.lookup_insert_self] at found
        cases found
        exact familiar
      · rw [Entries.lookup_insert_of_ne here] at found
        exact tied.level.familiar frame.layer member found

theorem define_mirrored (name : String) {signature : Expr} {body : List Chunk} (sees : Sees known signature)
    (covers : Covers known False body) (tied : Tied known start origin first second) :
    Tied known start origin (Render.define name signature body first) (Render.define name signature body second) := by
  unfold Render.define
  cases made : Mixin.ofDefinition name signature body with
  | error fault => exact tied.reportFault fault
  | ok mixin =>
    dsimp only [Bind.bind, Except.bind]
    rcases tied.defineMixin (Mixin.familiar_of_definition made sees covers) with
      ⟨fault, one, other⟩ | ⟨defined, twin, one, other, after⟩
    · rw [one, other]
      exact tied.reportFault fault
    · rw [one, other]
      exact after

end Context

end HtmlTemplate
