import HtmlTemplate.Proofs.Rules.Unseen

/-! Contexts whose mixins have other bodies. What does not look at mixins goes alike, and calls and
definitions of mixins go alike up to the bodies. -/

namespace HtmlTemplate

namespace Entries

variable {α β : Type}

theorem lookup_map (change : α → β) (name : String) (entries : Entries α) :
    lookup name (entries.map fun entry => (entry.1, change entry.2)) = (lookup name entries).map change := by
  induction entries with
  | nil => rfl
  | cons entry rest step =>
    obtain ⟨first, value⟩ := entry
    simp only [List.map_cons, lookup, step]
    split <;> rfl

theorem insert_map (change : α → β) (name : String) (value : α) (entries : Entries α) :
    insert name (change value) (entries.map fun entry => (entry.1, change entry.2)) =
      (insert name value entries).map fun entry => (entry.1, change entry.2) := by
  induction entries with
  | nil => rfl
  | cons entry rest step =>
    obtain ⟨first, old⟩ := entry
    simp only [List.map_cons, insert]
    split
    · rfl
    · split
      · rfl
      · simp only [List.map_cons, step]

end Entries

/-- A mixin with another body. -/
def Mixin.mapBody (change : List Chunk → List Chunk) (mixin : Mixin) : Mixin :=
  { mixin with body := change mixin.body }

/-- A scope whose mixins have other bodies. -/
def Frame.mapBodies (change : List Chunk → List Chunk) (frame : Frame) : Frame :=
  { frame with mixins := frame.mixins.map fun entry => (entry.1, entry.2.mapBody change) }

/-- Whether a mixin can be made does not depend on its body. -/
theorem Mixin.ofDefinition_map (change : List Chunk → List Chunk) (name : String) (signature : Expr)
    (body : List Chunk) :
    Mixin.ofDefinition name signature (change body) =
      (Mixin.ofDefinition name signature body).map (Mixin.mapBody change) := by
  unfold Mixin.ofDefinition
  split <;> rfl

namespace Context

variable {α : Type} (change : List Chunk → List Chunk)

def mapBodies (context : Context) : Context :=
  { context with frames := context.frames.map (Frame.mapBodies change) }

theorem depth_mapBodies (context : Context) : (context.mapBodies change).depth = context.depth :=
  List.length_map ..

theorem current_mapBodies (context : Context) : (context.mapBodies change).current = context.current := by
  simp only [current, depth_mapBodies]

theorem mapBodies_mapBodies (further : List Chunk → List Chunk) (context : Context) :
    (context.mapBodies change).mapBodies further = context.mapBodies (further ∘ change) := by
  unfold mapBodies
  simp only [List.map_map]
  congr 1
  apply List.map_congr_left
  intro frame _
  simp only [Function.comp_apply, Frame.mapBodies, List.map_map]
  rfl

theorem withMixins_mapBodies (context : Context) (mixins : Nat → Entries Mixin) :
    (context.withMixins mixins).mapBodies change =
      context.withMixins fun frame => (mixins frame).map fun entry => (entry.1, entry.2.mapBody change) := by
  have frames : (context.frames.mapIdx fun index frame => { frame with mixins := mixins index }).map
      (Frame.mapBodies change) = context.frames.mapIdx fun index frame =>
        { frame with mixins := (mixins index).map fun entry => (entry.1, entry.2.mapBody change) } := by
    apply List.ext_getElem?
    intro index
    simp only [List.getElem?_map, List.getElem?_mapIdx, Option.map_map]
    rfl
  unfold mapBodies withMixins
  rw [frames]

/-- Other bodies are other mixins. -/
theorem mapBodies_eq (context : Context) :
    context.mapBodies change =
      context.withMixins fun frame =>
        (context.mixinsAt frame).map fun entry => (entry.1, entry.2.mapBody change) := by
  have mapped := withMixins_mapBodies change context context.mixinsAt
  rwa [withMixins_mixinsAt] at mapped

theorem pushScope_mapBodies (context : Context) :
    (context.mapBodies change).pushScope = context.pushScope.mapBodies change := by
  unfold pushScope mapBodies
  simp only [List.map_append, List.map_singleton]
  rfl

theorem popScope_mapBodies (context : Context) :
    (context.mapBodies change).popScope = context.popScope.mapBodies change := by
  unfold popScope
  rw [depth_mapBodies]
  split
  · unfold mapBodies
    simp only [List.map_dropLast]
  · rfl

theorem mixin?_mapBodies (context : Context) (name : String) :
    (context.mapBodies change).mixin? name = (context.mixin? name).map (Mixin.mapBody change) := by
  unfold mixin? mapBodies
  simp only [← List.map_reverse, List.findSome?_map, List.map_findSome?]
  congr 1
  funext frame
  exact Entries.lookup_map (Mixin.mapBody change) name frame.mixins

theorem defineMixin_mapBodies (context : Context) (mixin : Mixin) :
    (context.mapBodies change).defineMixin (mixin.mapBody change) =
      (context.defineMixin mixin).map (mapBodies change) := by
  have known : ((context.mapBodies change).frames[context.current]?).any
      (fun frame => frame.mixins.contains mixin.name) =
        (context.frames[context.current]?).any fun frame => frame.mixins.contains mixin.name := by
    unfold mapBodies
    simp only [List.getElem?_map, Option.any_map]
    congr 1
    funext frame
    simp only [Frame.mapBodies, Entries.contains, Entries.lookup_map, Option.isSome_map]
  have defined : (context.mapBodies change).modifyFrame context.current (fun frame =>
      { frame with mixins := frame.mixins.insert mixin.name (mixin.mapBody change) }) =
        (context.modifyFrame context.current fun frame =>
          { frame with mixins := frame.mixins.insert mixin.name mixin }).mapBodies change := by
    unfold mapBodies modifyFrame
    congr 1
    apply List.ext_getElem?
    intro index
    simp only [List.getElem?_modify, List.getElem?_map]
    cases context.frames[index]? with
    | none => rfl
    | some frame =>
      simp only [Option.map_some, Functor.map]
      split
      · simp only [Frame.mapBodies, Entries.insert_map]
      · rfl
  unfold defineMixin
  rw [current_mapBodies, show (mixin.mapBody change).name = mixin.name from rfl, known]
  split
  · rfl
  · exact congrArg Except.ok defined

theorem define_mapBodies (name : String) (signature : Expr) (body : List Chunk) (context : Context) :
    Render.define name signature (change body) (context.mapBodies change) =
      (Render.define name signature body context).mapBodies change := by
  unfold Render.define
  rw [Mixin.ofDefinition_map]
  cases Mixin.ofDefinition name signature body with
  | error fault => rfl
  | ok mixin =>
    have goesOn (context : Context) (mixin : Mixin) :
        (Except.ok mixin >>= context.defineMixin) = context.defineMixin mixin := rfl
    dsimp only [Except.map]
    rw [goesOn, goesOn, defineMixin_mapBodies]
    cases context.defineMixin mixin with
    | error fault => rfl
    | ok defined => rfl

end Context

namespace Rules

variable {α : Type} {change : List Chunk → List Chunk}

/-- What does not look at mixins does not look at their bodies. -/
theorem Blind.ignores {action : Context → α × Context} (blind : Blind action) :
    Ignores (Context.mapBodies change) action := by
  intro context
  have same : action (context.withMixins context.mixinsAt) = _ := blind context.mixinsAt context
  rw [Context.withMixins_mixinsAt] at same
  have kept : (action context).2 = (action context).2.withMixins context.mixinsAt := congrArg Prod.snd same
  rw [Context.mapBodies_eq, blind _ context]
  have mapped := Context.withMixins_mapBodies change (action context).2 context.mixinsAt
  rw [← kept] at mapped
  exact Prod.ext rfl mapped.symm

theorem BlindChange.commutes {action : Context → Context} (blind : BlindChange action) :
    Commutes (Context.mapBodies change) action := by
  have ignores : Ignores (Context.mapBodies change) fun context => ((), action context) :=
    Blind.ignores fun mixins context => Prod.ext rfl (blind mixins context)
  exact fun context => congrArg Prod.snd (ignores context)

/-- The scope of a call is opened alike, or the call is refused alike. -/
theorem enter_ignores (mixin : Mixin) (arguments : List Value) (context : Context) :
    (mixin.mapBody change).enter arguments (context.mapBodies change) =
      ((mixin.enter arguments context).1, (mixin.enter arguments context).2.mapBodies change) := by
  have bound : Ignores (Context.mapBodies change)
      (Mixin.bindParameters mixin.name mixin.parameters arguments) :=
    Blind.ignores fun mixins => bindParameters_ignores (mixins_unseen mixins) mixin.name _ arguments
  unfold Mixin.enter
  rw [Context.pushScope_mapBodies]
  have same : (mixin.mapBody change).name = mixin.name ∧
      (mixin.mapBody change).parameters = mixin.parameters := ⟨rfl, rfl⟩
  rw [same.1, same.2, bound]
  generalize Mixin.bindParameters mixin.name mixin.parameters arguments context.pushScope = result
  obtain ⟨complete, after⟩ := result
  cases complete with
  | true => rfl
  | false => exact congrArg (Prod.mk false) (Context.popScope_mapBodies change after)

end Rules

end HtmlTemplate
