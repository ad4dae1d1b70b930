import HtmlTemplate.Eval.Handle
import HtmlTemplate.Eval.Reported

/-! Contexts that differ in the mixins of their scopes alone. Nothing but the calls and the
definitions of mixins tells them apart: what is read from them is the same, and they stay so
when they are written to. -/

namespace HtmlTemplate

namespace Context

/-- A context with other mixins in its scopes. -/
def withMixins (context : Context) (mixins : Nat → Entries Mixin) : Context :=
  { context with
    frames := context.frames.mapIdx fun index frame => { frame with mixins := mixins index } }

/-- The mixins of a scope. -/
def mixinsAt (context : Context) (frame : Nat) : Entries Mixin :=
  ((context.frames[frame]?).map Frame.mixins).getD []

section

variable (context : Context) (mixins : Nat → Entries Mixin)

theorem withMixins_mixinsAt : context.withMixins context.mixinsAt = context := by
  have frames : context.frames.mapIdx (fun index frame =>
      { frame with mixins := context.mixinsAt index }) = context.frames := by
    apply List.ext_getElem?
    intro index
    rw [List.getElem?_mapIdx, mixinsAt]
    cases context.frames[index]? <;> rfl
  unfold withMixins
  rw [frames]

/-! What is read. -/

@[simp] theorem depth_withMixins : (context.withMixins mixins).depth = context.depth :=
  List.length_mapIdx

@[simp] theorem current_withMixins : (context.withMixins mixins).current = context.current := by
  simp only [current, depth_withMixins]

@[simp] theorem frame_withMixins (index : Nat) :
    (context.withMixins mixins).frames[index]? =
      context.frames[index]?.map fun frame => { frame with mixins := mixins index } :=
  List.getElem?_mapIdx

@[simp] theorem binding?_withMixins (frame : Nat) (name : String) :
    (context.withMixins mixins).binding? frame name = context.binding? frame name := by
  unfold binding?
  rw [frame_withMixins]
  cases context.frames[frame]? <;> rfl

theorem findIn_mapIdx (name : String) (frames : List Frame) (mixins : Nat → Entries Mixin) :
    findIn name (frames.mapIdx fun index frame => { frame with mixins := mixins index }) =
      findIn name frames := by
  induction frames generalizing mixins with
  | nil => rfl
  | cons frame rest step => simp only [List.mapIdx_cons, findIn, step fun index => mixins (index + 1)]

@[simp] theorem find?_withMixins (name : String) :
    (context.withMixins mixins).find? name = context.find? name :=
  findIn_mapIdx name context.frames mixins

@[simp] theorem aliasBound_withMixins :
    (context.withMixins mixins).aliasBound = context.aliasBound := by
  have counted (frames : List Frame) (mixins : Nat → Entries Mixin) (bound : Nat) :
      (frames.mapIdx fun index frame => { frame with mixins := mixins index }).foldl
          (fun bound frame => bound + frame.bindings.length) bound =
        frames.foldl (fun bound frame => bound + frame.bindings.length) bound := by
    induction frames generalizing mixins bound with
    | nil => rfl
    | cons frame rest step => simp only [List.mapIdx_cons, List.foldl_cons, step fun index => mixins (index + 1)]
  exact counted context.frames mixins 1

/-! What is written. -/

theorem modifyFrame_withMixins {change : Frame → Frame}
    (blind : ∀ frame mixins, change { frame with mixins } = { change frame with mixins })
    (index : Nat) :
    (context.withMixins mixins).modifyFrame index change =
      (context.modifyFrame index change).withMixins mixins := by
  have frames : (context.frames.mapIdx fun index frame => { frame with mixins := mixins index }).modify
      index change = (context.frames.modify index change).mapIdx
        fun index frame => { frame with mixins := mixins index } := by
    apply List.ext_getElem?
    intro place
    simp only [List.getElem?_modify, List.getElem?_mapIdx]
    cases context.frames[place]? with
    | none => rfl
    | some frame =>
      simp only [Option.map_some, Functor.map]
      split
      · rw [blind]
      · rfl
  unfold modifyFrame withMixins
  rw [frames]

@[simp] theorem store_withMixins (frame : Nat) (name : String) (binding : Binding) :
    (context.withMixins mixins).store frame name binding =
      (context.store frame name binding).withMixins mixins :=
  modifyFrame_withMixins context mixins (fun _ _ => rfl) frame

@[simp] theorem pushTemp_withMixins (value : Value) :
    (context.withMixins mixins).pushTemp value =
      ((context.pushTemp value).1, (context.pushTemp value).2.withMixins mixins) := by
  simp only [pushTemp, current_withMixins, frame_withMixins]
  refine Prod.ext ?_ (modifyFrame_withMixins context mixins (fun _ _ => rfl) context.current)
  cases context.frames[context.current]? <;> rfl

@[simp] theorem reportFault_withMixins (fault : EvalFault) :
    (context.withMixins mixins).reportFault fault =
      (context.reportFault fault).withMixins mixins :=
  rfl

theorem changeMixins_withMixins (index : Nat) (change : Entries Mixin → Entries Mixin) :
    (context.withMixins mixins).modifyFrame index
        (fun frame => { frame with mixins := change frame.mixins }) =
      context.withMixins fun place => if index = place then change (mixins place) else mixins place := by
  have frames : (context.frames.mapIdx fun index frame => { frame with mixins := mixins index }).modify
      index (fun frame => { frame with mixins := change frame.mixins }) =
      context.frames.mapIdx fun place frame =>
        { frame with mixins := if index = place then change (mixins place) else mixins place } := by
    apply List.ext_getElem?
    intro place
    simp only [List.getElem?_modify, List.getElem?_mapIdx]
    cases context.frames[place]? with
    | none => rfl
    | some frame =>
      simp only [Option.map_some, Functor.map]
      split <;> rfl
  unfold modifyFrame withMixins
  rw [frames]

theorem pushScope_withMixins :
    (context.withMixins mixins).pushScope = context.pushScope.withMixins
      fun index => if index = context.depth then [] else mixins index := by
  have kept : context.frames.mapIdx (fun index frame => { frame with mixins := mixins index }) =
      context.frames.mapIdx fun index frame =>
        { frame with mixins := if index = context.depth then [] else mixins index } := by
    apply List.ext_getElem?
    intro index
    simp only [List.getElem?_mapIdx]
    cases found : context.frames[index]? with
    | none => rfl
    | some frame =>
      have inside : index < context.depth := (List.getElem?_eq_some_iff.mp found).1
      rw [if_neg (Nat.ne_of_lt inside)]
  unfold pushScope withMixins
  simp only [List.mapIdx_append, List.mapIdx_singleton, kept, Nat.zero_add, depth, if_true]
  rfl

theorem popScope_withMixins :
    (context.withMixins mixins).popScope = context.popScope.withMixins mixins := by
  unfold popScope
  rw [depth_withMixins]
  split
  · have kept : (context.frames.mapIdx fun index frame =>
          { frame with mixins := mixins index }).dropLast =
        context.frames.dropLast.mapIdx fun index frame => { frame with mixins := mixins index } := by
      apply List.ext_getElem?
      intro index
      simp only [List.getElem?_dropLast, List.getElem?_mapIdx, List.length_mapIdx]
      split <;> rfl
    unfold withMixins
    simp only [kept]
  · rfl

end

end Context

end HtmlTemplate
