import Mathlib.Data.List.Forall2
import Mathlib.Data.String.Basic
import HtmlTemplate.Proofs.Loops.Scopes
import HtmlTemplate.Render.Basic

/-! What a loop goes over. The elements of a container are given with their positions or keys, and each
pass of a loop binds its variables so that they read as one of them, whether the container is a value of
its own or kept somewhere. -/

namespace HtmlTemplate

theorem Entries.lookup_of_mem_names {α : Type} {entries : Entries α} {name : String}
    (member : name ∈ entries.names) : ∃ value, entries.lookup name = some value := by
  induction entries with
  | nil => cases member
  | cons entry rest step =>
    obtain ⟨first, value⟩ := entry
    unfold lookup
    split
    · exact ⟨value, rfl⟩
    · rename_i different
      rcases List.mem_cons.mp member with same | member
      · exact absurd same.symm different
      · exact step member

/-- The elements of an array, each with its position, or of a dictionary, each with its key. -/
def Value.elements : Value → List (Value × Value)
  | array items => items.zipIdx.map fun (item, position) => (item, ofNat position)
  | dict entries =>
    (Entries.names entries).map fun name => ((Entries.lookup name entries).getD null, text name)
  | _ => []

namespace Loops

open Context Render

/-- What the variables of a loop read as in the pass for an element. -/
def shownElement (item : String) (key : Option String) (element : Value × Value) : String → Option Value :=
  let shown := Function.update (fun _ => none) item (some element.1)
  key.elim shown fun key => Function.update shown key (some element.2)

/-- The same where the key is bound first. -/
def shownEntry (item : String) (key : Option String) (element : Value × Value) : String → Option Value :=
  let shown := key.elim (fun _ => none) fun key => Function.update (fun _ => none) key (some element.2)
  Function.update shown item (some element.1)

/-- Binds the variables of a loop to an element and its position or key, by value. -/
def enterValue (item : String) (key : Option String) (element : Value × Value) (context : Context) :
    Context :=
  let context := context.set item element.1
  key.elim context fun key => context.set key element.2

/-- In a scope that is opened while the others are as in a context, variables are bound that read as some
values. -/
def Enters (context : Context) (enter : Context → Context) (shown : String → Option Value) : Prop :=
  ∀ outer, SameScopes context outer → outer.Entered shown (enter outer.pushScope)

section

variable {context : Context} {item : String} {key : Option String}

theorem enters_value (sound : context.Sound) (element : Value × Value) :
    Enters context (enterValue item key element) (shownElement item key element) := by
  intro outer same
  have entered := (entered_pushScope (sound.of_frames same.frames).1).set item element.1
  cases key with
  | none => exact entered
  | some key => exact entered.set key element.2

/-- The element at a place of the context is an element at the same place of the scope. -/
theorem entered_element {outer inner : Context} {shown : String → Option Value} (sound : context.Sound)
    (same : SameScopes context outer) (entered : outer.Entered shown inner) (name : String) {place : Place}
    {segment : Value.Segment} {value : Value} (isOpen : context.IsOpen place.root)
    (reads : context.resolve? (place.child segment) = some value) (mutable : Bool) :
    outer.Entered (Function.update shown name (some value)) (inner.bindAlias name (place.child segment) mutable) := by
  obtain ⟨soundOuter, grown⟩ := sound.of_frames same.frames
  have isOpenOuter := grown.roots isOpen
  have readsOuter : outer.resolve? (place.child segment) = some value := by
    rw [← reads]
    exact same.carried.agreeOn.resolve? sound soundOuter trivial
  have outside : (place.child segment).root.frame < outer.depth := isOpenOuter.lt_depth
  refine entered.bindAlias name (entered.isOpen isOpenOuter) outside ?_
  rw [← readsOuter]
  exact (entered.carried_outer soundOuter).agreeOn.resolve? soundOuter entered.sound outside

theorem enters_element (sound : context.Sound) {place : Place} {position : Nat} {value : Value}
    (isOpen : context.IsOpen place.root) (reads : context.resolve? (place.child (.index position)) = some value)
    (mutable : Bool) :
    Enters context (enterElement item key place mutable position)
      (shownElement item key (value, .ofNat position)) := by
  intro outer same
  have pushed := entered_pushScope (sound.of_frames same.frames).1
  have entered := entered_element sound same pushed item isOpen reads mutable
  cases key with
  | none => exact entered
  | some key => exact entered.set key (.ofNat position)

theorem enters_entry (sound : context.Sound) {place : Place} {name : String} {value : Value}
    (isOpen : context.IsOpen place.root) (reads : context.resolve? (place.child (.key name)) = some value)
    (mutable : Bool) :
    Enters context (enterEntry item key place mutable name) (shownEntry item key (value, .text name)) := by
  intro outer same
  have pushed := entered_pushScope (sound.of_frames same.frames).1
  cases key with
  | none => exact entered_element sound same pushed item isOpen reads mutable
  | some key => exact entered_element sound same (pushed.set key (.text name)) item isOpen reads mutable

end

/-- What is done on the way into each pass, or nothing if the alternative to the loop is run. -/
def sourcePasses (item : String) (key : Option String) (hasElse : Bool) :
    LoopSource → Option (List (Context → Context))
  | .empty => none
  | .scalar value => if hasElse then none else some [enterScalar item key value ()]
  | .array place length mutable => some ((List.range length).map (enterElement item key place mutable))
  | .dict place keys mutable => some (keys.map (enterEntry item key place mutable))

theorem eachStep_map {α : Type} (enter : α → Context → Context) (body : RunM Unit) (items : List α) :
    eachStep enter body items = eachStep id body (items.map enter) := by
  induction items with
  | nil => rfl
  | cons item rest step =>
    unfold eachStep
    rw [List.map_cons, step]
    rfl

theorem loop_eq (item : String) (key : Option String) (source : Expr) (hasElse : Bool) (body : RunM Unit) :
    loop item key source hasElse body = (do
      let handle ← inContext (Context.exec source)
      let source ← inContext (Context.loopSource handle)
      (sourcePasses item key hasElse source).elim (return false) fun passes => do
        eachStep id body passes
        return true) := by
  unfold loop
  congr 1
  funext handle
  congr 1
  funext source
  cases source with
  | empty => rfl
  | scalar value => cases hasElse <;> rfl
  | array place length mutable =>
    dsimp only [sourcePasses, Option.elim_some]
    rw [eachStep_map]
  | dict place keys mutable =>
    dsimp only [sourcePasses, Option.elim_some]
    rw [eachStep_map]

/-- What the variables read as in each pass of a loop over a value, if it is one. -/
def shownPasses (item : String) (key : Option String) (hasElse : Bool) :
    Option Value → Option (List (String → Option Value))
  | some (.array items) =>
    if items.isEmpty then none else some ((Value.array items).elements.map (shownElement item key))
  | some (.dict entries) =>
    if entries.isEmpty then none else some ((Value.dict entries).elements.map (shownEntry item key))
  | some .null | none => none
  | some value => if hasElse then none else some [shownElement item key (value, .ofNat 0)]

section

variable {context : Context} {item : String} {key : Option String} {hasElse : Bool}

section

variable {place : Place} {mutable : Bool}

theorem reads_child {value : Value} (found : context.resolve? place = some value) (segment : Value.Segment) :
    context.resolve? (place.child segment) = Value.step? segment value := by
  rw [Place.child, resolve?_extend, found]
  exact Option.bind_fun_some _

theorem array_passes (sound : context.Sound) (isOpen : context.IsOpen place.root) {items : List Value}
    (found : context.resolve? place = some (.array items)) :
    List.Forall₂ (Enters context) ((List.range items.length).map (enterElement item key place mutable))
      ((Value.array items).elements.map (shownElement item key)) := by
  have each {position : Nat} (inside : position < items.length) :
      Enters context (enterElement item key place mutable position)
        (shownElement item key (items[position], .ofNat position)) := by
    apply enters_element sound isOpen
    rw [reads_child found]
    exact List.getElem?_eq_getElem inside
  apply List.forall₂_iff_get.mpr
  have elements : (Value.array items).elements =
      items.zipIdx.map fun (item, position) => (item, Value.ofNat position) := rfl
  rw [elements]
  refine ⟨by simp, fun position inside _ => ?_⟩
  rw [List.length_map, List.length_range] at inside
  simpa using each inside

theorem dict_passes (sound : context.Sound) (isOpen : context.IsOpen place.root) {entries : Entries Value}
    (found : context.resolve? place = some (.dict entries)) :
    List.Forall₂ (Enters context) (entries.names.map (enterEntry item key place mutable))
      ((Value.dict entries).elements.map (shownEntry item key)) := by
  have elements : (Value.dict entries).elements =
      entries.names.map fun name => ((entries.lookup name).getD .null, .text name) := rfl
  rw [elements, List.map_map, List.forall₂_map_left_iff, List.forall₂_map_right_iff, List.forall₂_same]
  intro name member
  obtain ⟨value, known⟩ := Entries.lookup_of_mem_names member
  apply enters_entry sound isOpen
  rw [reads_child found, known]
  exact known

end

/-- A loop over the elements at a place that is no alias. -/
theorem loopAt_passes (sound : context.Sound) {place : Place} (last : context.alias? place = none)
    (mutable : Bool) :
    Option.Rel (List.Forall₂ (Enters context)) (sourcePasses item key hasElse (context.loopAt place mutable))
      (shownPasses item key hasElse (context.resolve? place)) := by
  have isOpen {value : Value} (found : context.resolve? place = some value) : context.IsOpen place.root := by
    have isOpen := isOpen_of_resolve? found
    rwa [canonical_of_alias?_eq_none last] at isOpen
  unfold loopAt shownPasses
  cases found : context.resolve? place with
  | none => exact .none
  | some value =>
    cases value with
    | array items =>
      dsimp only
      split
      · exact .none
      · exact .some (array_passes sound (isOpen found) found)
    | dict entries =>
      dsimp only
      split
      · exact .none
      · exact .some (dict_passes sound (isOpen found) found)
    | null => exact .none
    | _ =>
      cases hasElse with
      | true => exact .none
      | false => exact .some (.cons (enters_value sound _) .nil)

/-- A container of its own is read at the place where it is kept. -/
theorem resolve?_pushTemp (sound : context.Sound) (value : Value) :
    (context.pushTemp value).2.resolve? (context.pushTemp value).1 = some value := by
  have inside : context.current < context.depth := by
    have opened := sound.opened
    rw [current]
    omega
  have found := List.getElem?_eq_getElem inside
  have last : (context.pushTemp value).2.alias? (context.pushTemp value).1 = none := rfl
  unfold resolve?
  rw [canonical_of_alias?_eq_none last]
  unfold pushTemp Place.ofRoot rootValue?
  dsimp only
  rw [getElem?_modifyFrame, found]
  simp [Value.follow?]

/-- The passes of a loop are those over what its source reads as. -/
theorem loopSource_passes (sound : context.Sound) (handle : Handle) :
    Option.Rel (List.Forall₂ (Enters (context.loopSource handle).2))
      (sourcePasses item key hasElse (context.loopSource handle).1)
      (shownPasses item key hasElse (context.read? handle)) := by
  have placed {place : Place} (leads : handle.place? = some place) :
      Option.Rel (List.Forall₂ (Enters context))
        (sourcePasses item key hasElse (context.loopAt (context.canonical place) (context.isMutable place)))
        (shownPasses item key hasElse (context.read? handle)) := by
    have last := sound.canonical_last place
    have same : context.resolve? (context.canonical place) = context.read? handle := by
      rw [read?_of_place? leads, resolve?, canonical_of_alias?_eq_none last, resolve?]
    rw [← same]
    exact loopAt_passes sound last _
  have kept (value : Value) :
      Option.Rel (List.Forall₂ (Enters (context.pushTemp value).2))
        (sourcePasses item key hasElse ((context.pushTemp value).2.loopAt (context.pushTemp value).1 true))
        (shownPasses item key hasElse (some value)) := by
    have last : (context.pushTemp value).2.alias? (context.pushTemp value).1 = none := rfl
    rw [← resolve?_pushTemp sound value]
    exact loopAt_passes (sound.pushTemp value).1 last true
  cases handle with
  | owned value =>
    cases value with
    | null => exact .none
    | array items => exact kept (.array items)
    | dict entries => exact kept (.dict entries)
    | _ =>
      cases hasElse with
      | true => exact .none
      | false => exact .some (.cons (enters_value sound _) .nil)
  | reference mutable place => exact placed rfl
  | slot frame name => exact placed rfl
  | _ => exact .none

/-- Meanwhile nothing has been changed that is read. -/
theorem readsAlike_loopSource (sound : context.Sound) (unlimited : context.stepLimit = none) (handle : Handle) :
    ReadsAlike context (context.loopSource handle).2 ∧ Within context (context.loopSource handle).2 := by
  have same : ReadsAlike context context ∧ Within context context :=
    ⟨.refl sound unlimited, .refl context⟩
  unfold loopSource
  split
  · exact same
  · split
    · exact ⟨readsAlike_pushTemp sound unlimited _, within_modifyFrame context _⟩
    · exact same
  · split
    · exact same
    · exact same

end

end Loops

end HtmlTemplate
