import HtmlTemplate.Context.Access

/-! What a name in a scope stands for after the scopes have been changed, and which roots of
places are in open scopes. -/

namespace HtmlTemplate.Context

/-- The root is a slot or a temporary of an open scope. -/
def IsOpen (context : Context) : Root → Prop
  | .slot frame name => (context.binding? frame name).isSome = true
  | .temp frame index => ∃ scope, context.frames[frame]? = some scope ∧ index < scope.temps.length

theorem binding?_eq (context : Context) (frame : Nat) (name : String) :
    context.binding? frame name =
      (context.frames[frame]?).bind fun scope => scope.bindings.lookup name :=
  rfl

theorem lt_depth_of_binding? {context : Context} {frame : Nat} {name : String}
    (known : (context.binding? frame name).isSome = true) : frame < context.depth := by
  rw [binding?_eq] at known
  cases scope : context.frames[frame]? with
  | none =>
    rw [scope] at known
    cases known
  | some scope' => exact (List.getElem?_eq_some_iff.mp scope).1

theorem IsOpen.lt_depth {context : Context} {root : Root} (isOpen : context.IsOpen root) :
    root.frame < context.depth := by
  cases root with
  | slot frame name => exact lt_depth_of_binding? isOpen
  | temp frame index =>
    obtain ⟨scope, found, -⟩ := isOpen
    exact (List.getElem?_eq_some_iff.mp found).1

/-- Where the scopes know the same names, a name is found in the same one. -/
theorem find?_congr {first second : Context} {name : String} (depth : first.depth = second.depth)
    (known : ∀ frame, (first.binding? frame name).isSome = (second.binding? frame name).isSome) :
    first.find? name = second.find? name := by
  have all (frames others : List Frame) (same : frames.length = others.length)
      (contains : ∀ index : Nat, (frames[index]?).map (fun frame => frame.bindings.contains name) =
        (others[index]?).map fun frame => frame.bindings.contains name) :
      findIn name frames = findIn name others := by
    induction frames generalizing others with
    | nil =>
      cases others with
      | nil => rfl
      | cons => cases same
    | cons frame rest step =>
      cases others with
      | nil => cases same
      | cons other more =>
        have here : frame.bindings.contains name = other.bindings.contains name :=
          Option.some.inj (contains 0)
        unfold findIn
        rw [step more (Nat.succ.inj same) fun index => contains (index + 1), here]
  apply all _ _ depth
  intro index
  have known := known index
  have outside (context : Context) (within : ¬ index < context.depth) : context.frames[index]? = none :=
    List.getElem?_eq_none (Nat.le_of_not_lt within)
  by_cases within : index < first.depth
  · have withinTwin : index < second.depth := depth ▸ within
    rw [binding?_eq, binding?_eq, List.getElem?_eq_getElem within, List.getElem?_eq_getElem withinTwin] at known
    rw [List.getElem?_eq_getElem within, List.getElem?_eq_getElem withinTwin]
    exact congrArg some known
  · rw [outside first within, outside second (depth ▸ within)]

/-! Changing one scope. -/

theorem getElem?_modifyFrame (context : Context) (index frame : Nat) (change : Frame → Frame) :
    (context.modifyFrame index change).frames[frame]? =
      (context.frames[frame]?).map fun scope => if index = frame then change scope else scope := by
  simp only [modifyFrame, List.getElem?_modify]
  cases context.frames[frame]? with
  | none => rfl
  | some scope => rfl

theorem depth_modifyFrame (context : Context) (index : Nat) (change : Frame → Frame) :
    (context.modifyFrame index change).depth = context.depth :=
  List.length_modify ..

theorem binding?_modifyFrame {context : Context} {index : Nat} {change : Frame → Frame}
    (same : ∀ scope, (change scope).bindings = scope.bindings) (frame : Nat) (name : String) :
    (context.modifyFrame index change).binding? frame name = context.binding? frame name := by
  rw [binding?_eq, binding?_eq, getElem?_modifyFrame]
  cases context.frames[frame]? with
  | none => rfl
  | some scope =>
    simp only [Option.map_some, Option.bind_some]
    split
    · rw [same]
    · rfl

theorem isOpen_modifyFrame {context : Context} {index : Nat} {change : Frame → Frame}
    (names : ∀ scope name, (scope.bindings.lookup name).isSome = true →
      ((change scope).bindings.lookup name).isSome = true)
    (temps : ∀ scope, scope.temps.length ≤ (change scope).temps.length) {root : Root}
    (isOpen : context.IsOpen root) : (context.modifyFrame index change).IsOpen root := by
  cases root with
  | slot frame name =>
    change (context.binding? frame name).isSome = true at isOpen
    change ((context.modifyFrame index change).binding? frame name).isSome = true
    rw [binding?_eq] at isOpen ⊢
    rw [getElem?_modifyFrame]
    cases found : context.frames[frame]? with
    | none =>
      rw [found] at isOpen
      cases isOpen
    | some scope =>
      rw [found] at isOpen
      simp only [Option.map_some, Option.bind_some] at isOpen ⊢
      split
      · exact names scope name isOpen
      · exact isOpen
  | temp frame position =>
    obtain ⟨scope, found, within⟩ := isOpen
    refine ⟨if index = frame then change scope else scope, ?_, ?_⟩
    · rw [getElem?_modifyFrame, found]
      rfl
    · split
      · exact Nat.lt_of_lt_of_le within (temps scope)
      · exact within

/-! Storing a binding. -/

theorem binding?_store_self {context : Context} {frame : Nat} (isOpen : frame < context.depth)
    (name : String) (binding : Binding) :
    (context.store frame name binding).binding? frame name = some binding := by
  rw [binding?_eq, store, getElem?_modifyFrame, List.getElem?_eq_getElem isOpen]
  simp

theorem binding?_store_of_ne {context : Context} {frame other : Nat} {name word : String}
    (different : ¬ (other = frame ∧ word = name)) (binding : Binding) :
    (context.store frame name binding).binding? other word = context.binding? other word := by
  rw [binding?_eq, binding?_eq, store, getElem?_modifyFrame]
  cases context.frames[other]? with
  | none => rfl
  | some scope =>
    simp only [Option.map_some, Option.bind_some]
    split
    · rename_i same
      have : word ≠ name := fun eq => different ⟨same.symm, eq⟩
      exact Entries.lookup_insert_of_ne this binding scope.bindings
    · rfl

/-- A binding after another one has been stored is the stored one or an earlier one. -/
theorem binding?_store_cases {context : Context} {frame other : Nat} {name word : String}
    {binding found : Binding}
    (known : (context.store frame name binding).binding? other word = some found) :
    other = frame ∧ word = name ∧ found = binding ∨
      ¬ (other = frame ∧ word = name) ∧ context.binding? other word = some found := by
  rcases Classical.em (other = frame ∧ word = name) with ⟨rfl, rfl⟩ | different
  · have isOpen : other < context.depth := by
      rw [← depth_modifyFrame context other]
      exact lt_depth_of_binding? (by rw [← store, known]; rfl)
    rw [binding?_store_self isOpen] at known
    cases known
    exact .inl ⟨rfl, rfl, rfl⟩
  · rw [binding?_store_of_ne different] at known
    exact .inr ⟨different, known⟩

theorem isOpen_store {context : Context} {root : Root} (isOpen : context.IsOpen root) (frame : Nat)
    (name : String) (binding : Binding) : (context.store frame name binding).IsOpen root := by
  unfold store
  refine isOpen_modifyFrame ?_ ?_ isOpen
  · intro scope word known
    rcases Classical.em (word = name) with rfl | different
    · rw [Entries.lookup_insert_self]
      rfl
    · rwa [Entries.lookup_insert_of_ne different]
  · intro scope
    exact Nat.le_refl _

/-- A write changes the value at one root. -/
theorem setRoot_of_write? {context changed : Context} {place : Place} {value : Value}
    (done : context.write? place value = some changed) :
    ∃ root replaced, changed = context.setRoot root replaced := by
  unfold write? at done
  obtain ⟨old, -, done⟩ := Option.bind_eq_some_iff.mp done
  obtain ⟨replaced, -, done⟩ := Option.bind_eq_some_iff.mp done
  exact ⟨_, replaced, (Option.some.inj done).symm⟩

/-! Opening and closing scopes. -/

theorem depth_pushScope (context : Context) : context.pushScope.depth = context.depth + 1 := by
  simp [pushScope, depth]

theorem getElem?_pushScope {context : Context} {frame : Nat} (isOpen : frame < context.depth) :
    context.pushScope.frames[frame]? = context.frames[frame]? :=
  List.getElem?_append_left isOpen

/-- A new scope knows no names. -/
theorem binding?_pushScope (context : Context) (frame : Nat) (name : String) :
    context.pushScope.binding? frame name = context.binding? frame name := by
  rw [binding?_eq, binding?_eq]
  rcases Nat.lt_trichotomy frame context.depth with less | rfl | greater
  · rw [getElem?_pushScope less]
  · simp [pushScope, depth, Frame.empty]
  · have beyond : context.frames.length ≤ frame := Nat.le_of_lt greater
    have further : context.pushScope.frames.length ≤ frame := by
      have := context.depth_pushScope
      simp only [depth] at this greater
      omega
    rw [List.getElem?_eq_none beyond, List.getElem?_eq_none further]

theorem isOpen_pushScope {context : Context} {root : Root} (isOpen : context.IsOpen root) :
    context.pushScope.IsOpen root := by
  cases root with
  | slot frame name =>
    change (context.pushScope.binding? frame name).isSome = true
    rw [binding?_pushScope]
    exact isOpen
  | temp frame index =>
    have least : frame < context.depth := isOpen.lt_depth
    obtain ⟨scope, found, within⟩ := isOpen
    exact ⟨scope, by rw [getElem?_pushScope least, found], within⟩

theorem reports_popScope (context : Context) : context.popScope.reports = context.reports := by
  unfold popScope
  split <;> rfl

theorem frames_popScope {context : Context} (inner : 1 < context.depth) :
    context.popScope.frames = context.frames.dropLast := by
  rw [popScope, if_pos inner]

theorem depth_popScope {context : Context} (inner : 1 < context.depth) :
    context.popScope.depth = context.depth - 1 := by
  rw [depth, frames_popScope inner, List.length_dropLast, depth]

theorem getElem?_popScope {context : Context} (inner : 1 < context.depth) (frame : Nat) :
    context.popScope.frames[frame]? =
      if frame < context.depth - 1 then context.frames[frame]? else none := by
  rw [frames_popScope inner, List.getElem?_dropLast, depth]

theorem binding?_popScope {context : Context} (inner : 1 < context.depth) (frame : Nat)
    (name : String) :
    context.popScope.binding? frame name =
      if frame < context.depth - 1 then context.binding? frame name else none := by
  rw [binding?_eq, binding?_eq, getElem?_popScope inner]
  split <;> rfl

theorem isOpen_popScope {context : Context} (inner : 1 < context.depth) {root : Root}
    (outer : root.frame < context.depth - 1) (isOpen : context.IsOpen root) :
    context.popScope.IsOpen root := by
  cases root with
  | slot frame name =>
    have outer : frame < context.depth - 1 := outer
    change (context.popScope.binding? frame name).isSome = true
    rw [binding?_popScope inner, if_pos outer]
    exact isOpen
  | temp frame index =>
    have outer : frame < context.depth - 1 := outer
    obtain ⟨scope, found, within⟩ := isOpen
    refine ⟨scope, ?_, within⟩
    rw [getElem?_popScope inner, if_pos outer, found]

end HtmlTemplate.Context
