import HtmlTemplate.Proofs.Alias.Places

/-! Which roots may be seen by what knows some names only: all but the other names of the outermost
scope. What these stand for is fenced off, and a write to a root that may be seen leaves it alone. -/

namespace HtmlTemplate

/-- What a name stands for, without the value and without where the host keeps it. -/
def Binding.kind : Binding → Binding
  | .value (.owned _) owner => .value (.owned .null) owner
  | .value (.lent _) owner => .value (.lent .null) owner
  | .value (.hosted _) owner => .value (.hosted 0) owner
  | other => other

/-- What is of the same kind is the same, or differs in a value or in where the host keeps it. -/
@[elab_as_elim]
theorem Binding.kinds_induction {motive : Option Binding → Option Binding → Prop} (first second : Option Binding)
    (kinds : first.map Binding.kind = second.map Binding.kind) (same : ∀ found, motive found found)
    (owned : ∀ one other owner, motive (some (.value (.owned one) owner)) (some (.value (.owned other) owner)))
    (lent : ∀ one other owner, motive (some (.value (.lent one) owner)) (some (.value (.lent other) owner)))
    (hosted : ∀ one other owner, motive (some (.value (.hosted one) owner)) (some (.value (.hosted other) owner))) :
    motive first second := by
  cases first with
  | none =>
    rw [Option.map_eq_none_iff.mp kinds.symm]
    exact same none
  | some one =>
    obtain ⟨other, rfl, alike⟩ := Option.map_eq_some_iff.mp kinds.symm
    cases other with
    | value source owner =>
      cases one with
      | value origin =>
        cases source <;> cases origin <;> cases alike
        · exact owned ..
        · exact lent ..
        · exact hosted ..
      | _ => cases source <;> cases alike
    | _ =>
      cases one with
      | value origin => cases origin <;> cases alike
      | _ => cases alike <;> exact same _

namespace Context

/-- A root that may be seen. -/
def Visible (known : String → Prop) : Root → Prop
  | .slot 0 name => known name
  | _ => True

theorem visible_slot {known : String → Prop} {name : String} (named : known name) (frame : Nat) :
    Visible known (.slot frame name) := by
  cases frame with
  | zero => exact named
  | succ frame => trivial

/-- No two names share data of the host that may be written. -/
def Apart (context : Context) : Prop :=
  ∀ {frame other name word index owner ownerOther},
    context.binding? frame name = some (.value (.hosted index) owner) →
    context.binding? other word = some (.value (.hosted index) ownerOther) → frame = other ∧ name = word

/-! Values after a change. -/

theorem rootValue?_of_unbound {context : Context} {frame : Nat} {name : String}
    (unbound : context.binding? frame name = none) : context.rootValue? (.slot frame name) = none := by
  apply rootValue?_of_other
  intro source owner bound
  rw [unbound] at bound
  cases bound

theorem rootValue?_slot_congr {before after : Context} {frame name}
    (same : after.binding? frame name = before.binding? frame name) (hosted : after.hosted = before.hosted) :
    after.rootValue? (.slot frame name) = before.rootValue? (.slot frame name) := by
  unfold rootValue?
  dsimp only
  rw [same]
  split
  · rename_i source _ _
    cases source with
    | hosted index => exact congrArg (·[index]?) hosted
    | _ => rfl
  · rfl

theorem binding?_setRoot_of_ne {context : Context} {root : Root} {frame : Nat} {name : String}
    (different : root ≠ .slot frame name) (value : Value) :
    (context.setRoot root value).binding? frame name = context.binding? frame name := by
  cases root with
  | temp other index =>
    apply binding?_modifyFrame
    intro scope
    rfl
  | slot other word =>
    unfold setRoot
    dsimp only
    split
    · apply binding?_store_of_ne
      intro here
      exact different (by rw [here.1, here.2])
    · rfl
    · rfl

theorem rootValue?_setRoot_of_ne {context : Context} (apart : context.Apart) {root : Root} {frame : Nat}
    {name : String} (different : root ≠ .slot frame name) (value : Value) :
    (context.setRoot root value).rootValue? (.slot frame name) = context.rootValue? (.slot frame name) := by
  have same : (context.setRoot root value).binding? frame name = context.binding? frame name :=
    binding?_setRoot_of_ne different value
  cases root with
  | temp other index => exact rootValue?_slot_congr same rfl
  | slot other word =>
    unfold setRoot at same ⊢
    dsimp only at same ⊢
    split at same
    · exact rootValue?_slot_congr same rfl
    · rename_i index owner hosted
      unfold rootValue?
      dsimp only
      rw [same]
      split
      · rename_i source _ found
        cases source with
        | hosted kept =>
          have elsewhere : index ≠ kept := by
            rintro rfl
            obtain ⟨rfl, rfl⟩ := apart hosted found
            exact different rfl
          exact List.getElem?_set_ne elsewhere
        | _ => rfl
      · rfl
    · rfl

theorem kind?_setRoot (context : Context) (root : Root) (value : Value) (frame : Nat) (name : String) :
    ((context.setRoot root value).binding? frame name).map Binding.kind =
      (context.binding? frame name).map Binding.kind := by
  by_cases here : root = .slot frame name
  · rw [here]
    unfold setRoot
    dsimp only
    split
    · rename_i found
      rw [binding?_store_self (lt_depth_of_binding? (by rw [found]; rfl)), found]
      rfl
    · rfl
    · rfl
  · rw [binding?_setRoot_of_ne here]

theorem hosted_of_setRoot {context : Context} {root : Root} {value : Value} {frame : Nat} {name : String}
    {index : Nat} {owner : Option HostClass}
    (found : (context.setRoot root value).binding? frame name = some (.value (.hosted index) owner)) :
    context.binding? frame name = some (.value (.hosted index) owner) := by
  by_cases here : root = .slot frame name
  · rw [here] at found
    unfold setRoot at found
    dsimp only at found
    split at found
    · rename_i owned
      rw [binding?_store_self (lt_depth_of_binding? (by rw [owned]; rfl))] at found
      cases found
    · exact found
    · exact found
  · rwa [binding?_setRoot_of_ne here] at found

/-! What is fenced off. -/

/-- Since the start the names of the outermost scope that are not known stand for what they stood for. -/
structure Fenced (known : String → Prop) (start context : Context) : Prop where
  sound : context.Sound
  apart : context.Apart
  hidden : ∀ {name}, ¬ known name → context.binding? 0 name = start.binding? 0 name ∧
    context.rootValue? (.slot 0 name) = start.rootValue? (.slot 0 name)

namespace Fenced

variable {known : String → Prop} {start before after : Context}

/-- A root that is seen is no name that is fenced off. -/
theorem ne_hidden {root : Root} (visible : Visible known root) {name : String} (unknown : ¬ known name) :
    root ≠ .slot 0 name := by
  rintro rfl
  exact unknown visible

/-- Names that are known elsewhere go away, and others come to stand for something of their own. -/
theorem of_fewer (fenced : Fenced known start before) (sound : after.Sound)
    (hosted : after.hosted = before.hosted)
    (fewer : ∀ {frame name index owner}, after.binding? frame name = some (.value (.hosted index) owner) →
      before.binding? frame name = some (.value (.hosted index) owner))
    (same : ∀ {name}, ¬ known name → after.binding? 0 name = before.binding? 0 name) :
    Fenced known start after := by
  refine ⟨sound, fun one other => fenced.apart (fewer one) (fewer other), fun unknown => ?_⟩
  obtain ⟨binding, value⟩ := fenced.hidden unknown
  exact ⟨(same unknown).trans binding, (rootValue?_slot_congr (same unknown) hosted).trans value⟩

theorem of_same (fenced : Fenced known start before) (sound : after.Sound)
    (hosted : after.hosted = before.hosted)
    (same : ∀ frame name, after.binding? frame name = before.binding? frame name) :
    Fenced known start after := by
  apply fenced.of_fewer sound hosted
  · intro frame name index owner found
    rwa [same] at found
  · intro name _
    exact same 0 name

theorem store (fenced : Fenced known start before) {frame : Nat} {name : String} {binding : Binding}
    (sound : (before.store frame name binding).Sound) (visible : Visible known (.slot frame name))
    (own : ∀ index owner, binding ≠ .value (.hosted index) owner) :
    Fenced known start (before.store frame name binding) := by
  apply fenced.of_fewer sound rfl
  · intro other word index owner found
    rcases binding?_store_cases found with ⟨-, -, same⟩ | ⟨-, earlier⟩
    · exact absurd same.symm (own index owner)
    · exact earlier
  · intro word unknown
    apply binding?_store_of_ne
    intro here
    exact ne_hidden visible unknown (by rw [here.1, here.2])

theorem setRoot (fenced : Fenced known start before) {root : Root} (visible : Visible known root)
    (value : Value) : Fenced known start (before.setRoot root value) := by
  refine ⟨(fenced.sound.setRoot root value).1, ?_, fun unknown => ?_⟩
  · exact fun one other => fenced.apart (hosted_of_setRoot one) (hosted_of_setRoot other)
  · have different := ne_hidden visible unknown
    obtain ⟨binding, old⟩ := fenced.hidden unknown
    exact ⟨(binding?_setRoot_of_ne different value).trans binding,
      (rootValue?_setRoot_of_ne fenced.apart different value).trans old⟩

theorem pushScope (fenced : Fenced known start before) : Fenced known start before.pushScope :=
  fenced.of_same fenced.sound.pushScope rfl (binding?_pushScope before)

theorem popScope (fenced : Fenced known start before) : Fenced known start before.popScope := by
  by_cases inner : 1 < before.depth
  · have hosted : before.popScope.hosted = before.hosted := by
      unfold Context.popScope
      rw [if_pos inner]
    apply fenced.of_fewer fenced.sound.popScope hosted
    · intro frame name index owner found
      rw [binding?_popScope inner] at found
      split at found
      · exact found
      · cases found
    · intro name _
      rw [binding?_popScope inner, if_pos (by omega)]
  · rwa [Context.popScope, if_neg inner]

end Fenced

end Context

end HtmlTemplate
