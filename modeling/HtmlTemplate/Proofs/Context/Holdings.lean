import HtmlTemplate.Proofs.Context.Mixins
import HtmlTemplate.Proofs.Rules.Assembly
import HtmlTemplate.Proofs.Rules.Unseen

/-! Contexts whose mixins all have bodies of some kind. They stay so as long as bodies of that kind are
defined. -/

namespace HtmlTemplate

/-- The body of every mixin that is defined is of some kind. -/
def Context.Holds (good : List Chunk → Prop) (context : Context) : Prop :=
  ∀ frame ∈ context.frames, ∀ entry ∈ frame.mixins, good entry.2.body

namespace Context.Holds

variable {good : List Chunk → Prop} {context : Context}

theorem pushScope (holds : context.Holds good) : context.pushScope.Holds good := by
  intro frame member
  rcases List.mem_append.mp member with member | member
  · exact holds frame member
  · cases List.mem_singleton.mp member
    nofun

theorem popScope (holds : context.Holds good) : context.popScope.Holds good := by
  unfold Context.popScope
  split
  · exact fun frame member => holds frame ((List.dropLast_sublist _).subset member)
  · exact holds

/-- A mixin that is found. -/
theorem mixin? (holds : context.Holds good) {name : String} {mixin : Mixin}
    (found : context.mixin? name = some mixin) : good mixin.body := by
  obtain ⟨frame, member, known⟩ := List.exists_of_findSome?_eq_some found
  exact holds frame (List.mem_reverse.mp member) _ (Entries.mem_of_lookup known)

/-- Other mixins of the same scopes. -/
theorem withMixins (holds : context.Holds good) (other : Context) :
    (other.withMixins context.mixinsAt).Holds good := by
  intro frame member entry inside
  obtain ⟨index, bound, rfl⟩ := List.mem_mapIdx.mp member
  change entry ∈ context.mixinsAt index at inside
  unfold Context.mixinsAt at inside
  cases found : context.frames[index]? with
  | none =>
    rw [found] at inside
    cases inside
  | some scope =>
    rw [found] at inside
    exact holds scope (List.mem_of_getElem? found) entry inside

theorem defineMixin (holds : context.Holds good) {mixin : Mixin} (body : good mixin.body) {after : Context}
    (defined : context.defineMixin mixin = .ok after) : after.Holds good := by
  unfold Context.defineMixin at defined
  split at defined
  · cases defined
  · cases defined
    intro frame member entry inside
    obtain ⟨index, found⟩ := List.getElem?_of_mem member
    change (context.frames.modify context.current _)[index]? = some frame at found
    rw [List.getElem?_modify] at found
    cases scope : context.frames[index]? with
    | none =>
      rw [scope] at found
      cases found
    | some old =>
      have known := holds old (List.mem_of_getElem? scope)
      rw [scope] at found
      cases found
      dsimp only at inside
      split at inside
      · rcases Entries.eq_or_mem_of_mem_insert inside with rfl | inside
        · exact body
        · exact known entry inside
      · exact known entry inside

theorem define (holds : context.Holds good) (name : String) (signature : Expr) {body : List Chunk}
    (is : good body) : (Render.define name signature body context).Holds good := by
  have made {mixin : Mixin} (found : Mixin.ofDefinition name signature body = .ok mixin) : mixin.body = body := by
    unfold Mixin.ofDefinition at found
    split at found
    · cases found
      rfl
    · cases found
  unfold Render.define
  cases found : Mixin.ofDefinition name signature body with
  | error fault => exact holds
  | ok mixin =>
    have goesOn : (Except.ok mixin >>= context.defineMixin) = context.defineMixin mixin := rfl
    rw [goesOn]
    cases defined : context.defineMixin mixin with
    | error fault => exact holds
    | ok after => exact holds.defineMixin (made found ▸ is) defined

end Context.Holds

namespace Rules

variable {good : List Chunk → Prop} {context : Context} {α : Type}

/-- What does not look at mixins keeps them. -/
theorem Blind.bodies {action : Context → α × Context} (blind : Blind action) (holds : context.Holds good) :
    (action context).2.Holds good := by
  have same : action (context.withMixins context.mixinsAt) = _ := blind context.mixinsAt context
  rw [Context.withMixins_mixinsAt] at same
  have kept : (action context).2 = (action context).2.withMixins context.mixinsAt := congrArg Prod.snd same
  rw [kept]
  exact holds.withMixins _

theorem BlindChange.bodies {change : Context → Context} (blind : BlindChange change)
    (holds : context.Holds good) : (change context).Holds good := by
  have silent : Blind fun context => ((), change context) := fun mixins context =>
    Prod.ext rfl (blind mixins context)
  exact silent.bodies holds

theorem Asked.bodies {action : Context → α × Context} (asked : Asked action) (holds : context.Holds good) :
    (action context).2.Holds good := by
  cases asked with
  | evaluate expr => exact Blind.bodies (fun mixins => evaluate_ignores (mixins_unseen mixins) .strict expr) holds
  | value expr => exact Blind.bodies (fun mixins => execValue?_ignores (mixins_unseen mixins) expr) holds
  | holds guard => exact Blind.bodies (fun mixins => holds_ignores (mixins_unseen mixins) guard) holds
  | arguments arguments =>
    exact Blind.bodies (fun mixins => execArguments_ignores (mixins_unseen mixins) arguments) holds
  | source handle => exact Blind.bodies (fun mixins => loopSource_ignores (mixins_unseen mixins) handle) holds
  | enter mixin arguments =>
    have bound : Context.Holds good
        (Mixin.bindParameters mixin.name mixin.parameters arguments context.pushScope).2 :=
      Blind.bodies (fun mixins => bindParameters_ignores (mixins_unseen mixins) mixin.name _ arguments)
        holds.pushScope
    unfold Mixin.enter
    generalize Mixin.bindParameters mixin.name mixin.parameters arguments context.pushScope = result at bound
    obtain ⟨complete, after⟩ := result
    cases complete with
    | true => exact bound
    | false => exact bound.popScope

theorem Changed.bodies {change : Context → Context} (changed : Changed change) (holds : context.Holds good) :
    (change context).Holds good := by
  cases changed with
  | scope => exact holds.pushScope
  | scalar item key value =>
    exact BlindChange.bodies (fun mixins => enterScalar_commutes (mixins_unseen mixins) item key value ()) holds
  | element item key place mutable position =>
    exact BlindChange.bodies
      (fun mixins => enterElement_commutes (mixins_unseen mixins) item key place mutable position) holds
  | entry item key place mutable name =>
    exact BlindChange.bodies
      (fun mixins => enterEntry_commutes (mixins_unseen mixins) item key place mutable name) holds
  | unfound name => exact holds

end Rules

end HtmlTemplate
