import Mathlib.Logic.Function.Basic
import HtmlTemplate.Proofs.Context.Holdings
import HtmlTemplate.Proofs.Loops.Reading

/-! Scopes that are opened for a pass of a loop. Whether a name has been bound there by value or as an
alias of an element, it reads the same, so contexts that read alike still do after the scopes have been
entered. -/

namespace HtmlTemplate.Context

/-! What is changed meanwhile. -/

/-- The open scopes are the same, and so is what the host has lent. -/
structure SameScopes (before after : Context) : Prop where
  frames : after.frames = before.frames
  hosted : after.hosted = before.hosted
  escapes : after.escapeOutput = before.escapeOutput
  limit : after.stepLimit = before.stepLimit

/-- At most the innermost scope has been changed. -/
structure Within (before after : Context) : Prop where
  frames : after.frames.dropLast = before.frames.dropLast
  depth : after.depth = before.depth
  hosted : after.hosted = before.hosted
  escapes : after.escapeOutput = before.escapeOutput
  limit : after.stepLimit = before.stepLimit

variable {context before after outer inner : Context}

theorem SameScopes.refl (context : Context) : SameScopes context context := ⟨rfl, rfl, rfl, rfl⟩

theorem SameScopes.trans {first second third : Context} (one : SameScopes first second)
    (other : SameScopes second third) : SameScopes first third :=
  ⟨other.frames.trans one.frames, other.hosted.trans one.hosted, other.escapes.trans one.escapes,
    other.limit.trans one.limit⟩

theorem SameScopes.within (same : SameScopes before after) : Within before after where
  frames := by rw [same.frames]
  depth := by rw [depth, same.frames, depth]
  hosted := same.hosted
  escapes := same.escapes
  limit := same.limit

theorem Within.refl (context : Context) : Within context context := (SameScopes.refl context).within

theorem Within.trans {first second third : Context} (one : Within first second)
    (other : Within second third) : Within first third :=
  ⟨other.frames.trans one.frames, other.depth.trans one.depth, other.hosted.trans one.hosted,
    other.escapes.trans one.escapes, other.limit.trans one.limit⟩

theorem Within.current (within : Within before after) : after.current = before.current := by
  rw [Context.current, within.depth, Context.current]

theorem within_modifyFrame (context : Context) (change : Frame → Frame) :
    Within context (context.modifyFrame context.current change) where
  frames := by
    apply List.ext_getElem?
    intro index
    have length : (context.modifyFrame context.current change).frames.length = context.frames.length :=
      depth_modifyFrame ..
    rw [List.getElem?_dropLast, List.getElem?_dropLast, length, getElem?_modifyFrame]
    split
    · rename_i outer
      have other : context.current ≠ index := by
        rw [current, depth]
        omega
      simp only [if_neg other, Option.map_id']
    · rfl
  depth := depth_modifyFrame ..
  hosted := rfl
  escapes := rfl
  limit := rfl

theorem current_pushScope (context : Context) : context.pushScope.current = context.depth := by
  rw [current, depth_pushScope, Nat.add_sub_cancel]

/-- A scope that has been opened stands after the others, whatever has been put into it. -/
theorem Within.frames_pushed (within : Within outer.pushScope inner) :
    ∃ frame, inner.frames = outer.frames ++ [frame] := by
  have filled : inner.frames ≠ [] := by
    intro none
    have depth := within.depth
    rw [depth_pushScope, Context.depth, none] at depth
    cases depth
  refine ⟨inner.frames.getLast filled, ?_⟩
  have pushed : outer.pushScope.frames.dropLast = outer.frames := List.dropLast_concat
  rw [← pushed, ← within.frames, List.dropLast_concat_getLast]

/-- Closing it again gives the scopes that there were. -/
theorem Within.popScope (within : Within outer.pushScope inner) (opened : 0 < outer.depth) :
    SameScopes outer inner.popScope := by
  have deeper : 1 < inner.depth := by
    rw [within.depth, depth_pushScope]
    omega
  have same : inner.popScope = { inner with frames := inner.frames.dropLast } := if_pos deeper
  rw [same]
  exact ⟨within.frames.trans List.dropLast_concat, within.hosted, within.escapes, within.limit⟩

/-! Reading after a change. -/

theorem SlotAlike.symm {first second : Context} {frame : Nat} {name : String}
    (alike : SlotAlike first second frame name) : SlotAlike second first frame name :=
  ⟨alike.known.symm, alike.meaning.symm, alike.reads.symm, alike.owner.symm⟩

theorem SlotAlike.trans {first second third : Context} {frame : Nat} {name : String}
    (one : SlotAlike first second frame name) (other : SlotAlike second third frame name) :
    SlotAlike first third frame name :=
  ⟨one.known.trans other.known, one.meaning.trans other.meaning, one.reads.trans other.reads,
    one.owner.trans other.owner⟩

/-- A name that is not known reads as nothing. -/
theorem slotAlike_of_unknown {first second : Context} {frame : Nat} {name : String}
    (one : first.binding? frame name = none) (other : second.binding? frame name = none) :
    SlotAlike first second frame name := by
  have reads {context : Context} (unknown : context.binding? frame name = none) :
      context.resolve? (.slot frame name) = none ∧ context.owner? (.slot frame name) = none := by
    have last : context.aliasRoot? (.slot frame name) = none := aliasRoot?_of_own (by rw [unknown]; nofun)
    refine ⟨?_, ?_⟩
    · rw [resolve?_slot last, rootValue?_of_other (by rw [unknown]; nofun)]
    · have here : context.alias? (.slot frame name) = none :=
        (context.aliasRoot?_eq_none_iff (.slot frame name)).mp last
      unfold owner?
      rw [canonical_of_alias?_eq_none here]
      simp only [Place.slot, Place.ofRoot, unknown]
  refine ⟨by rw [one, other], by rw [one, other], ?_, ?_⟩
  · rw [(reads one).1, (reads other).1]
  · rw [(reads one).2, (reads other).2]

/-- Some roots lead to nothing but such roots, and nothing has been changed there. -/
structure Carried (clear : Root → Prop) (before after : Context) : Prop where
  leads : ∀ {root target}, clear root → before.aliasRoot? root = some target → clear target
  bindings : ∀ {frame name}, clear (.slot frame name) →
    after.binding? frame name = before.binding? frame name
  temps : ∀ {frame index}, clear (.temp frame index) →
    after.rootValue? (.temp frame index) = before.rootValue? (.temp frame index)
  hosted : after.hosted = before.hosted

namespace Carried

variable {clear : Root → Prop} {frame : Nat} {name : String}

theorem agreeOn (carried : Carried clear before after) : AgreeOn clear before after where
  leads := carried.leads
  aliases begins := alias?_congr fun _ _ here => carried.bindings (here ▸ begins)
  values := by
    intro root begins
    cases root with
    | temp frame index => exact carried.temps begins
    | slot frame name =>
      unfold rootValue? sourceValue?
      dsimp only
      rw [carried.bindings begins, carried.hosted]

theorem slotAlike (carried : Carried clear before after) (sound : before.Sound) (soundAfter : after.Sound)
    (begins : clear (.slot frame name)) : SlotAlike before after frame name where
  known := by rw [carried.bindings begins]
  meaning := by rw [carried.bindings begins]
  reads := (carried.agreeOn.resolve? sound soundAfter begins).symm
  owner := by
    have clearPlace : clear (Place.slot frame name).root := begins
    obtain ⟨same, ends⟩ := carried.agreeOn.canonical sound soundAfter clearPlace
    unfold owner?
    rw [same]
    split
    · rename_i frame name stop
      rw [stop] at ends
      rw [carried.bindings ends]
    · rfl

end Carried

/-- In the outer scopes nothing is changed by what comes to stand after them. -/
theorem carried_outer (sound : before.Sound) {more : List Frame} (frames : after.frames = before.frames ++ more)
    (hosted : after.hosted = before.hosted) : Carried (·.frame < before.depth) before after where
  leads outer leads := Nat.lt_of_le_of_lt (sound.target_open leads).2 outer
  bindings := by
    intro frame name outer
    have kept : (before.frames ++ more)[frame]? = before.frames[frame]? := List.getElem?_append_left outer
    rw [binding?_eq, binding?_eq, frames, kept]
  temps := by
    intro frame index outer
    have kept : (before.frames ++ more)[frame]? = before.frames[frame]? := List.getElem?_append_left outer
    unfold rootValue?
    dsimp only
    rw [frames, kept]
  hosted := hosted

/-- A change that leaves the names of all scopes and the values kept there as they are. -/
theorem carried_of_same (names : ∀ frame name, after.binding? frame name = before.binding? frame name)
    (temps : ∀ frame index, after.rootValue? (.temp frame index) = before.rootValue? (.temp frame index))
    (hosted : after.hosted = before.hosted) : Carried (fun _ => True) before after where
  leads _ _ := trivial
  bindings _ := names _ _
  temps _ := temps _ _
  hosted := hosted

theorem SameScopes.carried (same : SameScopes before after) : Carried (fun _ => True) before after := by
  apply carried_of_same
  · intro frame name
    rw [binding?_eq, binding?_eq, same.frames]
  · intro frame index
    unfold rootValue?
    dsimp only
    rw [same.frames]
  · exact same.hosted

namespace ReadsAlike

variable {first second firstAfter secondAfter : Context}

theorem symm (alike : ReadsAlike first second) : ReadsAlike second first where
  sound := alike.soundTwin
  soundTwin := alike.sound
  depth := alike.depth.symm
  slots frame name := (alike.slots frame name).symm
  mixins frame := (alike.mixins frame).symm
  escapes := alike.escapes.symm
  unlimited := alike.unlimited.symm

theorem trans {third : Context} (one : ReadsAlike first second) (other : ReadsAlike second third) :
    ReadsAlike first third where
  sound := one.sound
  soundTwin := other.soundTwin
  depth := one.depth.trans other.depth
  slots frame name := (one.slots frame name).trans (other.slots frame name)
  mixins frame := (one.mixins frame).trans (other.mixins frame)
  escapes := one.escapes.trans other.escapes
  unlimited := ⟨one.unlimited.1, other.unlimited.2⟩

/-- Both contexts have been changed, each in a way that cannot be told by reading. -/
theorem changed (alike : ReadsAlike first second) (one : ReadsAlike first firstAfter)
    (other : ReadsAlike second secondAfter) : ReadsAlike firstAfter secondAfter :=
  one.symm.trans (alike.trans other)

end ReadsAlike

theorem SameScopes.readsAlike (same : SameScopes before after) (sound : before.Sound)
    (unlimited : before.stepLimit = none) : ReadsAlike before after where
  sound := sound
  soundTwin := (sound.of_frames same.frames).1
  depth := same.within.depth.symm
  slots _ _ := same.carried.slotAlike sound (sound.of_frames same.frames).1 trivial
  mixins frame := by rw [mixinsAt, mixinsAt, same.frames]
  escapes := same.escapes.symm
  unlimited := ⟨unlimited, same.limit.trans unlimited⟩

theorem mixinsAt_modifyFrame {context : Context} {index : Nat} {change : Frame → Frame}
    (same : ∀ scope, (change scope).mixins = scope.mixins) (frame : Nat) :
    (context.modifyFrame index change).mixinsAt frame = context.mixinsAt frame := by
  rw [mixinsAt, mixinsAt, getElem?_modifyFrame, Option.map_map]
  congr 2
  funext scope
  dsimp only [Function.comp_apply]
  split
  · exact same scope
  · rfl

/-- Nobody reads what a scope has begun to keep without a name. -/
theorem readsAlike_pushTemp (sound : context.Sound) (unlimited : context.stepLimit = none) (value : Value) :
    ReadsAlike context (context.pushTemp value).2 := by
  obtain ⟨soundAfter, grown⟩ := sound.pushTemp value
  let keep (scope : Frame) : Frame := { scope with temps := scope.temps ++ [value] }
  have bindings (scope : Frame) : (keep scope).bindings = scope.bindings := rfl
  have mixins (scope : Frame) : (keep scope).mixins = scope.mixins := rfl
  have names (frame : Nat) (name : String) :
      (context.pushTemp value).2.binding? frame name = context.binding? frame name :=
    binding?_modifyFrame bindings frame name
  have carried : Carried context.IsOpen context (context.pushTemp value).2 := by
    refine ⟨fun _ leads => (sound.target_open leads).1, fun _ => names _ _, ?_, rfl⟩
    rintro frame index ⟨scope, found, within⟩
    unfold rootValue? pushTemp
    dsimp only
    rw [getElem?_modifyFrame, found]
    simp only [Option.map_some, Option.bind_eq_bind, Option.bind_some]
    split
    · exact List.getElem?_append_left within
    · rfl
  refine ⟨sound, soundAfter, grown.depth.symm, fun frame name => ?_, 
    fun frame => (mixinsAt_modifyFrame mixins frame).symm, rfl,
    unlimited, unlimited⟩
  cases known : context.binding? frame name with
  | none => exact slotAlike_of_unknown known ((names frame name).trans known)
  | some binding =>
    have isOpen : context.IsOpen (.slot frame name) := by
      change (context.binding? frame name).isSome = true
      rw [known]
      rfl
    exact carried.slotAlike sound soundAfter isOpen

/-! Defining mixins. -/

/-- A context with one more mixin in its innermost scope. -/
def withMixin (context : Context) (mixin : Mixin) : Context :=
  context.modifyFrame context.current fun frame =>
    { frame with mixins := frame.mixins.insert mixin.name mixin }

theorem defineMixin_eq (context : Context) (mixin : Mixin) :
    context.defineMixin mixin =
      if (context.mixinsAt context.current).contains mixin.name then .error (.mixinRedefined mixin.name)
      else .ok (context.withMixin mixin) := by
  have same : (context.frames[context.current]?).any (fun frame => frame.mixins.contains mixin.name) =
      (context.mixinsAt context.current).contains mixin.name := by
    rw [mixinsAt]
    cases context.frames[context.current]? <;> rfl
  unfold defineMixin
  rw [same]
  rfl

theorem mixinsAt_withMixin (context : Context) (mixin : Mixin) (frame : Nat) :
    (context.withMixin mixin).mixinsAt frame =
      if frame = context.current ∧ frame < context.depth then
        (context.mixinsAt frame).insert mixin.name mixin
      else context.mixinsAt frame := by
  unfold withMixin
  rw [mixinsAt, mixinsAt, getElem?_modifyFrame]
  by_cases inside : frame < context.depth
  · rw [List.getElem?_eq_getElem inside]
    by_cases here : frame = context.current
    · simp [← here, inside]
    · simp [here, Ne.symm here]
  · rw [List.getElem?_eq_none (Nat.not_lt.mp inside)]
    simp [inside]

/-- A mixin does not change what is read. -/
theorem ReadsAlike.withMixin {first second : Context} (alike : ReadsAlike first second) (mixin : Mixin) :
    ReadsAlike (first.withMixin mixin) (second.withMixin mixin) := by
  have kept {context : Context} (sound : context.Sound) : (context.withMixin mixin).Sound ∧
      ∀ frame name, SlotAlike context (context.withMixin mixin) frame name := by
    let keep (scope : Frame) : Frame := { scope with mixins := scope.mixins.insert mixin.name mixin }
    have bindings (scope : Frame) : (keep scope).bindings = scope.bindings := rfl
    have temps (scope : Frame) : (keep scope).temps = scope.temps := rfl
    have soundAfter := (sound.modifyFrame context.current keep bindings fun _ => Nat.le_refl _).1
    have carried : Carried (fun _ => True) context (context.withMixin mixin) := by
      refine carried_of_same (binding?_modifyFrame bindings) (fun frame index => ?_) rfl
      unfold Context.withMixin rootValue?
      dsimp only
      rw [getElem?_modifyFrame]
      cases context.frames[frame]? with
      | none => rfl
      | some scope =>
        simp only [Option.map_some, Option.bind_eq_bind, Option.bind_some]
        split <;> rfl
    exact ⟨soundAfter, fun _ _ => carried.slotAlike sound soundAfter trivial⟩
  have depth (context : Context) : (context.withMixin mixin).depth = context.depth := depth_modifyFrame ..
  obtain ⟨sound, slots⟩ := kept alike.sound
  obtain ⟨soundTwin, slotsTwin⟩ := kept alike.soundTwin
  refine ⟨sound, soundTwin, ?_, fun frame name => ?_, fun frame => ?_, alike.escapes, alike.unlimited⟩
  · rw [depth, depth, alike.depth]
  · exact (slots frame name).symm.trans ((alike.slots frame name).trans (slotsTwin frame name))
  · rw [mixinsAt_withMixin, mixinsAt_withMixin, alike.mixins, alike.depth, current, current, alike.depth]

/-! Names that have been bound for a pass. -/

/-- A name of a scope reads as a value that no class belongs to. -/
structure Shows (context : Context) (frame : Nat) (name : String) (value : Value) : Prop where
  known : (context.binding? frame name).isSome = true
  meaning : Eval.meaning frame name (context.binding? frame name) = .slot frame name
  reads : context.resolve? (.slot frame name) = some value
  owner : context.owner? (.slot frame name) = none

section

variable {frame : Nat} {name : String} {value : Value}

theorem Shows.alike {first second : Context} (one : Shows first frame name value)
    (other : Shows second frame name value) : SlotAlike first second frame name :=
  ⟨one.known.trans other.known.symm, one.meaning.trans other.meaning.symm, one.reads.trans other.reads.symm,
    one.owner.trans other.owner.symm⟩

theorem Shows.moved (shows : Shows before frame name value) (alike : SlotAlike before after frame name) :
    Shows after frame name value :=
  ⟨alike.known.symm.trans shows.known, alike.meaning.symm.trans shows.meaning,
    alike.reads.symm.trans shows.reads, alike.owner.symm.trans shows.owner⟩

theorem shows_own (bound : context.binding? frame name = some (.ofValue value)) :
    Shows context frame name value := by
  have last : context.aliasRoot? (.slot frame name) = none := aliasRoot?_of_own (by rw [bound]; nofun)
  have here : context.alias? (.slot frame name) = none :=
    (context.aliasRoot?_eq_none_iff (.slot frame name)).mp last
  refine ⟨by rw [bound]; rfl, by rw [bound]; rfl, ?_, ?_⟩
  · rw [resolve?_slot last, rootValue?_slot bound]
    rfl
  · unfold owner?
    rw [canonical_of_alias?_eq_none here]
    simp only [Place.slot, Place.ofRoot, bound, Binding.ofValue]

theorem shows_alias (sound : context.Sound) {place : Place} {mutable : Bool}
    (bound : context.binding? frame name = some (.alias place mutable))
    (reads : context.resolve? place = some value) (owner : context.owner? place = none) :
    Shows context frame name value := by
  have leads : context.alias? (.slot frame name) = some (place, mutable) := by
    unfold alias? Place.slot Place.ofRoot
    dsimp only
    rw [bound]
    simp only [Place.extend, List.append_nil]
  have same := sound.canonical_alias leads
  refine ⟨by rw [bound]; rfl, by rw [bound]; rfl, ?_, ?_⟩
  · rw [← reads, resolve?, same, resolve?]
  · rw [← owner, owner?, same, owner?]

end

/-- A scope has been opened in which some names read as values, and which has no other names. -/
structure Entered (outer : Context) (shown : String → Option Value) (inner : Context) : Prop where
  sound : inner.Sound
  within : Within outer.pushScope inner
  /-- Aliases lead out of the scope. -/
  outward : ∀ {name place mutable}, inner.binding? outer.depth name = some (.alias place mutable) →
    place.root.frame < outer.depth
  shows : ∀ {name value}, shown name = some value → Shows inner outer.depth name value
  hidden : ∀ {name}, shown name = none → inner.binding? outer.depth name = none
  mixins : inner.mixinsAt outer.depth = []
  reports : inner.reports = outer.reports

theorem entered_pushScope (sound : outer.Sound) : Entered outer (fun _ => none) outer.pushScope := by
  have fresh : outer.pushScope.frames[outer.depth]? = some Frame.empty := by
    unfold pushScope depth
    exact List.getElem?_concat_length
  have unknown (name : String) : outer.pushScope.binding? outer.depth name = none := by
    rw [binding?_eq, fresh]
    rfl
  refine ⟨sound.pushScope, .refl _, fun found => ?_, nofun, fun _ => unknown _, ?_, rfl⟩
  · rw [unknown] at found
    cases found
  · rw [mixinsAt, fresh]
    rfl

namespace Entered

variable {shown : String → Option Value} {name : String} {value : Value}

theorem depth (entered : Entered outer shown inner) : inner.depth = outer.depth + 1 :=
  entered.within.depth.trans (depth_pushScope outer)

theorem current (entered : Entered outer shown inner) : inner.current = outer.depth :=
  entered.within.current.trans (current_pushScope outer)

theorem carried_outer (entered : Entered outer shown inner) (sound : outer.Sound) :
    Carried (·.frame < outer.depth) outer inner := by
  obtain ⟨frame, frames⟩ := entered.within.frames_pushed
  exact Context.carried_outer sound frames entered.within.hosted

theorem isOpen (entered : Entered outer shown inner) {root : Root} (isOpen : outer.IsOpen root) :
    inner.IsOpen root := by
  have outside := isOpen.lt_depth
  obtain ⟨scope, frames⟩ := entered.within.frames_pushed
  have kept : inner.frames[root.frame]? = outer.frames[root.frame]? := by
    rw [frames]
    exact List.getElem?_append_left outside
  cases root with
  | slot frame name =>
    change inner.frames[frame]? = outer.frames[frame]? at kept
    change (inner.binding? frame name).isSome = true
    rw [binding?_eq, kept]
    exact isOpen
  | temp frame index =>
    obtain ⟨known, found, inside⟩ := isOpen
    exact ⟨known, kept.trans found, inside⟩

theorem target_outside (entered : Entered outer shown inner) {root target : Root}
    (leads : inner.aliasRoot? root = some target) : target.frame < outer.depth := by
  obtain ⟨-, further⟩ := entered.sound.target_open leads
  cases root with
  | temp frame index => cases leads
  | slot frame name =>
    unfold aliasRoot? at leads
    dsimp only at leads
    split at leads
    · rename_i place mutable found
      cases leads
      have inside : frame < inner.depth := lt_depth_of_binding? (by rw [found]; rfl)
      rw [entered.depth] at inside
      rcases Nat.lt_or_eq_of_le (Nat.le_of_lt_succ inside) with outside | rfl
      · exact Nat.lt_of_le_of_lt further outside
      · exact entered.outward found
    · cases leads

/-- Nothing leads to the names of the scope, so the others are read as before one of them is bound. -/
theorem carried_bind (entered : Entered outer shown inner) (name : String) (binding : Binding) :
    Carried (· ≠ .slot outer.depth name) inner (inner.bind name binding) := by
  rw [Context.bind, entered.current]
  refine ⟨fun _ leads same => ?_, fun other => ?_, fun _ => ?_, rfl⟩
  · have outside := entered.target_outside leads
    rw [same] at outside
    exact Nat.lt_irrefl _ outside
  · apply binding?_store_of_ne
    rintro ⟨rfl, rfl⟩
    exact other rfl
  · apply rootValue?_store_of_ne
    intro same
    cases same

/-- One more name is bound, or one is bound again. -/
theorem bind (entered : Entered outer shown inner) {binding : Binding}
    (sound : (inner.bind name binding).Sound)
    (outward : ∀ place mutable, binding = .alias place mutable → place.root.frame < outer.depth)
    (shows : Shows (inner.bind name binding) outer.depth name value) :
    Entered outer (Function.update shown name (some value)) (inner.bind name binding) := by
  have here : inner.bind name binding = inner.store outer.depth name binding := by
    rw [Context.bind, entered.current]
  have others {word : String} (other : word ≠ name) :
      (inner.bind name binding).binding? outer.depth word = inner.binding? outer.depth word := by
    rw [here]
    exact binding?_store_of_ne (fun same => other same.2) binding
  refine ⟨sound, ?_, ?_, ?_, ?_, ?_, entered.reports⟩
  · refine entered.within.trans ?_
    exact within_modifyFrame inner _
  · intro word place mutable found
    rw [here] at found
    rcases binding?_store_cases found with ⟨-, -, same⟩ | ⟨-, earlier⟩
    · exact outward place mutable same.symm
    · exact entered.outward earlier
  · intro word other found
    rcases eq_or_ne word name with rfl | different
    · rw [Function.update_self] at found
      cases found
      exact shows
    · rw [Function.update_of_ne different] at found
      apply (entered.shows found).moved
      exact (entered.carried_bind name binding).slotAlike entered.sound sound fun same => different (Root.slot.inj same).2
  · intro word missing
    rcases eq_or_ne word name with rfl | different
    · rw [Function.update_self] at missing
      cases missing
    · rw [Function.update_of_ne different] at missing
      rw [others different]
      exact entered.hidden missing
  · have mixins (scope : Frame) :
        ({ scope with bindings := scope.bindings.insert name binding } : Frame).mixins = scope.mixins := rfl
    exact (mixinsAt_modifyFrame mixins outer.depth).trans entered.mixins

theorem set (entered : Entered outer shown inner) (name : String) (value : Value) :
    Entered outer (Function.update shown name (some value)) (inner.set name value) := by
  have inside : inner.current < inner.depth := by
    rw [entered.current, entered.depth]
    exact Nat.lt_succ_self _
  have sound : (inner.bind name (.ofValue value)).Sound := (entered.sound.store _ name (by nofun)).1
  refine entered.bind sound (by nofun) (shows_own ?_)
  rw [← entered.current]
  exact binding?_store_self inside name _

/-- An alias of an element further out reads as the element. -/
theorem bindAlias (entered : Entered outer shown inner) (name : String) {place : Place} {segment : Value.Segment}
    {mutable : Bool} (isOpen : inner.IsOpen place.root) (outside : place.root.frame < outer.depth)
    (reads : inner.resolve? (place.child segment) = some value) :
    Entered outer (Function.update shown name (some value))
      (inner.bindAlias name (place.child segment) mutable) := by
  have inside : inner.current < inner.depth := by
    rw [entered.current, entered.depth]
    exact Nat.lt_succ_self _
  have openElement : inner.IsOpen (place.child segment).root := isOpen
  have outsideCurrent : (place.child segment).root.frame < inner.current := by
    rw [entered.current]
    exact outside
  have sound := (entered.sound.bindAlias openElement outsideCurrent name mutable).1
  obtain ⟨stopOpen, further⟩ := entered.sound.canonical_open openElement
  have stopOutside : (inner.canonical (place.child segment)).root.frame < outer.depth :=
    Nat.lt_of_le_of_lt further outside
  refine entered.bind sound (fun _ _ same => by cases same; exact stopOutside) ?_
  have elsewhere : (inner.canonical (place.child segment)).root ≠ .slot outer.depth name := by
    intro same
    rw [same] at stopOutside
    exact Nat.lt_irrefl _ stopOutside
  have bound : (inner.bindAlias name (place.child segment) mutable).binding? outer.depth name =
      some (.alias (inner.canonical (place.child segment)) mutable) := by
    rw [← entered.current]
    exact binding?_store_self inside name _
  refine shows_alias sound bound ?_ ?_
  · have carried := entered.carried_bind name (.alias (inner.canonical (place.child segment)) mutable)
    have kept := carried.agreeOn.resolve? entered.sound sound elsewhere
    have last := canonical_of_alias?_eq_none (entered.sound.canonical_last (place.child segment))
    have same : inner.resolve? (inner.canonical (place.child segment)) = inner.resolve? (place.child segment) := by
      rw [resolve?, last, resolve?]
    exact kept.trans (same.trans reads)
  · rw [Place.child, canonical_extend]
    exact owner?_extend _ _ (List.cons_ne_nil segment [])

theorem mixinsAt (entered : Entered outer shown inner) (frame : Nat) :
    inner.mixinsAt frame = if frame < outer.depth then outer.mixinsAt frame else [] := by
  split
  · rename_i outside
    obtain ⟨scope, frames⟩ := entered.within.frames_pushed
    have kept : (outer.frames ++ [scope])[frame]? = outer.frames[frame]? := List.getElem?_append_left outside
    rw [Context.mixinsAt, Context.mixinsAt, frames, kept]
  · rename_i inside
    rcases Nat.eq_or_lt_of_not_lt inside with rfl | beyond
    · exact entered.mixins
    · have missing : inner.frames[frame]? = none := by
        apply List.getElem?_eq_none
        have depth := entered.depth
        unfold Context.depth at depth beyond
        omega
      rw [Context.mixinsAt, missing]
      rfl

/-- Contexts that read alike still do after scopes have been opened in which the same can be read. -/
theorem readsAlike {first second firstInner secondInner : Context} (alike : ReadsAlike first second)
    (one : Entered first shown firstInner) (other : Entered second shown secondInner) :
    ReadsAlike firstInner secondInner := by
  have depth : firstInner.depth = secondInner.depth := by rw [one.depth, other.depth, alike.depth]
  refine ⟨one.sound, other.sound, depth, fun frame name => ?_, fun frame => ?_, ?_, ?_, ?_⟩
  · rcases Nat.lt_trichotomy frame first.depth with outside | rfl | beyond
    · have outsideTwin : frame < second.depth := alike.depth ▸ outside
      have kept : SlotAlike first firstInner frame name :=
        (one.carried_outer alike.sound).slotAlike alike.sound one.sound outside
      have keptTwin : SlotAlike second secondInner frame name :=
        (other.carried_outer alike.soundTwin).slotAlike alike.soundTwin other.sound outsideTwin
      exact kept.symm.trans ((alike.slots frame name).trans keptTwin)
    · cases found : shown name with
      | some value => exact (one.shows found).alike (alike.depth ▸ other.shows found)
      | none => exact slotAlike_of_unknown (one.hidden found) (alike.depth ▸ other.hidden found)
    · have unknown {inner : Context} (least : inner.depth = first.depth + 1) : inner.binding? frame name = none := by
        cases found : inner.binding? frame name with
        | none => rfl
        | some binding =>
          have inside := lt_depth_of_binding? (by rw [found]; rfl)
          omega
      exact slotAlike_of_unknown (unknown one.depth) (unknown (depth ▸ one.depth))
  · rw [one.mixinsAt, other.mixinsAt, alike.mixins, alike.depth]
  · rw [one.within.escapes, other.within.escapes]
    exact alike.escapes
  · exact one.within.limit.trans alike.unlimited.1
  · exact other.within.limit.trans alike.unlimited.2

end Entered

end HtmlTemplate.Context
