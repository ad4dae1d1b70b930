import HtmlTemplate.Proofs.Alias.Chains
import HtmlTemplate.Proofs.Rules.Running

/-! Aliases lead outwards to roots that exist, and chains of them end. A new alias leads to
the end of a chain that is not the name itself, so it closes no circle. -/

namespace HtmlTemplate.Context

structure Sound (context : Context) : Prop where
  opened : 0 < context.depth
  /-- An alias leads into the same scope or one further out, to a root that is there. -/
  targets : ∀ {frame name place mutable},
    context.binding? frame name = some (.alias place mutable) →
      place.root.frame ≤ frame ∧ context.IsOpen place.root
  ends : ∀ root, context.Ends root

/-- Meanwhile no scope has been closed, no name has been removed and no temporary dropped. -/
structure Extends (before after : Context) : Prop where
  depth : after.depth = before.depth
  roots : ∀ {root}, before.IsOpen root → after.IsOpen root

namespace Extends

theorem growth : Rules.Growth Extends where
  refl _ := ⟨rfl, id⟩
  trans first second :=
    ⟨second.depth.trans first.depth, fun isOpen => second.roots (first.roots isOpen)⟩

end Extends

/-! Chains after a change. -/

theorem aliasRoot?_congr {before after : Context} {frame : Nat} {name : String}
    (same : after.binding? frame name = before.binding? frame name) :
    after.aliasRoot? (.slot frame name) = before.aliasRoot? (.slot frame name) := by
  unfold aliasRoot?
  dsimp only
  rw [same]

theorem aliasRoot?_store_of_ne (context : Context) {frame : Nat} {name : String} {root : Root}
    (other : root ≠ .slot frame name) (binding : Binding) :
    (context.store frame name binding).aliasRoot? root = context.aliasRoot? root := by
  cases root with
  | temp otherFrame index => rfl
  | slot otherFrame word =>
    apply aliasRoot?_congr
    apply binding?_store_of_ne
    rintro ⟨rfl, rfl⟩
    exact other rfl

/-- A name that gets a meaning of its own is no alias. -/
theorem aliasRoot?_store_own (context : Context) (frame : Nat) (name : String) {binding : Binding}
    (own : ∀ place mutable, binding ≠ .alias place mutable) :
    (context.store frame name binding).aliasRoot? (.slot frame name) = none := by
  apply aliasRoot?_of_own
  intro place mutable found
  rcases binding?_store_cases found with ⟨-, -, same⟩ | ⟨different, -⟩
  · exact own place mutable same.symm
  · exact different ⟨rfl, rfl⟩

/-- Chains end as before where no alias has been added. -/
theorem Ends.of_fewer {before after : Context}
    (fewer : ∀ root, after.aliasRoot? root = none ∨ after.aliasRoot? root = before.aliasRoot? root)
    {root : Root} (ends : before.Ends root) : after.Ends root := by
  induction ends with
  | @here root last =>
    rcases fewer root with none | same
    · exact .here none
    · exact .here (same.trans last)
  | @next root target leads ends step =>
    rcases fewer root with none | same
    · exact .here none
    · exact .next (same.trans leads) step

/-- They do after an alias has been added that leads to the end of a chain. -/
theorem Ends.of_added {before after : Context} {added stop : Root}
    (leads : after.aliasRoot? added = some stop) (different : stop ≠ added)
    (last : before.aliasRoot? stop = none)
    (same : ∀ root, root ≠ added → after.aliasRoot? root = before.aliasRoot? root)
    {root : Root} (ends : before.Ends root) : after.Ends root := by
  have atAdded : after.Ends added := .next leads (.here ((same stop different).trans last))
  induction ends with
  | @here root final =>
    rcases Classical.em (root = added) with rfl | other
    · exact atAdded
    · exact .here ((same root other).trans final)
  | @next root target further ends step =>
    rcases Classical.em (root = added) with rfl | other
    · exact atAdded
    · exact .next ((same root other).trans further) step

namespace Sound

variable {context : Context}

theorem canonical_last (sound : context.Sound) (place : Place) :
    context.alias? (context.canonical place) = none :=
  (sound.ends place.root).canonical

theorem target_open (sound : context.Sound) {root target : Root}
    (leads : context.aliasRoot? root = some target) :
    context.IsOpen target ∧ target.frame ≤ root.frame := by
  cases root with
  | temp frame index => cases leads
  | slot frame name =>
    unfold aliasRoot? at leads
    dsimp only at leads
    split at leads
    · rename_i place mutable found
      obtain ⟨outer, isOpen⟩ := sound.targets found
      cases leads
      exact ⟨isOpen, outer⟩
    · cases leads

/-- Following aliases from a root that is there stays at such roots and goes no further in. -/
theorem followAliases_open (sound : context.Sound) (count : Nat) {place : Place}
    (isOpen : context.IsOpen place.root) :
    context.IsOpen (context.followAliases count place).1.root ∧
      (context.followAliases count place).1.root.frame ≤ place.root.frame := by
  induction count generalizing place with
  | zero => exact ⟨isOpen, Nat.le_refl _⟩
  | succ count step =>
    unfold followAliases
    split
    · exact ⟨isOpen, Nat.le_refl _⟩
    · rename_i target mutable leads
      obtain ⟨targetOpen, outer⟩ := sound.target_open (aliasRoot?_of_alias? leads)
      obtain ⟨stopOpen, further⟩ := step targetOpen
      exact ⟨stopOpen, Nat.le_trans further outer⟩

theorem canonical_open (sound : context.Sound) {place : Place} (isOpen : context.IsOpen place.root) :
    context.IsOpen (context.canonical place).root ∧
      (context.canonical place).root.frame ≤ place.root.frame :=
  sound.followAliases_open context.aliasBound isOpen

end Sound

/-- A place that has a value begins at a root that is there. -/
theorem isOpen_of_resolve? {context : Context} {place : Place} {value : Value}
    (found : context.resolve? place = some value) :
    context.IsOpen (context.canonical place).root := by
  unfold resolve? at found
  obtain ⟨atRoot, known, -⟩ := Option.bind_eq_some_iff.mp found
  cases root : (context.canonical place).root with
  | slot frame name =>
    rw [root] at known
    unfold rootValue? at known
    dsimp only at known
    split at known
    · rename_i source owner bound
      change (context.binding? frame name).isSome = true
      rw [bound]
      rfl
    · cases known
  | temp frame index =>
    rw [root] at known
    obtain ⟨scope, found, stored⟩ := Option.bind_eq_some_iff.mp known
    exact ⟨scope, found, (List.getElem?_eq_some_iff.mp stored).1⟩

/-! What keeps aliases sound. -/

namespace Sound

variable {before after : Context}

/-- Changes that leave all names as they are. -/
theorem of_same (sound : before.Sound)
    (same : ∀ frame name, after.binding? frame name = before.binding? frame name)
    (grown : before.Extends after) : after.Sound ∧ before.Extends after := by
  refine ⟨⟨?_, ?_, ?_⟩, grown⟩
  · rw [grown.depth]
    exact sound.opened
  · intro frame name place mutable found
    rw [same] at found
    obtain ⟨outer, isOpen⟩ := sound.targets found
    exact ⟨outer, grown.roots isOpen⟩
  · intro root
    apply (sound.ends root).of_fewer
    intro root
    cases root with
    | temp frame index => exact .inl rfl
    | slot frame name => exact .inr (aliasRoot?_congr (same frame name))

theorem of_frames (sound : before.Sound) (same : after.frames = before.frames) :
    after.Sound ∧ before.Extends after := by
  have names (frame : Nat) (name : String) : after.binding? frame name = before.binding? frame name := by
    rw [binding?_eq, binding?_eq, same]
  apply sound.of_same names
  refine ⟨by rw [depth, same, depth], ?_⟩
  intro root isOpen
  cases root with
  | slot frame name =>
    change (after.binding? frame name).isSome = true
    rw [names]
    exact isOpen
  | temp frame index =>
    obtain ⟨scope, found, within⟩ := isOpen
    exact ⟨scope, by rw [same, found], within⟩

/-- Changes of one scope that leave its names as they are and keep its temporaries. -/
theorem modifyFrame (sound : before.Sound) (index : Nat) (change : Frame → Frame)
    (same : ∀ scope, (change scope).bindings = scope.bindings)
    (temps : ∀ scope, scope.temps.length ≤ (change scope).temps.length) :
    (before.modifyFrame index change).Sound ∧ before.Extends (before.modifyFrame index change) := by
  apply sound.of_same (binding?_modifyFrame same)
  refine ⟨depth_modifyFrame .., fun isOpen => isOpen_modifyFrame ?_ temps isOpen⟩
  intro scope name known
  rwa [same]

theorem extends_store (context : Context) (frame : Nat) (name : String) (binding : Binding) :
    context.Extends (context.store frame name binding) :=
  ⟨depth_modifyFrame .., fun isOpen => isOpen_store isOpen frame name binding⟩

/-- A name gets a meaning of its own. -/
theorem store (sound : before.Sound) (frame : Nat) (name : String) {binding : Binding}
    (own : ∀ place mutable, binding ≠ .alias place mutable) :
    (before.store frame name binding).Sound ∧ before.Extends (before.store frame name binding) := by
  have grown := extends_store before frame name binding
  refine ⟨⟨?_, ?_, ?_⟩, grown⟩
  · rw [grown.depth]
    exact sound.opened
  · intro other word place mutable found
    rcases binding?_store_cases found with ⟨-, -, eq⟩ | ⟨-, earlier⟩
    · exact absurd eq.symm (own place mutable)
    · obtain ⟨outer, isOpen⟩ := sound.targets earlier
      exact ⟨outer, grown.roots isOpen⟩
  · intro root
    apply (sound.ends root).of_fewer
    intro root
    by_cases here : root = .slot frame name
    · rw [here]
      exact .inl (aliasRoot?_store_own before frame name own)
    · exact .inr (aliasRoot?_store_of_ne before here binding)

/-- A name becomes an alias of the end of a chain further out that is not the name itself. -/
theorem storeAlias (sound : before.Sound) {frame : Nat} {name : String} {place : Place}
    (mutable : Bool) (outer : place.root.frame ≤ frame) (isOpen : before.IsOpen place.root)
    (last : before.alias? place = none) (different : place.root ≠ .slot frame name) :
    (before.store frame name (.alias place mutable)).Sound ∧
      before.Extends (before.store frame name (.alias place mutable)) := by
  have grown := extends_store before frame name (.alias place mutable)
  refine ⟨⟨?_, ?_, ?_⟩, grown⟩
  · rw [grown.depth]
    exact sound.opened
  · intro other word target writable found
    rcases binding?_store_cases found with ⟨rfl, -, eq⟩ | ⟨-, earlier⟩
    · cases eq
      exact ⟨outer, grown.roots isOpen⟩
    · obtain ⟨outer, isOpen⟩ := sound.targets earlier
      exact ⟨outer, grown.roots isOpen⟩
  · intro root
    have elsewhere (root : Root) (other : root ≠ .slot frame name) :=
      aliasRoot?_store_of_ne before other (.alias place mutable)
    rcases Nat.lt_or_ge frame before.depth with inside | outside
    · apply (sound.ends root).of_added ?_ different
        ((before.aliasRoot?_eq_none_iff place).mpr last) elsewhere
      exact aliasRoot?_of_binding (binding?_store_self inside name _)
    · -- There is no such scope, so nothing has been stored.
      apply (sound.ends root).of_fewer
      intro root
      by_cases here : root = .slot frame name
      · left
        rw [here]
        apply aliasRoot?_of_own
        intro target writable found
        have within := lt_depth_of_binding? (by rw [found]; rfl)
        rw [grown.depth] at within
        omega
      · exact .inr (elsewhere root here)

/-! Everything that a run does. -/

theorem setRoot (sound : before.Sound) (root : Root) (value : Value) :
    (before.setRoot root value).Sound ∧ before.Extends (before.setRoot root value) := by
  cases root with
  | slot frame name =>
    unfold Context.setRoot
    dsimp only
    split
    · exact sound.store frame name nofun
    · exact sound.of_frames rfl
    · exact ⟨sound, Extends.growth.refl before⟩
  | temp frame index =>
    exact sound.modifyFrame frame (fun scope => { scope with temps := scope.temps.set index value })
      (fun _ => rfl) fun _ => Nat.le_of_eq List.length_set.symm

theorem write? (sound : before.Sound) {place : Place} {value : Value}
    (done : before.write? place value = some after) : after.Sound ∧ before.Extends after := by
  obtain ⟨root, replaced, rfl⟩ := setRoot_of_write? done
  exact sound.setRoot root replaced

/-- An assignment makes an alias only of a container that is there, further out, and not in
the variable itself; functions and classes stay what they are, and other values are copied. -/
theorem bindingFor_cases (context : Context) (frame : Nat) (name : String) (value : Handle) :
    (∃ source container mutable, value.place? = some source ∧
      context.resolve? source = some container ∧
      Assignment.bindingFor context frame name value = .alias (context.canonical source) mutable ∧
      (context.canonical source).root ≠ .slot frame name ∧
      (context.canonical source).root.frame ≤ frame) ∨
    Assignment.bindingFor context frame name value = .ofValue (context.valueOf value) ∨
    context.valueOf value = .null ∧
      ((∃ function, Assignment.bindingFor context frame name value = .function function) ∨
        ∃ hostClass, Assignment.bindingFor context frame name value = .hostClass hostClass) := by
  unfold Assignment.bindingFor
  split
  · exact .inr (.inr ⟨rfl, .inl ⟨_, rfl⟩⟩)
  · exact .inr (.inr ⟨rfl, .inr ⟨_, rfl⟩⟩)
  · split
    · rename_i source leads
      dsimp only
      split
      · rename_i conditions
        simp only [Bool.and_eq_true, decide_eq_true_eq, bne_iff_ne, Option.any_eq_true] at conditions
        obtain ⟨⟨⟨container, found, -⟩, different⟩, outer⟩ := conditions
        exact .inl ⟨source, container, _, leads, found, rfl, different, outer⟩
      · exact .inr (.inl rfl)
    · exact .inr (.inl rfl)

theorem assigned (sound : before.Sound) (frame : Nat) (name : String) (value : Handle) :
    (before.store frame name (Assignment.bindingFor before frame name value)).Sound ∧
      before.Extends (before.store frame name (Assignment.bindingFor before frame name value)) := by
  rcases bindingFor_cases before frame name value with
    ⟨source, container, mutable, -, found, binding, different, outer⟩ | binding |
      ⟨-, ⟨function, binding⟩ | ⟨hostClass, binding⟩⟩
  · rw [binding]
    exact sound.storeAlias mutable outer (isOpen_of_resolve? found) (sound.canonical_last source)
      different
  · rw [binding]
    exact sound.store frame name nofun
  · rw [binding]
    exact sound.store frame name nofun
  · rw [binding]
    exact sound.store frame name nofun

theorem writes (sound : before.Sound) (step : Rules.Writes before after) :
    after.Sound ∧ before.Extends after := by
  cases step with
  | assigned value owned => exact sound.assigned _ _ value
  | declared fresh => exact sound.store _ _ nofun
  | filled unset => exact sound.store _ _ nofun
  | written mutable done => exact sound.write? done

theorem pushTemp (sound : before.Sound) (value : Value) :
    (before.pushTemp value).2.Sound ∧ before.Extends (before.pushTemp value).2 :=
  sound.modifyFrame before.current (fun scope => { scope with temps := scope.temps ++ [value] })
    (fun _ => rfl) fun _ => by simp

theorem defineMixin (sound : before.Sound) {mixin : Mixin}
    (defined : before.defineMixin mixin = .ok after) : after.Sound ∧ before.Extends after := by
  unfold Context.defineMixin at defined
  split at defined
  · cases defined
  · cases defined
    exact sound.modifyFrame before.current
      (fun scope => { scope with mixins := scope.mixins.insert mixin.name mixin })
      (fun _ => rfl) fun _ => Nat.le_refl _

theorem pushScope (sound : before.Sound) : before.pushScope.Sound := by
  refine ⟨?_, ?_, ?_⟩
  · rw [depth_pushScope]
    exact Nat.succ_pos _
  · intro frame name place mutable found
    rw [binding?_pushScope] at found
    obtain ⟨outer, isOpen⟩ := sound.targets found
    exact ⟨outer, isOpen_pushScope isOpen⟩
  · intro root
    apply (sound.ends root).of_fewer
    intro root
    cases root with
    | temp frame index => exact .inl rfl
    | slot frame name => exact .inr (aliasRoot?_congr (binding?_pushScope ..))

/-- No alias of a scope that stays open leads into the one that is closed. -/
theorem popScope (sound : before.Sound) : before.popScope.Sound := by
  rcases Nat.lt_or_ge 1 before.depth with inner | outermost
  · refine ⟨?_, ?_, ?_⟩
    · rw [depth_popScope inner]
      omega
    · intro frame name place mutable found
      rw [binding?_popScope inner] at found
      split at found
      · rename_i stays
        obtain ⟨outer, isOpen⟩ := sound.targets found
        exact ⟨outer, isOpen_popScope inner (Nat.lt_of_le_of_lt outer stays) isOpen⟩
      · cases found
    · intro root
      apply (sound.ends root).of_fewer
      intro root
      cases root with
      | temp frame index => exact .inl rfl
      | slot frame name =>
        rcases Nat.lt_or_ge frame (before.depth - 1) with stays | closed
        · right
          apply aliasRoot?_congr
          rw [binding?_popScope inner, if_pos stays]
        · left
          unfold aliasRoot?
          dsimp only
          rw [binding?_popScope inner, if_neg (Nat.not_lt.mpr closed)]
  · have same : before.popScope = before := by rw [Context.popScope, if_neg (Nat.not_lt.mpr outermost)]
    rw [same]
    exact sound

theorem extends_closed (sound : before.Sound) {inner : Context}
    (related : before.pushScope.Extends inner) : before.Extends inner.popScope := by
  have depth : inner.depth = before.depth + 1 := by rw [related.depth, depth_pushScope]
  have opened := sound.opened
  refine ⟨?_, fun isOpen => ?_⟩
  · rw [depth_popScope (by omega)]
    omega
  · have outer := isOpen.lt_depth
    exact isOpen_popScope (by omega) (by omega) (related.roots (isOpen_pushScope isOpen))

/-- A loop goes over a place that begins at a root that is there. -/
theorem element_open (sound : before.Sound) {handle : Handle} {place : Place} {mutable : Bool}
    (element : Rules.Element (before.loopSource handle).1 place mutable) :
    (before.loopSource handle).2.IsOpen place.root := by
  have located : ∀ (context : Context) (base : Place) (writable : Bool),
      context.alias? base = none → Rules.Element (context.loopAt base writable) place mutable →
      context.IsOpen place.root := by
    intro context base writable last element
    unfold loopAt at element
    have same : ∀ value, context.resolve? base = some value → context.IsOpen base.root := by
      intro value found
      have isOpen := isOpen_of_resolve? found
      rwa [canonical_of_alias?_eq_none last] at isOpen
    split at element
    · rename_i items found
      split at element
      · cases element
      · cases element
        exact same _ found
    · rename_i entries found
      split at element
      · cases element
      · cases element
        exact same _ found
    · cases element
    · cases element
    · cases element
  unfold loopSource at element ⊢
  split at element
  · cases element
  · split at element
    · rename_i value _ container
      rw [if_pos container]
      exact located _ _ _ rfl element
    · cases element
  · rename_i handle _ _
    split at element
    · rename_i source found
      dsimp only
      exact located _ _ _ (sound.canonical_last source) element
    · cases element

/-- A loop variable is an alias in a scope that has been opened since. -/
theorem bindAlias (sound : before.Sound) {place : Place} (isOpen : before.IsOpen place.root)
    (outer : place.root.frame < before.current) (name : String) (mutable : Bool) :
    (before.bindAlias name place mutable).Sound ∧
      before.Extends (before.bindAlias name place mutable) := by
  obtain ⟨stopOpen, further⟩ := sound.canonical_open isOpen
  have outside : (before.canonical place).root.frame < before.current := Nat.lt_of_le_of_lt further outer
  apply sound.storeAlias mutable (Nat.le_of_lt outside) stopOpen (sound.canonical_last place)
  intro same
  rw [same] at outside
  exact Nat.lt_irrefl _ outside

end Sound

theorem sound_written : Rules.Kept Sound Extends where
  growth := Extends.growth
  writes sound step := sound.writes step

theorem sound_kept : Rules.ScopesKept Sound Extends where
  growth := Extends.growth
  evaluated := Rules.eval_stays sound_written
  listed := Rules.evalItems_stays sound_written
  reported _ _ sound := sound.of_frames rfl
  refused _ sound := sound.of_frames rfl
  counted _ sound := sound.of_frames rfl
  told sound _ := sound.of_frames rfl
  taken _ sound := sound.of_frames rfl
  forgotten _ sound := sound.of_frames rfl
  named _ _ _ sound := sound.store _ _ nofun
  stored value _ sound := sound.pushTemp value
  defined sound done := sound.defineMixin done
  opened sound := sound.pushScope
  closed sound inner related := ⟨inner.popScope, sound.extends_closed related⟩
  aliased := by
    intro start handle later inner place mutable sound element laterSound related innerSound grown name
    have isOpen := related.roots (sound.element_open element)
    have depth : inner.depth = later.depth + 1 := by rw [grown.depth, depth_pushScope]
    have outer := isOpen.lt_depth
    apply innerSound.bindAlias (grown.roots (isOpen_pushScope isOpen))
    rw [current, depth]
    exact outer

/-! The contexts that a host can come to, and the aliases in them. -/

/-- What a host can make of a new context: with bindings and settings of its own, by opening
and closing scopes, and by evaluating expressions, calling mixins and running templates in
any order; and what such a run comes to on its way. A host binds no aliases itself, but a loop
does, in each of its passes. -/
inductive Reachable : Context → Prop where
  | new : Reachable .new
  | set {context : Context} (reachable : Reachable context) (name : String) (value : Value) :
      Reachable (context.set name value)
  | lend {context : Context} (reachable : Reachable context) (name : String) (value : Value) :
      Reachable (context.lend name value)
  | share {context : Context} (reachable : Reachable context) (name : String) (value : Value) :
      Reachable (context.share name value)
  | setObject {context : Context} (reachable : Reachable context) (name : String) (value : Value)
      (owner : HostClass) : Reachable (context.setObject name value owner)
  | setFunction {context : Context} (reachable : Reachable context) (name : String)
      (function : HostFunction) : Reachable (context.setFunction name function)
  | setClass {context : Context} (reachable : Reachable context) (hostClass : HostClass) :
      Reachable (context.setClass hostClass)
  | configure {context : Context} (reachable : Reachable context) (loader : String → Loaded)
      (escapeOutput : Bool) (stepLimit : Option Nat) (steps : Nat) (reports : Reports) :
      Reachable { context with loader, escapeOutput, stepLimit, steps, reports }
  | pushScope {context : Context} (reachable : Reachable context) : Reachable context.pushScope
  | popScope {context : Context} (reachable : Reachable context) : Reachable context.popScope
  | pushTemp {context : Context} (reachable : Reachable context) (value : Value) :
      Reachable (context.pushTemp value).2
  | eval {context : Context} (reachable : Reachable context) (mode : EvalMode) (expr : Expr) :
      Reachable (Eval.eval mode expr context).2
  | evaluate {context : Context} (reachable : Reachable context) (mode : EvalMode) (expr : Expr) :
      Reachable (context.evaluate mode expr).2
  | evalItems {context : Context} (reachable : Reachable context) (mode : EvalMode) (items : List Expr) :
      Reachable (Eval.evalItems mode items context).2
  | execArguments {context : Context} (reachable : Reachable context) (arguments : Expr) :
      Reachable (context.execArguments arguments).2
  | loopSource {context : Context} (reachable : Reachable context) (handle : Handle) :
      Reachable (context.loopSource handle).2
  /-- Some passes after a loop has begun, the scope of another one has been opened, and its variable
  is bound to an element. -/
  | bindElement {start later inner : Context} {handle : Handle} {place : Place} {mutable : Bool}
      (begun : Reachable start) (element : Rules.Element (start.loopSource handle).1 place mutable)
      (passed : Reachable later) (since : (start.loopSource handle).2.Extends later)
      (opened : Reachable inner) (within : later.pushScope.Extends inner) (name : String) :
      Reachable (inner.bindAlias name place mutable)
  | step {context : Context} (reachable : Reachable context) : Reachable context.step.2
  | defineMixin {context after : Context} (reachable : Reachable context) {mixin : Mixin}
      (defined : context.defineMixin mixin = .ok after) : Reachable after
  | enter {context : Context} (reachable : Reachable context) (mixin : Mixin)
      (arguments : List Value) : Reachable (mixin.enter arguments context).2
  | run {context : Context} (reachable : Reachable context) (template : Template) (bound : Nat)
      (sink : Sink) : Reachable (template.run bound context sink).2.context
  | runIncluded {context : Context} (reachable : Reachable context) (bound : Nat) (name : String)
      (sink : Sink) : Reachable (context.runIncluded bound name sink).2.context

theorem sound_new : Context.new.Sound where
  opened := Nat.one_pos
  targets := by
    intro frame name place mutable found
    cases frame <;> cases found
  ends := by
    intro root
    apply Ends.here
    cases root with
    | temp frame index => rfl
    | slot frame name => cases frame <;> rfl

theorem Sound.bind {context : Context} (sound : context.Sound) (name : String) {binding : Binding}
    (own : ∀ place mutable, binding ≠ .alias place mutable) : (context.bind name binding).Sound :=
  (sound.store _ name own).1

theorem Sound.congr {before after : Context} (sound : before.Sound)
    (same : after.frames = before.frames) : after.Sound :=
  (sound.of_frames same).1

/-- An invariant that is kept by what a host does to a context outside of runs. -/
structure HostKept (valid : Context → Prop) : Prop where
  new : valid .new
  bound : ∀ {context : Context} (name : String) {binding : Binding}, valid context →
    (∀ place mutable, binding ≠ .alias place mutable) →
    (∀ index owner, binding ≠ .value (.hosted index) owner) → valid (context.bind name binding)
  shared : ∀ {context : Context} (name : String) (value : Value), valid context →
    valid (context.share name value)
  configured : ∀ {context : Context} (loader : String → Loaded) (escapeOutput : Bool)
    (stepLimit : Option Nat) (steps : Nat) (reports : Reports), valid context →
    valid { context with loader, escapeOutput, stepLimit, steps, reports }
  popped : ∀ {context : Context}, valid context → valid context.popScope

/-- What a host keeps and a run keeps holds of every context that a host can come to. -/
theorem Reachable.of_kept {valid : Context → Prop} {grows : Context → Context → Prop}
    (kept : Rules.ScopesKept valid grows) (host : HostKept valid)
    (extending : ∀ {before after : Context}, before.Extends after → grows before after) {context : Context}
    (reachable : Reachable context) : valid context := by
  induction reachable with
  | new => exact host.new
  | set _ name value holds => exact host.bound name holds (by nofun) (by nofun)
  | lend _ name value holds => exact host.bound name holds (by nofun) (by nofun)
  | share _ name value holds => exact host.shared name value holds
  | setObject _ name value owner holds => exact host.bound name holds (by nofun) (by nofun)
  | setFunction _ name function holds => exact host.bound name holds (by nofun) (by nofun)
  | setClass _ hostClass holds => exact host.bound hostClass.name holds (by nofun) (by nofun)
  | configure _ loader escapeOutput stepLimit steps reports holds =>
    exact host.configured loader escapeOutput stepLimit steps reports holds
  | pushScope _ holds => exact kept.opened holds
  | popScope _ holds => exact host.popped holds
  | pushTemp _ value holds => exact (kept.stored value _ holds).1
  | eval _ mode expr holds => exact (kept.evaluated mode expr _ holds).1
  | evaluate _ mode expr holds => exact (Rules.evaluate_acts kept.toContextKept mode expr _ holds).1
  | evalItems _ mode items holds => exact (kept.listed mode items _ holds).1
  | execArguments _ arguments holds =>
    exact (Rules.execArguments_acts kept.toContextKept arguments _ holds).1
  | loopSource _ handle holds => exact (Rules.loopSource_acts kept.toContextKept handle _ holds).1
  | bindElement _ element _ since _ within name begun passed opened =>
    exact (kept.aliased begun element passed (extending since) opened (extending within) name).1
  | step _ holds => exact (Rules.step_acts kept.growth kept.toStepsKept _ holds).1
  | defineMixin _ defined holds => exact (kept.defined holds defined).1
  | @enter context _ mixin arguments holds =>
    have bound := (Rules.bindParameters_acts kept.toContextKept mixin.name mixin.parameters arguments
      context.pushScope (kept.opened holds)).1
    unfold Mixin.enter
    split
    · rename_i entered eq
      rwa [eq] at bound
    · rename_i refused eq
      rw [eq] at bound
      exact host.popped bound
  | run _ template bound sink holds =>
    exact (Rules.template_run_keeps kept template bound holds sink).1
  | runIncluded _ bound name sink holds =>
    have stays := Rules.included_stays kept.run (Rules.run_stays kept.run bound) name
    exact (stays _ holds).1

theorem sound_host : HostKept Sound where
  new := sound_new
  bound name _ sound own _ := sound.bind name own
  shared {context} name value sound := by
    have lent : Sound { context with hosted := context.hosted ++ [value] } := sound.congr rfl
    exact lent.bind name (by nofun)
  configured _ _ _ _ _ sound := sound.congr rfl
  popped sound := sound.popScope

theorem Reachable.sound {context : Context} (reachable : Reachable context) : context.Sound :=
  reachable.of_kept sound_kept sound_host id

/-- Another setting, or another report. -/
theorem Reachable.of_frames {before after : Context} (reachable : Reachable before)
    (frames : after.frames = before.frames) (hosted : after.hosted = before.hosted) :
    Reachable after ∧ before.Extends after := by
  refine ⟨?_, (reachable.sound.of_frames frames).2⟩
  cases after
  cases frames
  cases hosted
  exact .configure reachable ..

/-- All that a run does in a context that a host can come to leads to others, at every point of the run. -/
theorem reachable_kept : Rules.ScopesKept Reachable Extends where
  growth := Extends.growth
  evaluated mode expr context reachable :=
    ⟨.eval reachable mode expr, (Rules.eval_stays sound_written mode expr context reachable.sound).2⟩
  listed mode items context reachable :=
    ⟨.evalItems reachable mode items, (Rules.evalItems_stays sound_written mode items context reachable.sound).2⟩
  reported _ _ reachable := reachable.of_frames rfl rfl
  refused _ reachable := reachable.of_frames rfl rfl
  counted _ reachable := reachable.of_frames rfl rfl
  told reachable _ := reachable.of_frames rfl rfl
  taken _ reachable := reachable.of_frames rfl rfl
  forgotten _ reachable := reachable.of_frames rfl rfl
  named name value _ reachable := ⟨.set reachable name value, Sound.extends_store ..⟩
  stored value _ reachable := ⟨.pushTemp reachable value, (reachable.sound.pushTemp value).2⟩
  defined reachable done := ⟨.defineMixin reachable done, (reachable.sound.defineMixin done).2⟩
  opened reachable := .pushScope reachable
  closed reachable inner related := ⟨.popScope inner, reachable.sound.extends_closed related⟩
  aliased begun element passed since opened within name :=
    ⟨.bindElement begun element passed since opened within name,
      (sound_kept.aliased begun.sound element passed.sound since opened.sound within name).2⟩

/-- So the body of a loop is run in such a context, too, whose variable is an element of what the loop
goes over. -/
theorem Reachable.enterElement {start later : Context} {handle : Handle} {place : Place} {length : Nat}
    {mutable : Bool} (begun : Reachable start)
    (source : (start.loopSource handle).1 = .array place length mutable) {position : Nat} (inside : position < length)
    (passed : Reachable later) (since : (start.loopSource handle).2.Extends later) (item : String)
    (key : Option String) :
    Reachable (Render.enterElement item key place mutable position later.pushScope) :=
  (@Rules.enterElement_enters _ _ reachable_kept.run ⟨start, .unlimited, []⟩ handle begun place length mutable
    source position inside ⟨later, .unlimited, []⟩ passed since item key).1

/-- In every context that a host can come to, and inside of loops too, aliases lead outwards to
roots that are there, every chain of them ends, and following it with the bound of the context, or
any larger one, comes to its end. -/
theorem reachable_aliases {context : Context} (reachable : Reachable context) :
    (∀ frame name place mutable, context.binding? frame name = some (.alias place mutable) →
      place.root.frame ≤ frame ∧ context.IsOpen place.root) ∧
    (∀ root, context.Ends root) ∧
    ∀ place count, context.aliasBound ≤ count →
      context.followAliases count place = context.followAliases context.aliasBound place ∧
      context.alias? (context.followAliases count place).1 = none := by
  have sound := reachable.sound
  refine ⟨fun frame name place mutable found => sound.targets found, sound.ends, ?_⟩
  intro place count enough
  exact (sound.ends place.root).followAliases enough

/-- A declared name that has been assigned an array of the host. -/
def assigned : Context :=
  ((Context.new.set "list" (.array [.null])).pushScope.evaluate .strict
    (.binary .assign (.unary .declare (.name "copy")) (.name "list"))).2

theorem assigned_aliases :
    assigned.aliasRoot? (.slot 1 "copy") = some (.slot 0 "list") ∧
    ((∀ frame name place mutable, assigned.binding? frame name = some (.alias place mutable) →
      place.root.frame ≤ frame ∧ assigned.IsOpen place.root) ∧
    (∀ root, assigned.Ends root) ∧
    ∀ place count, assigned.aliasBound ≤ count →
      assigned.followAliases count place = assigned.followAliases assigned.aliasBound place ∧
      assigned.alias? (assigned.followAliases count place).1 = none) := by
  refine ⟨?_, reachable_aliases (.evaluate (.pushScope (.set .new _ _)) _ _)⟩
  decide +kernel

end HtmlTemplate.Context
