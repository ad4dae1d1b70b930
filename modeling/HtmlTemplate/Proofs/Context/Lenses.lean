import HtmlTemplate.Proofs.Alias.Reachable
import HtmlTemplate.Proofs.Alias.Rebinding
import HtmlTemplate.Proofs.Failing.Leftovers
import HtmlTemplate.Proofs.Hidden.Fences

/-! What the host has lent for writing. No two names share a value of the host: a run makes no name
stand for such a value, and a host lends each value to one name. -/

namespace HtmlTemplate

namespace Context

/-- Names stand for values of the host that are there, each for one of its own. -/
structure Hosting (context : Context) : Prop where
  apart : context.Apart
  within : ∀ {frame name index owner}, context.binding? frame name = some (.value (.hosted index) owner) →
    index < context.hosted.length

namespace Hosting

variable {before after : Context}

/-- Names that stand for values of the host go away, and no others come. -/
theorem of_fewer (hosting : before.Hosting) (length : after.hosted.length = before.hosted.length)
    (fewer : ∀ {frame name index owner}, after.binding? frame name = some (.value (.hosted index) owner) →
      before.binding? frame name = some (.value (.hosted index) owner)) : after.Hosting where
  apart one other := hosting.apart (fewer one) (fewer other)
  within found := by
    rw [length]
    exact hosting.within (fewer found)

theorem of_same (hosting : before.Hosting) (hosted : after.hosted = before.hosted)
    (same : ∀ frame name, after.binding? frame name = before.binding? frame name) : after.Hosting := by
  apply hosting.of_fewer (by rw [hosted])
  intro frame name index owner found
  rwa [same] at found

theorem store (hosting : before.Hosting) (frame : Nat) (name : String) {binding : Binding}
    (own : ∀ index owner, binding ≠ .value (.hosted index) owner) :
    (before.store frame name binding).Hosting := by
  have length : (before.store frame name binding).hosted.length = before.hosted.length := rfl
  apply hosting.of_fewer length
  intro other word index owner found
  rcases binding?_store_cases found with ⟨-, -, same⟩ | ⟨-, earlier⟩
  · exact absurd same.symm (own index owner)
  · exact earlier

theorem length_hosted_setRoot (context : Context) (root : Root) (value : Value) :
    (context.setRoot root value).hosted.length = context.hosted.length := by
  cases root with
  | temp frame index => rfl
  | slot frame name =>
    unfold Context.setRoot
    dsimp only
    split
    · rfl
    · exact List.length_set
    · rfl

theorem setRoot (hosting : before.Hosting) (root : Root) (value : Value) :
    (before.setRoot root value).Hosting :=
  hosting.of_fewer (length_hosted_setRoot before root value) hosted_of_setRoot

theorem popScope (hosting : before.Hosting) : before.popScope.Hosting := by
  by_cases inner : 1 < before.depth
  · have hosted : before.popScope.hosted = before.hosted := by
      unfold Context.popScope
      rw [if_pos inner]
    apply hosting.of_fewer (by rw [hosted])
    intro frame name index owner found
    rw [binding?_popScope inner] at found
    split at found
    · exact found
    · cases found
  · rwa [Context.popScope, if_neg inner]

/-- The host keeps what it lends apart from all that it has lent before. -/
theorem share (hosting : before.Hosting) (name : String) (value : Value) :
    (before.share name value).Hosting := by
  have cases_of {frame : Nat} {word : String} {index : Nat} {owner : Option HostClass}
      (found : (before.share name value).binding? frame word = some (.value (.hosted index) owner)) :
      frame = before.current ∧ word = name ∧ index = before.hosted.length ∨
        before.binding? frame word = some (.value (.hosted index) owner) := by
    rcases binding?_store_cases found with ⟨here, named, same⟩ | ⟨-, known⟩
    · cases same
      exact .inl ⟨here, named, rfl⟩
    · exact .inr known
  have grown : (before.share name value).hosted.length = before.hosted.length + 1 := List.length_append
  constructor
  · intro frame other word second index owner ownerOther found foundOther
    rcases cases_of found with ⟨rfl, rfl, rfl⟩ | known
    · rcases cases_of foundOther with ⟨rfl, rfl, -⟩ | knownOther
      · exact ⟨rfl, rfl⟩
      · exact absurd (hosting.within knownOther) (Nat.lt_irrefl _)
    · rcases cases_of foundOther with ⟨-, -, rfl⟩ | knownOther
      · exact absurd (hosting.within known) (Nat.lt_irrefl _)
      · exact hosting.apart known knownOther
  · intro frame word index owner found
    rw [grown]
    rcases cases_of found with ⟨-, -, rfl⟩ | known
    · exact Nat.lt_succ_self _
    · exact Nat.lt_succ_of_lt (hosting.within known)

/-- What is assigned to a name is never a value that the host keeps. -/
theorem bindingFor_own (context : Context) (frame : Nat) (name : String) (value : Handle) (index : Nat)
    (owner : Option HostClass) :
    Assignment.bindingFor context frame name value ≠ .value (.hosted index) owner := by
  rcases Sound.bindingFor_cases context frame name value with
    ⟨source, container, mutable, -, -, binding, -⟩ | binding | ⟨-, ⟨function, binding⟩ | ⟨hostClass, binding⟩⟩
  all_goals
    rw [binding]
    nofun

theorem writes (hosting : before.Hosting) (step : Rules.Writes before after) : after.Hosting := by
  cases step with
  | assigned value owned => exact hosting.store _ _ (bindingFor_own before _ _ value)
  | declared fresh => exact hosting.store _ _ (by nofun)
  | filled unset => exact hosting.store _ _ (by nofun)
  | written mutable done =>
    obtain ⟨root, replaced, rfl⟩ := setRoot_of_write? done
    exact hosting.setRoot root replaced

end Hosting

theorem hosting_written : Rules.Kept Hosting fun _ _ => True where
  growth := ⟨fun _ => trivial, fun _ _ => trivial⟩
  writes hosting step := ⟨hosting.writes step, trivial⟩

theorem hosting_kept : Rules.ScopesKept Hosting fun _ _ => True where
  growth := hosting_written.growth
  evaluated := Rules.eval_stays hosting_written
  listed := Rules.evalItems_stays hosting_written
  reported _ _ hosting := ⟨hosting.of_same rfl fun _ _ => rfl, trivial⟩
  refused _ hosting := ⟨hosting.of_same rfl fun _ _ => rfl, trivial⟩
  counted _ hosting := ⟨hosting.of_same rfl fun _ _ => rfl, trivial⟩
  told hosting _ := ⟨hosting.of_same rfl fun _ _ => rfl, trivial⟩
  taken _ hosting := ⟨hosting.of_same rfl fun _ _ => rfl, trivial⟩
  forgotten _ hosting := ⟨hosting.of_same rfl fun _ _ => rfl, trivial⟩
  named _ _ _ hosting := ⟨hosting.store _ _ (by nofun), trivial⟩
  stored _ _ hosting := ⟨hosting.of_same rfl (binding?_modifyFrame fun _ => rfl), trivial⟩
  defined := by
    intro context after mixin hosting defined
    unfold defineMixin at defined
    split at defined
    · cases defined
    · cases defined
      exact ⟨hosting.of_same rfl (binding?_modifyFrame fun _ => rfl), trivial⟩
  opened hosting := hosting.of_same rfl (binding?_pushScope _)
  closed _ inner _ := ⟨inner.popScope, trivial⟩
  aliased _ _ _ _ inner _ _ := ⟨inner.store _ _ (by nofun), trivial⟩

theorem hosting_new : Context.new.Hosting := by
  have unbound {frame : Nat} {name : String} {binding : Binding} :
      Context.new.binding? frame name ≠ some binding := by
    cases frame <;> nofun
  exact ⟨fun one _ => absurd one unbound, fun found => absurd found unbound⟩

theorem hosting_host : HostKept Hosting where
  new := hosting_new
  bound _ _ hosting _ own := hosting.store _ _ own
  shared name value hosting := hosting.share name value
  configured _ _ _ _ _ hosting := hosting.of_same rfl fun _ _ => rfl
  popped hosting := hosting.popScope

theorem Reachable.hosting {context : Context} (reachable : Reachable context) : context.Hosting :=
  reachable.of_kept hosting_kept hosting_host fun _ => trivial

end Context

/-! Writing at a place. What has been put there is read back, the value at the root differs at the
path and nowhere else, and nothing that is kept elsewhere is touched. -/

namespace Value

/-- Two values are the same except at the end of a path, where one has been changed into the other. -/
inductive ChangedAt (change : Value → Value → Prop) : List Segment → Value → Value → Prop where
  | here {old new : Value} (changed : change old new) : ChangedAt change [] old new
  | key {name : String} {path : List Segment} {entries later : Entries Value} {old new : Value}
      (found : entries.lookup name = some old) (put : later.lookup name = some new)
      (beside : ∀ other, other ≠ name → later.lookup other = entries.lookup other)
      (further : ChangedAt change path old new) :
      ChangedAt change (.key name :: path) (.dict entries) (.dict later)
  | index {position : Nat} {path : List Segment} {items later : List Value} {old new : Value}
      (found : items[position]? = some old) (put : later[position]? = some new)
      (length : later.length = items.length)
      (beside : ∀ other, other ≠ position → later[other]? = items[other]?)
      (further : ChangedAt change path old new) :
      ChangedAt change (.index position :: path) (.array items) (.array later)

/-- A dictionary has got a key that it did not have, and is otherwise the same. -/
inductive Gains (name : String) (value : Value) : Value → Value → Prop where
  | key {entries later : Entries Value} (missing : entries.lookup name = none)
      (put : later.lookup name = some value)
      (beside : ∀ other, other ≠ name → later.lookup other = entries.lookup other) :
      Gains name value (.dict entries) (.dict later)

variable {change : Value → Value → Prop}

/-- Replacing an element changes the container at this one step. -/
theorem changedAt_setStep? {segment : Segment} {path : List Segment} {container changed old new : Value}
    (found : step? segment container = some old) (done : setStep? segment container new = some changed)
    (further : ChangedAt change path old new) : ChangedAt change (segment :: path) container changed := by
  cases segment with
  | key name =>
    cases container with
    | dict entries =>
      unfold setStep? at done
      dsimp only at done
      split at done
      · cases done
        exact .key found (Entries.lookup_insert_self ..)
          (fun _ different => Entries.lookup_insert_of_ne different ..) further
      · cases done
    | _ => cases found
  | index position =>
    cases container with
    | array items =>
      unfold setStep? at done
      dsimp only at done
      split at done
      · rename_i within
        cases done
        exact .index found (List.getElem?_set_self within) List.length_set
          (fun _ different => List.getElem?_set_ne different.symm) further
      · cases done
    | _ => cases found

/-- Replacing the value at the end of a path changes nothing beside the path. -/
theorem changedAt_replace? {path : List Segment} {container changed old new : Value}
    (found : follow? path container = some old) (done : replace? path container new = some changed)
    (allowed : change old new) : ChangedAt change path container changed := by
  induction path generalizing container changed with
  | nil =>
    cases found
    cases done
    exact .here allowed
  | cons segment rest step =>
    obtain ⟨element, first, others⟩ := Option.bind_eq_some_iff.mp found
    simp only [replace?, first, Option.bind_eq_bind, Option.bind_some] at done
    obtain ⟨inner, replaced, put⟩ := Option.bind_eq_some_iff.mp done
    exact changedAt_setStep? first put (step others replaced)

theorem gains_insert? {entries : Entries Value} {name : String} {value changed : Value}
    (missing : Entries.contains name entries = false)
    (done : (dict entries).insert? name value = some changed) : Gains name value (dict entries) changed := by
  cases done
  refine .key ?_ (Entries.lookup_insert_self ..) fun _ different => Entries.lookup_insert_of_ne different ..
  cases known : Entries.lookup name entries with
  | none => rfl
  | some old =>
    rw [Entries.contains, known] at missing
    cases missing

end Value

namespace Context

/-- One root holds another value than before, and all else in the context is the same: what names stand
for, but for the value at the root, the values of the other slots and temporaries, the values of the
host that do not belong to the root, where each place leads, and what is not kept in scopes or by the
host. -/
structure OnlyAt (root : Root) (before after : Context) : Prop where
  bindings : ∀ {frame name}, root ≠ .slot frame name →
    after.binding? frame name = before.binding? frame name
  kinds : ∀ frame name, (after.binding? frame name).map Binding.kind =
    (before.binding? frame name).map Binding.kind
  values : ∀ {other}, other ≠ root → after.rootValue? other = before.rootValue? other
  hosted : ∀ {index}, (∀ frame name owner, root = .slot frame name →
    before.binding? frame name ≠ some (.value (.hosted index) owner)) →
      after.hosted[index]? = before.hosted[index]?
  places : ∀ place, after.canonical place = before.canonical place
  elsewhere : ∃ frames hosted, after = { before with frames, hosted }

/-- The value at a place has been changed, and nothing else. -/
structure Updated (change : Value → Value → Prop) (place : Place) (before after : Context) : Prop where
  only : OnlyAt (before.canonical place).root before after
  changed : ∃ old new, before.rootValue? (before.canonical place).root = some old ∧
    after.rootValue? (before.canonical place).root = some new ∧
    Value.ChangedAt change (before.canonical place).path old new

variable {before after : Context}

theorem rootValue?_temp_setRoot_of_ne (context : Context) {root : Root} {frame index : Nat}
    (different : root ≠ .temp frame index) (value : Value) :
    (context.setRoot root value).rootValue? (.temp frame index) = context.rootValue? (.temp frame index) := by
  cases root with
  | slot other name =>
    unfold setRoot
    dsimp only
    split
    · exact rootValue?_store_of_ne (by nofun) _
    · rfl
    · rfl
  | temp other position =>
    unfold setRoot rootValue?
    dsimp only
    rw [getElem?_modifyFrame]
    cases context.frames[frame]? with
    | none => rfl
    | some scope =>
      simp only [Option.map_some, Option.bind_eq_bind, Option.bind_some]
      split
      · rename_i same
        apply List.getElem?_set_ne
        rintro rfl
        exact different (by rw [same])
      · rfl

theorem hosted_setRoot {context : Context} {root : Root} {index : Nat}
    (unused : ∀ frame name owner, root = .slot frame name →
      context.binding? frame name ≠ some (.value (.hosted index) owner)) (value : Value) :
    (context.setRoot root value).hosted[index]? = context.hosted[index]? := by
  cases root with
  | temp frame position => rfl
  | slot frame name =>
    unfold setRoot
    dsimp only
    split
    · rfl
    · rename_i kept owner bound
      apply List.getElem?_set_ne
      rintro rfl
      exact unused frame name owner rfl bound
    · rfl

theorem onlyAt_setRoot (sound : before.Sound) (hosting : before.Hosting) (root : Root) (value : Value) :
    OnlyAt root before (before.setRoot root value) where
  bindings different := binding?_setRoot_of_ne different value
  kinds := kind?_setRoot before root value
  values := by
    intro other different
    cases other with
    | slot frame name => exact rootValue?_setRoot_of_ne hosting.apart different.symm value
    | temp frame index => exact rootValue?_temp_setRoot_of_ne before different.symm value
  hosted unused := hosted_setRoot unused value
  places := sound.canonical_congr (sound.setRoot root value).1 (alias?_setRoot before root value)
  elsewhere := Rules.setRoot_elsewhere before root value

/-- A write at a place updates it, and what has been put there is read back. -/
theorem write?_updates (sound : before.Sound) (hosting : before.Hosting) {place : Place} {old value : Value}
    (found : before.resolveMutable? place = some old) (change : Value → Value → Prop)
    (allowed : change old value) :
    ∃ changed, before.write? place value = some changed ∧ changed.resolve? place = some value ∧
      Updated change place before changed := by
  obtain ⟨changed, done, reads⟩ := sound.write?_reads found value
  refine ⟨changed, done, reads, ?_⟩
  unfold resolveMutable? at found
  split at found
  · rename_i mutable
    obtain ⟨atRoot, held, followed⟩ := Option.bind_eq_some_iff.mp found
    have writable : before.isRootWritable (before.canonical place).root = true :=
      (Bool.and_eq_true_iff.mp mutable).2
    simp only [write?, held, Option.bind_eq_bind, Option.bind_some] at done
    obtain ⟨replaced, put, same⟩ := Option.bind_eq_some_iff.mp done
    cases same
    exact ⟨onlyAt_setRoot sound hosting _ replaced, atRoot, replaced, held,
      rootValue?_setRoot held writable replaced, Value.changedAt_replace? followed put allowed⟩
  · cases found

end Context

namespace Assignment

open Context

variable {before after : Context} {value : Value}

theorem writeTo_updates (sound : before.Sound) (hosting : before.Hosting) {place : Place}
    (done : writeTo place value before = (.ok (), after)) :
    Updated (fun _ new => new = value) place before after := by
  rw [writeTo_eq] at done
  cases found : before.resolveMutable? place with
  | none =>
    rw [found] at done
    cases done
  | some old =>
    obtain ⟨changed, written, -, updated⟩ :=
      write?_updates sound hosting found (fun _ new => new = value) rfl
    rw [found, written] at done
    cases done
    exact updated

theorem insertAt_updates (sound : before.Sound) (hosting : before.Hosting) {container : Place} {key : String}
    {entries : Entries Value} (found : before.resolve? container = some (.dict entries))
    (missing : Entries.contains key entries = false)
    (done : insertAt container key value before = (.ok (), after)) :
    Updated (Value.Gains key value) container before after := by
  rw [insertAt_eq] at done
  cases held : before.resolveMutable? container with
  | none =>
    rw [held] at done
    cases done
  | some old =>
    have same : old = .dict entries := by
      unfold resolveMutable? at held
      split at held
      · rw [found] at held
        exact (Option.some.inj held).symm
      · cases held
    subst same
    obtain ⟨changed, written, -, updated⟩ := write?_updates sound hosting held
      (Value.Gains key value) (Value.gains_insert? missing rfl)
    rw [held] at done
    change (Except.ok (), (before.write? container _).getD before) = _ at done
    rw [written] at done
    cases done
    exact updated

end Assignment

namespace Operands

open Rules Context

variable {context after : Context} {mode : EvalMode} {target value : Expr} {given handle stored : Handle}

/-- An assignment through a reference puts the value at its place, and one to a key that a dictionary
does not have adds this key. The place then reads as what the value was before, at the root to which it
leads nothing else has been changed, and nothing at all at any other. -/
theorem written_through (reachable : context.Reachable)
    (operand : Eval.eval mode.operand value context = (.ok given, context))
    (reached : Eval.eval .writing target context = (.ok handle, context))
    (done : Eval.eval mode (.binary .assign target value) context = (.ok stored, after)) :
    (∀ place, handle = .reference true place →
      after.resolve? place = some (context.valueOf given) ∧
      Updated (fun _ new => new = context.valueOf given) place context after) ∧
    ∀ container key, handle = .vacant container key →
      after.resolve? (container.child (.key key)) = some (context.valueOf given) ∧
      Updated (Value.Gains key (context.valueOf given)) container context after := by
  have sound := reachable.sound
  have hosting := reachable.hosting
  rw [eval_assign ⟨given, context, handle, context, operand, reached⟩] at done
  change Assignment.assign handle given context = _ at done
  rw [Assignment.assign, get_bind] at done
  constructor
  · rintro place rfl
    obtain ⟨_, middle, put, ⟨⟩⟩ := bind_ok done
    exact ⟨sound.writeTo_reads put, Assignment.writeTo_updates sound hosting put⟩
  · rintro container key rfl
    obtain ⟨entries, found, missing⟩ :=
      eval_yields sound_written Failing.vacant_yielding .writing target context sound _ _ reached _ _ rfl
    obtain ⟨_, middle, put, ⟨⟩⟩ := bind_ok done
    exact ⟨sound.insertAt_reads put, Assignment.insertAt_updates sound hosting found missing put⟩

/-- The first element of the array that `y` shares with `x`. -/
def firstElement : Expr := .binary .subscript (.name "y") (.bracketed .square (.literal (.int 0)))

/-- The statement `y[0] = x` puts the array, as it was, into itself. -/
theorem nested_in_itself :
    doubled.Reachable ∧
    Eval.eval EvalMode.strict.operand (.name "x") doubled = (.ok (.slot 0 "x"), doubled) ∧
    Eval.eval .writing firstElement doubled =
      (.ok (.reference true ⟨.slot 0 "y", [.index 0]⟩), doubled) ∧
    ∃ stored after, Eval.eval .strict (.binary .assign firstElement (.name "x")) doubled = (.ok stored, after) ∧
      after.resolve? ⟨.slot 0 "y", [.index 0]⟩ = some (.array [.int 1]) ∧
      Updated (fun _ new => new = .array [.int 1]) ⟨.slot 0 "y", [.index 0]⟩ doubled after := by
  have operand : Eval.eval EvalMode.strict.operand (.name "x") doubled = (.ok (.slot 0 "x"), doubled) := by
    unfold Eval.eval
    rfl
  have reached : Eval.eval .writing firstElement doubled =
      (.ok (.reference true ⟨.slot 0 "y", [.index 0]⟩), doubled) := by
    unfold firstElement Eval.eval Eval.eval
    rfl
  obtain ⟨stored, after, done⟩ : ∃ stored after,
      Eval.eval .strict (.binary .assign firstElement (.name "x")) doubled = (.ok stored, after) := by
    rw [eval_assign ⟨.slot 0 "x", doubled, _, doubled, operand, reached⟩]
    exact ⟨_, _, rfl⟩
  obtain ⟨reads, updated⟩ := (written_through doubled_reachable operand reached done).1 _ rfl
  exact ⟨doubled_reachable, operand, reached, stored, after, done, reads, updated⟩

end Operands

end HtmlTemplate
