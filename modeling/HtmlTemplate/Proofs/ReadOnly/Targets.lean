import HtmlTemplate.Proofs.Alias.Places
import HtmlTemplate.Proofs.Alias.Reachable
import HtmlTemplate.Proofs.Operands.Order
import HtmlTemplate.Proofs.Rules.Running
import HtmlTemplate.Proofs.Rules.Yielding
import Mathlib.Logic.Relation

/-! Values that the host has lent for reading. A run goes on by moves that each give at most one
name another meaning, so a lent value stays behind its name until the name itself is given another meaning. Whether a
place may be changed is copied into references and into aliases when they are made; all these copies agree with what
is found out when something is to be written there. -/

namespace HtmlTemplate

/-- The place that is written to through a handle, or the container that a key is added to. -/
def Handle.target? : Handle → Option Place
  | reference _ place => some place
  | slot frame name => some (.slot frame name)
  | vacant container _ => some container
  | _ => none

namespace Context

/-- A name stands for a value that the host has lent for reading. -/
inductive Lent (context : Context) : Root → Value → Prop where
  | slot {frame : Nat} {name : String} {value : Value} {owner : Option HostClass}
      (bound : context.binding? frame name = some (.value (.lent value) owner)) :
      Lent context (.slot frame name) value

/-- A place leads into a value that the host has lent for reading. -/
def LeadsToLent (context : Context) (place : Place) : Prop :=
  ∃ value, context.Lent (context.canonical place).root value

theorem Lent.rigid {context : Context} {root : Root} {value : Value}
    (lent : context.Lent root value) : context.isRootWritable root = false := by
  cases lent with
  | slot bound =>
    unfold isRootWritable
    dsimp only
    rw [bound]

theorem LeadsToLent.rigid {context : Context} {place : Place} (leads : context.LeadsToLent place) :
    context.isMutable place = false := by
  obtain ⟨value, lent⟩ := leads
  have rigid := lent.rigid
  change ((context.followAliases context.aliasBound place).2 &&
    context.isRootWritable (context.canonical place).root) = false
  rw [rigid, Bool.and_false]

theorem LeadsToLent.refused {context : Context} {place : Place} (leads : context.LeadsToLent place) :
    context.resolveMutable? place = none := by
  rw [resolveMutable?, leads.rigid, if_neg Bool.false_ne_true]

/-- Storing another meaning elsewhere, or one that is not lent, lends nothing. -/
theorem lent_of_store {context : Context} {frame : Nat} {name : String} {binding : Binding}
    (own : ∀ value owner, binding ≠ .value (.lent value) owner) {root : Root} {value : Value}
    (lent : (context.store frame name binding).Lent root value) : context.Lent root value := by
  cases lent with
  | slot bound =>
    rcases binding?_store_cases bound with ⟨-, -, same⟩ | ⟨-, earlier⟩
    · exact absurd same.symm (own _ _)
    · exact .slot earlier

theorem lent_store {context : Context} {frame other : Nat} {name word : String} {value : Value}
    (lent : context.Lent (.slot frame name) value) (different : ¬ (frame = other ∧ name = word))
    (binding : Binding) : (context.store other word binding).Lent (.slot frame name) value := by
  cases lent with
  | slot bound =>
    rw [← binding?_store_of_ne different binding] at bound
    exact .slot bound

theorem lent_congr {before after : Context} {root : Root} {value : Value}
    (same : ∀ frame name, after.binding? frame name = before.binding? frame name) :
    after.Lent root value ↔ before.Lent root value := by
  constructor
  · intro lent
    cases lent with
    | slot bound => exact .slot (same _ _ ▸ bound)
  · intro lent
    cases lent with
    | slot bound => exact .slot ((same _ _).trans bound)

/-- A value that is put somewhere is not put in the place of one that is lent. -/
theorem lent_setRoot (context : Context) (root : Root) (replaced : Value) {lentRoot : Root}
    {value : Value} :
    (context.setRoot root replaced).Lent lentRoot value ↔ context.Lent lentRoot value := by
  cases root with
  | temp frame index =>
    apply lent_congr
    intro other name
    apply binding?_modifyFrame
    intro scope
    rfl
  | slot frame name =>
    unfold setRoot
    dsimp only
    split
    · rename_i old owner owned
      constructor
      · exact lent_of_store (by nofun)
      · intro lent
        cases lent with
        | @slot other word _ _ bound =>
          apply lent_store (.slot bound)
          intro here
          rw [here.1, here.2, owned] at bound
          cases bound
    · exact lent_congr fun _ _ => rfl
    · exact Iff.rfl

/-! Moves. -/

/-- What a run does to the names in open scopes at once. Loop variables and parameters are bound
in the innermost scope. -/
inductive Moves : Context → Context → Prop where
  | wrote {before after : Context} (step : Rules.Writes before after) : Moves before after
  | bound (context : Context) (name : String) {binding : Binding}
      (own : ∀ value owner, binding ≠ .value (.lent value) owner) :
      Moves context (context.bind name binding)
  | opened (context : Context) : Moves context context.pushScope
  | closed (context : Context) : Moves context context.popScope
  | elsewhere {before after : Context}
      (same : ∀ frame name, after.binding? frame name = before.binding? frame name) :
      Moves before after

/-- A name is given another meaning, or its scope is closed. -/
inductive Rebinds (frame : Nat) (name : String) (before : Context) : Context → Prop where
  /-- By an assignment to the name. -/
  | assigned (value : Handle) :
      Rebinds frame name before
        (before.store frame name (Assignment.bindingFor before frame name value))
  /-- As a loop variable or a parameter. -/
  | bound (innermost : frame = before.current) (binding : Binding) :
      Rebinds frame name before (before.bind name binding)
  | closed (innermost : before.depth ≤ frame + 1) : Rebinds frame name before before.popScope

theorem bindingFor_not_lent (context : Context) (frame : Nat) (name : String) (given : Handle)
    (value : Value) (owner : Option HostClass) :
    Assignment.bindingFor context frame name given ≠ .value (.lent value) owner := by
  intro same
  rcases Sound.bindingFor_cases context frame name given with
    ⟨source, container, mutable, -, -, binding, -⟩ | binding | ⟨-, ⟨function, binding⟩ | ⟨hostClass, binding⟩⟩
  · rw [binding] at same
    cases same
  · rw [binding] at same
    cases same
  · rw [binding] at same
    cases same
  · rw [binding] at same
    cases same

variable {before after : Context}

/-- No move lends a value. -/
theorem Moves.lent_before (moves : Moves before after) {root : Root} {value : Value}
    (lent : after.Lent root value) : before.Lent root value := by
  cases moves with
  | wrote step =>
    cases step with
    | assigned given owned => exact lent_of_store (bindingFor_not_lent before _ _ given) lent
    | declared fresh => exact lent_of_store (by nofun) lent
    | filled unset => exact lent_of_store (by nofun) lent
    | written mutable done =>
      obtain ⟨root, replaced, rfl⟩ := setRoot_of_write? done
      exact (lent_setRoot before root replaced).mp lent
  | bound name own => exact lent_of_store own lent
  | opened => exact (lent_congr (binding?_pushScope before)).mp lent
  | closed =>
    by_cases inner : 1 < before.depth
    · cases lent with
      | slot bound =>
        rw [binding?_popScope inner] at bound
        split at bound
        · exact .slot bound
        · cases bound
    · rwa [popScope, if_neg inner] at lent
  | elsewhere same => exact (lent_congr same).mp lent

/-- Only a move that gives the name another meaning takes a lent value away. -/
theorem Moves.lent_after (moves : Moves before after) {frame : Nat} {name : String} {value : Value}
    (lent : before.Lent (.slot frame name) value) :
    after.Lent (.slot frame name) value ∨ Rebinds frame name before after := by
  cases moves with
  | wrote step =>
    cases step with
    | @assigned other word given owned =>
      by_cases here : frame = other ∧ name = word
      · rw [here.1, here.2]
        exact .inr (.assigned given)
      · exact .inl (lent_store lent here _)
    | declared fresh =>
      refine .inl (lent_store lent ?_ _)
      intro here
      cases lent with
      | slot bound =>
        rw [here.1, here.2] at bound
        rw [bound] at fresh
        cases fresh
    | filled unset =>
      refine .inl (lent_store lent ?_ _)
      intro here
      cases lent with
      | slot bound =>
        rw [here.1, here.2, unset] at bound
        cases bound
    | written mutable done =>
      obtain ⟨root, replaced, rfl⟩ := setRoot_of_write? done
      exact .inl ((lent_setRoot before root replaced).mpr lent)
  | bound word own =>
    by_cases here : frame = before.current ∧ name = word
    · rw [here.2]
      exact .inr (.bound here.1 _)
    · exact .inl (lent_store lent here _)
  | opened => exact .inl ((lent_congr (binding?_pushScope before)).mpr lent)
  | closed =>
    by_cases stays : frame + 1 < before.depth
    · cases lent with
      | slot bound =>
        have inner : 1 < before.depth := by omega
        have kept := binding?_popScope inner frame name
        rw [if_pos (by omega), bound] at kept
        exact .inl (.slot kept)
    · exact .inr (.closed (by omega))
  | elsewhere same => exact .inl ((lent_congr same).mpr lent)

/-! Runs. -/

/-- Some moves, one after the other. -/
abbrev Trace : Context → Context → Prop := Relation.ReflTransGen Moves

theorem Trace.growth : Rules.Growth Trace := ⟨fun _ => .refl, Relation.ReflTransGen.trans⟩

theorem Trace.lent_before (trace : Trace before after) {root : Root} {value : Value}
    (lent : after.Lent root value) : before.Lent root value := by
  induction trace with
  | refl => exact lent
  | tail earlier moves step => exact step (moves.lent_before lent)

theorem Trace.lent_until_rebound (trace : Trace before after) {frame : Nat} {name : String}
    {value : Value} (lent : before.Lent (.slot frame name) value) :
    after.Lent (.slot frame name) value ∨
      ∃ between next, Trace before between ∧ between.Lent (.slot frame name) value ∧
        Rebinds frame name between next ∧ Trace next after := by
  induction trace with
  | refl => exact .inl lent
  | @tail middle last earlier moves step =>
    rcases step with still | ⟨between, next, first, held, rebinds, rest⟩
    · rcases moves.lent_after still with kept | rebinds
      · exact .inl kept
      · exact .inr ⟨middle, last, earlier, still, rebinds, .refl⟩
    · exact .inr ⟨between, next, first, held, rebinds, rest.tail moves⟩

theorem trace_written : Rules.Kept (fun _ => True) Trace where
  growth := Trace.growth
  writes _ step := ⟨trivial, .single (.wrote step)⟩

theorem trace_kept : Rules.ScopesKept (fun _ => True) Trace where
  growth := Trace.growth
  evaluated := Rules.eval_stays trace_written
  listed := Rules.evalItems_stays trace_written
  reported _ _ _ := ⟨trivial, .single (.elsewhere fun _ _ => rfl)⟩
  refused _ _ := ⟨trivial, .single (.elsewhere fun _ _ => rfl)⟩
  counted _ _ := ⟨trivial, .single (.elsewhere fun _ _ => rfl)⟩
  told _ _ := ⟨trivial, .single (.elsewhere fun _ _ => rfl)⟩
  taken _ _ := ⟨trivial, .single (.elsewhere fun _ _ => rfl)⟩
  forgotten _ _ := ⟨trivial, .single (.elsewhere fun _ _ => rfl)⟩
  named name value context _ := ⟨trivial, .single (.bound context name (by nofun))⟩
  stored _ _ _ := ⟨trivial, .single (.elsewhere (binding?_modifyFrame fun _ => rfl))⟩
  defined _ done := by
    refine ⟨trivial, .single (.elsewhere ?_)⟩
    unfold Context.defineMixin at done
    split at done
    · cases done
    · cases done
      exact binding?_modifyFrame fun _ => rfl
  opened _ := trivial
  closed _ _ related := ⟨trivial, .head (.opened _) (related.tail (.closed _))⟩
  aliased _ _ _ _ _ _ name := ⟨trivial, .single (.bound _ name (by nofun))⟩

/-- What expressions and templates make of a context, one after the other. -/
inductive Session (start : Context) : Context → Prop where
  | start : Session start start
  | evaluated {context : Context} (session : Session start context) (mode : EvalMode)
      (expr : Expr) : Session start (context.evaluate mode expr).2
  | ran {context : Context} (session : Session start context) (template : Template) (bound : Nat)
      (sink : Sink) : Session start (template.run bound context sink).2.context

theorem Session.trace {start later : Context} (session : Session start later) :
    Trace start later := by
  induction session with
  | start => exact .refl
  | evaluated _ mode expr earlier =>
    exact earlier.trans (Rules.evaluate_acts trace_kept.toContextKept mode expr _ trivial).2
  | ran _ template bound sink earlier =>
    exact earlier.trans (Rules.template_run_keeps trace_kept template bound trivial sink).2

/-! A place that may be changed may be changed after a write, too. -/

theorem isMutable_extend (context : Context) (place : Place) (path : List Value.Segment) :
    context.isMutable (place.extend path) = context.isMutable place := by
  unfold isMutable
  rw [followAliases_extend]
  rfl

theorem isRootWritable_setRoot (context : Context) (root : Root) (value : Value) (other : Root) :
    (context.setRoot root value).isRootWritable other = context.isRootWritable other := by
  cases other with
  | temp frame index => rfl
  | slot frame name =>
    have congr {after : Context} (same : after.binding? frame name = context.binding? frame name) :
        after.isRootWritable (.slot frame name) = context.isRootWritable (.slot frame name) := by
      unfold isRootWritable
      dsimp only
      rw [same]
    cases root with
    | temp index position =>
      apply congr
      apply binding?_modifyFrame
      intro scope
      rfl
    | slot scope word =>
      unfold setRoot
      dsimp only
      split
      · rename_i old owner owned
        by_cases here : frame = scope ∧ name = word
        · have opened : scope < context.depth := lt_depth_of_binding? (by rw [owned]; rfl)
          rw [here.1, here.2]
          unfold isRootWritable
          dsimp only
          rw [binding?_store_self opened, owned]
        · exact congr (binding?_store_of_ne here _)
      · rfl
      · rfl

namespace Sound

variable {before after : Context}

theorem isMutable_write? (sound : before.Sound) {place : Place} {value : Value}
    (done : before.write? place value = some after) (other : Place) :
    after.isMutable other = before.isMutable other := by
  obtain ⟨root, replaced, rfl⟩ := setRoot_of_write? done
  have soundAfter := (sound.setRoot root replaced).1
  obtain ⟨earlier, -⟩ := (sound.ends other.root).followAliases
    (Nat.le_max_left _ (before.setRoot root replaced).aliasBound)
  obtain ⟨later, -⟩ := (soundAfter.ends other.root).followAliases
    (Nat.le_max_right before.aliasBound _)
  unfold isMutable
  rw [← earlier, ← later, followAliases_congr (alias?_setRoot before root replaced)]
  dsimp only
  rw [isRootWritable_setRoot]

theorem isMutable_written (sound : before.Sound) {place : Place} {value : Value} (other : Place) :
    ((before.write? place value).getD before).isMutable other = before.isMutable other := by
  cases done : before.write? place value with
  | none => rfl
  | some changed => exact sound.isMutable_write? done other

theorem isMutable_of_writeTo (sound : before.Sound) {place : Place} {value : Value}
    (done : Assignment.writeTo place value before = (.ok (), after)) :
    after.isMutable place = true := by
  rw [Assignment.writeTo_eq] at done
  by_cases mutable : before.isMutable place = true
  · split at done
    · cases done
    · cases done
      rw [sound.isMutable_written, mutable]
  · rw [resolveMutable?, if_neg mutable] at done
    cases done

theorem isMutable_of_insertAt (sound : before.Sound) {container : Place} {key : String}
    {value : Value} (done : Assignment.insertAt container key value before = (.ok (), after)) :
    after.isMutable (container.child (.key key)) = true := by
  rw [Place.child, isMutable_extend]
  rw [Assignment.insertAt_eq] at done
  by_cases mutable : before.isMutable container = true
  · split at done
    · cases done
    · split at done
      · cases done
      · cases done
        rw [sound.isMutable_written, mutable]
  · rw [resolveMutable?, if_neg mutable] at done
    cases done

end Sound

end Context

/-! Targets in values that are lent. -/

namespace Assignment

open Context

variable {context : Context} {place : Place} {handle : Handle}

theorem writeTo_refused (leads : context.LeadsToLent place) (value : Value) :
    writeTo place value context = (.error .readOnly, context) := by
  rw [writeTo_eq, leads.refused]

theorem insertAt_refused (leads : context.LeadsToLent place) (key : String) (value : Value) :
    insertAt place key value context = (.error .readOnly, context) := by
  rw [insertAt_eq, leads.refused]

/-- Whatever is assigned, nothing is put into a lent value. -/
theorem assign_refused (leads : context.LeadsToLent place) (target : handle.target? = some place)
    (further : ∀ frame name, handle ≠ .slot frame name) (value : Handle) :
    assign handle value context = (.error .readOnly, context) := by
  rw [assign, Rules.get_bind]
  cases handle with
  | slot frame name => exact absurd rfl (further frame name)
  | reference mutable source =>
    cases target
    cases mutable with
    | true =>
      dsimp only
      rw [Rules.bind_eq, writeTo_refused leads]
    | false => rfl
  | vacant container key =>
    cases target
    dsimp only
    rw [Rules.bind_eq, insertAt_refused leads]
  | _ => cases target

theorem leading_not_unset {frame : Nat} {name : String}
    (leads : context.LeadsToLent (.slot frame name)) :
    context.binding? frame name ≠ some .unset := by
  intro unset
  have last : context.alias? (.slot frame name) = none := by
    apply (context.aliasRoot?_eq_none_iff (.slot frame name)).mp
    exact aliasRoot?_of_own (by rw [unset]; nofun)
  obtain ⟨value, lent⟩ := leads
  rw [canonical_of_alias?_eq_none last] at lent
  cases lent with
  | slot bound =>
    rw [unset] at bound
    cases bound

theorem prepare_slot_leading {frame : Nat} {name : String}
    (leads : context.LeadsToLent (.slot frame name)) :
    prepare (.slot frame name) context = (.ok (.slot frame name), context) := by
  rw [prepare_slot, filling_of_ne (leading_not_unset leads)]

theorem update_refused (leads : context.LeadsToLent place) (target : handle.target? = some place)
    (change : Value → Except EvalFault Value) :
    update handle change context = (.error .readOnly, context) := by
  have stuck {place : Place} (leads : context.LeadsToLent place)
      (prepared : prepare handle context = (.ok place, context)) :
      update handle change context = (.error .readOnly, context) := by
    rw [update, Rules.bind_eq, prepared]
    dsimp only
    rw [Rules.get_bind, leads.refused]
    rfl
  cases handle with
  | slot frame name =>
    cases target
    exact stuck leads (prepare_slot_leading leads)
  | reference mutable source =>
    cases target
    cases mutable with
    | true => exact stuck leads rfl
    | false => rfl
  | vacant container key =>
    cases target
    have refused : prepare (.vacant place key) context = (.error .readOnly, context) := by
      rw [prepare, Rules.get_bind]
      dsimp only
      rw [Rules.bind_eq, insertAt_refused leads]
    rw [update, Rules.bind_eq, refused]
  | _ => cases target

/-- What is prepared is what the target is settled as. -/
theorem prepare_place {target : Handle} {before after : Context} {place : Place}
    (done : prepare target before = (.ok place, after)) : target.settled.place? = some place := by
  cases target with
  | slot frame name =>
    rw [prepare_slot] at done
    cases done
    rfl
  | reference mutable source =>
    cases mutable with
    | true =>
      cases done
      rfl
    | false => cases done
  | vacant container key =>
    rw [prepare, Rules.get_bind] at done
    obtain ⟨_, middle, -, ended⟩ := Rules.bind_ok done
    cases ended
    rfl
  | _ => cases done

/-- A change that is done has prepared the target and then been written. -/
theorem update_ok {target : Handle} {change : Value → Except EvalFault Value}
    {before after : Context} (done : update target change before = (.ok (), after)) :
    ∃ place middle value, prepare target before = (.ok place, middle) ∧
      writeTo place value middle = (.ok (), after) := by
  obtain ⟨place, middle, prepared, followed⟩ := Rules.bind_ok done
  rw [Rules.get_bind] at followed
  cases found : middle.resolveMutable? place with
  | none =>
    rw [found] at followed
    cases followed
  | some old =>
    cases changed : change old with
    | error fault =>
      simp only [found, changed] at followed
      cases followed
    | ok value =>
      simp only [found, changed] at followed
      exact ⟨place, middle, value, prepared, followed⟩

end Assignment

namespace ReadOnly

open Rules Context Operands

/-- A reference that may be written through is one to a place that may be changed. -/
def Honest (context : Context) (handle : Handle) : Prop :=
  ∀ place, handle = .reference true place → context.isMutable place = true

theorem honest_atPlace (context : Context) (place : Place) (target : Bool) (member : Member) :
    Honest context (Member.atPlace context place target member) := by
  intro found same
  unfold Member.atPlace at same
  split at same
  · cases same
  · split at same
    · injection same with mutable here
      rw [← here, Place.child, isMutable_extend, mutable]
    · cases same
    · split at same
      · cases same
      · cases same

theorem honest_member (context : Context) (base : Handle) (target : Bool) (member : Member) :
    Honest context (Member.ofHandle context base target member) :=
  member_fits (by nofun) (by nofun) (by nofun) context base target member fun place =>
    honest_atPlace context place target member

theorem honest_assigned (target value : Handle) :
    Yields Sound Honest (Assignment.assign target value) := by
  intro before sound stored after done place same
  have settled := assign_yields done
  rw [Assignment.assign, get_bind] at done
  cases target with
  | reference mutable source =>
    cases mutable with
    | true =>
      obtain ⟨_, middle, put, ended⟩ := bind_ok done
      cases ended
      cases same
      exact sound.isMutable_of_writeTo put
    | false => cases done
  | vacant container key =>
    obtain ⟨_, middle, put, ended⟩ := bind_ok done
    cases ended
    cases same
    exact sound.isMutable_of_insertAt put
  | _ =>
    rw [settled] at same
    cases same

theorem honest_updated (target : Handle) (change : Value → Except EvalFault Value) :
    Yields Sound (fun after _ => Honest after target.settled) (Assignment.update target change) := by
  intro before sound _ after done place same
  obtain ⟨prepared, middle, value, ready, put⟩ := Assignment.update_ok done
  have here := Assignment.prepare_place ready
  rw [same] at here
  cases here
  have middleSound := (prepare_stays sound_written.overwriting (leads_anywhere target) before sound).1
  rw [ready] at middleSound
  exact middleSound.isMutable_of_writeTo put

theorem honest_yielding : Yielding Sound Honest where
  owned _ _ := by nofun
  member _ base target member := honest_member _ base target member
  looked mode name := .looked mode name (by nofun) (by nofun) (by nofun) (by nofun)
  declared _ := .declared (by nofun)
  assigned := honest_assigned
  updated := honest_updated

/-- A reference that may be written through never leads into a lent value. -/
theorem reference_not_lent {context after : Context} (sound : context.Sound) {mode : EvalMode}
    {expr : Expr} {place : Place}
    (ran : Eval.eval mode expr context = (.ok (.reference true place), after)) :
    ¬ after.LeadsToLent place := by
  intro leads
  have mutable := eval_yields sound_written honest_yielding mode expr context sound _ after ran place rfl
  rw [leads.rigid] at mutable
  cases mutable

/-- An expression that writes into a lent value fails when it comes to writing, and writes
nothing. -/
theorem writing_refused {mode : EvalMode} {plain : Bool} {expr target : Expr} {value : Option Expr}
    (writing : Expr.Writing plain expr target value) {context after : Context} {handle : Handle}
    (located : Located mode target value context handle after) {place : Place}
    (goal : handle.target? = some place) (leads : after.LeadsToLent place)
    (inside : plain = true → ∀ frame name, handle ≠ .slot frame name) :
    Eval.eval mode expr context = (.error .readOnly, after) := by
  have rest := finishes writing located
  generalize Eval.eval mode expr context = ended at rest
  cases rest with
  | assigned given assigns => exact Assignment.assign_refused leads goal (inside assigns) given
  | updated change result changes => rw [bind_eq, Assignment.update_refused leads goal change]

/-- What the host has lent for reading stays as it is. Whatever expressions and templates are run,
in any order, no other value is ever lent, and a lent value stays behind its name until the name
itself is given another meaning. Wherever a run has come to, every write into a lent value fails,
through members, loop variables and aliases alike, but for an assignment to a name as such; and no
reference to a place in it may be written through. For the last, aliases are to be sound, as they are
in all contexts that a host can come to and in all that a run goes through. -/
theorem lent_values_stay {context later : Context} (session : Session context later) :
    (∀ root value, later.Lent root value → context.Lent root value) ∧
    (∀ frame name value, context.Lent (.slot frame name) value →
      later.Lent (.slot frame name) value ∨
        ∃ between next, Trace context between ∧ between.Lent (.slot frame name) value ∧
          Rebinds frame name between next ∧ Trace next later) ∧
    (∀ inner mode plain expr target value handle after place,
      Expr.Writing plain expr target value → Located mode target value inner handle after →
      handle.target? = some place → after.LeadsToLent place →
      (plain = true → ∀ frame name, handle ≠ .slot frame name) →
        Eval.eval mode expr inner = (.error .readOnly, after)) ∧
    (∀ inner mode expr place after, inner.Sound →
      Eval.eval mode expr inner = (.ok (.reference true place), after) → ¬ after.LeadsToLent place) := by
  refine ⟨?_, ?_, ?_, ?_⟩
  · intro root value lent
    exact session.trace.lent_before lent
  · intro frame name value lent
    exact session.trace.lent_until_rebound lent
  · intro inner mode plain expr target value handle after place writing located goal leads inside
    exact writing_refused writing located goal leads inside
  · intro inner mode expr place after sound ran
    exact reference_not_lent sound ran

/-! Inside of a loop. -/

/-- A lent array of one dictionary. -/
def shown : Context := Context.new.lend "list" (.array [.dict [("a", .int 1)]])

/-- In the first pass of a loop over it, `x` shares the dictionary. -/
def looping : Context := Render.enterElement "x" none (.slot 0 "list") false 0 shown.pushScope

theorem shown_source :
    (shown.loopSource (.slot 0 "list")).1 = .array (.slot 0 "list") 1 false := by
  unfold Context.loopSource
  rfl

theorem looping_reachable : looping.Reachable :=
  .enterElement (.lend .new _ _) shown_source Nat.one_pos (.lend .new _ _) (Extends.growth.refl _) "x" none

/-- So `x.a = 2` fails there, and `x.a` is a reference that may not be written through. -/
theorem looping_refused :
    Session shown shown ∧ looping.Sound ∧
    looping.LeadsToLent ⟨.slot 1 "x", [.key "a"]⟩ ∧
    Eval.eval .strict
      (.binary .assign (.binary .member (.name "x") (.name "a")) (.literal (.int 2))) looping =
      (.error .readOnly, looping) ∧
    ∀ place after,
      Eval.eval .strict (.binary .member (.name "x") (.name "a")) looping = (.ok (.reference true place), after) →
        ¬ after.LeadsToLent place := by
  obtain ⟨-, -, refused, unwritten⟩ := lent_values_stay (@Session.start shown)
  have sound := looping_reachable.sound
  have valued : Eval.eval EvalMode.strict.operand (.literal (.int 2)) looping =
      (.ok (.owned (.int 2)), looping) := by
    unfold Eval.eval
    rfl
  have found : Eval.eval .writing (.binary .member (.name "x") (.name "a")) looping =
      (.ok (.reference false ⟨.slot 1 "x", [.key "a"]⟩), looping) := by
    unfold Eval.eval Eval.eval
    rfl
  have leads : looping.LeadsToLent ⟨.slot 1 "x", [.key "a"]⟩ := ⟨_, .slot rfl⟩
  refine ⟨.start, sound, leads, ?_, fun place after => unwritten looping .strict _ place after sound⟩
  exact refused looping .strict true _ _ _ _ looping _ (.assigned _ _) ⟨looping, .some valued, found⟩ rfl
    leads (by nofun)

end ReadOnly

end HtmlTemplate
