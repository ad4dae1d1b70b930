import HtmlTemplate.Proofs.Copies.Scopes
import HtmlTemplate.Proofs.Rules.Handling

/-! Expressions that change nothing but parameters, inside of a call. A target is looked up before anything is
written to it, and then it leads to a variable of the call. The call has opened its scope and bound the parameters one
after the other to values of their own, so a default is evaluated where those before it are variables of the call. A
call that misses an argument is left as it was. -/

namespace HtmlTemplate

/-- The scopes of a context and the values of the host have not been changed. -/
structure Context.LeftAlone (before after : Context) : Prop where
  frames : after.frames = before.frames
  hosted : after.hosted = before.hosted

theorem Context.LeftAlone.trans {first second third : Context} (earlier : first.LeftAlone second)
    (later : second.LeftAlone third) : first.LeftAlone third :=
  ⟨later.frames.trans earlier.frames, later.hosted.trans earlier.hosted⟩

/-- Then every place leads to the same value in them. -/
theorem Context.LeftAlone.resolve? {before after : Context} (leftAlone : before.LeftAlone after) (place : Place) :
    after.resolve? place = before.resolve? place := by
  have bindings (frame : Nat) (name : String) : after.binding? frame name = before.binding? frame name := by
    rw [Context.binding?_eq, Context.binding?_eq, leftAlone.frames]
  have bounds : after.aliasBound = before.aliasBound := by
    rw [Context.aliasBound, Context.aliasBound, leftAlone.frames]
  have ends (place : Place) : after.canonical place = before.canonical place := by
    rw [Context.canonical, Context.canonical, bounds,
      Context.followAliases_congr fun _ => Context.alias?_congr fun frame name _ => bindings frame name]
  have sources (source : Source) : after.sourceValue? source = before.sourceValue? source := by
    cases source with
    | hosted index => exact congrArg (·[index]?) leftAlone.hosted
    | _ => rfl
  have roots (root : Root) : after.rootValue? root = before.rootValue? root := by
    cases root with
    | slot frame name => simp only [Context.rootValue?, bindings, sources]
    | temp frame index => rw [Context.rootValue?, Context.rootValue?, leftAlone.frames]
  rw [Context.resolve?, Context.resolve?, ends, roots]

/-- The values of the arguments of a call, if it has any, unless one of them fails. -/
def Context.argumentValues (arguments : Option Expr) (context : Context) : Option (List Value) × Context :=
  arguments.elim (some [], context) fun arguments => context.execArguments arguments

namespace Call

open Rules

variable {callable : List String} {call : Call callable} {context : Context}

/-! Targets. -/

theorem leads_meaning {frame : Nat} {name : String} (within : call.Within (.slot frame name))
    (binding : Option Binding) : Leads call.Within (Eval.meaning frame name binding) :=
  Eval.meaning_fits (fun _ => trivial) (fun _ => trivial) within binding

theorem leads_atPlace {place : Place} (within : call.Within place.root) (target : Bool) (member : Member) :
    Leads call.Within (Member.atPlace context place target member) := by
  unfold Member.atPlace
  split
  · trivial
  · split
    · exact within
    · trivial
    · split
      · exact within
      · trivial

theorem leads_ofOwned (value : Value) (member : Member) : Leads call.Within (Member.ofOwned value member) := by
  unfold Member.ofOwned
  split
  · trivial
  · trivial
  · trivial

theorem leads_member {base : Handle} (leads : Leads call.Within base) (target : Bool) (member : Member) :
    Leads call.Within (Member.ofHandle context base target member) := by
  unfold Member.ofHandle
  split
  · split
    · trivial
    · trivial
  · exact leads_ofOwned _ member
  · split
    · trivial
    · rename_i place found
      have within : call.Within place.root := by
        cases base with
        | slot frame name =>
          cases found
          exact leads
        | reference mutable target =>
          cases found
          exact leads
        | _ => cases found
      split
      · trivial
      · exact leads_atPlace within target member

/-- What a member or a subscript leads to is a member of what its base leads to. -/
theorem part_of {op : Op} (access : op = .member ∨ op = .subscript) {left right : Expr} {mode : EvalMode}
    {handle : Handle} (found : (Eval.eval mode (.binary op left right) context).1 = .ok handle) :
    ∃ base after member, (Eval.eval mode.operand left context).1 = .ok base ∧
      handle = Member.ofHandle after base mode.target member := by
  rcases access with rfl | rfl
  · unfold Eval.eval at found
    dsimp only at found
    rw [bind_eq] at found
    generalize Eval.eval mode.operand left context = result at found ⊢
    obtain ⟨fault | base, after⟩ := result
    · cases found
    · cases found
      exact ⟨base, after, _, rfl, rfl⟩
  · unfold Eval.eval at found
    dsimp only at found
    rw [bind_eq] at found
    generalize Eval.eval mode.operand left context = result at found ⊢
    obtain ⟨fault | base, middle⟩ := result
    · cases found
    · dsimp only at found
      rw [bind_eq] at found
      generalize Eval.eval mode.operand (Eval.subscriptKey right) middle = keyed at found
      obtain ⟨fault | key, after⟩ := keyed
      · cases found
      · cases found
        exact ⟨base, after, _, rfl, rfl⟩

/-- What is rooted at a parameter leads to a variable of the call. -/
theorem rooted_leads {expr : Expr} (rooted : expr.isRooted call.own = true) (mode : EvalMode)
    (inside : call.Inside context) {handle : Handle} (found : (Eval.eval mode expr context).1 = .ok handle) :
    Leads call.Within handle := by
  fun_induction Expr.isRooted call.own expr generalizing mode handle with
  | case1 word =>
    have own : word ∈ call.own := List.contains_iff_mem.mp rooted
    obtain ⟨frame, place, beyond⟩ := inside.find? own
    unfold Eval.eval at found
    rw [Eval.lookupName_eq, place] at found
    cases found
    exact leads_meaning ⟨beyond, own⟩ _
  | case2 inner step =>
    unfold Eval.eval at found
    exact step rooted mode found
  | case3 base name step =>
    obtain ⟨_, _, _, begun, rfl⟩ := part_of (.inl rfl) found
    exact leads_member (step rooted mode.operand begun) _ _
  | case4 base key step =>
    obtain ⟨_, _, _, begun, rfl⟩ := part_of (.inr rfl) found
    exact leads_member (step rooted mode.operand begun) _ _
  | case5 => cases rooted

/-- What is in a parameter is not a variable as a whole. -/
theorem element_inside {expr : Expr} (element : expr.isElement call.own = true) (mode : EvalMode)
    {handle : Handle} (found : (Eval.eval mode expr context).1 = .ok handle) (frame : Nat) (name : String) :
    handle ≠ .slot frame name := by
  fun_induction Expr.isElement call.own expr generalizing mode handle with
  | case1 inner step =>
    unfold Eval.eval at found
    exact step element mode found
  | case2 base member =>
    obtain ⟨_, _, _, -, rfl⟩ := part_of (.inl rfl) found
    exact member_ne_slot _ _ _ _ frame name
  | case3 base key =>
    obtain ⟨_, _, _, -, rfl⟩ := part_of (.inr rfl) found
    exact member_ne_slot _ _ _ _ frame name
  | case4 => cases element

/-! Writing. -/

theorem Inside.setRoot (inside : call.Inside context) {root : Root} (within : call.Within root) (value : Value) :
    call.Inside (context.setRoot root value) ∧ Level context (context.setRoot root value) := by
  cases root with
  | temp => cases within
  | slot frame name =>
    obtain ⟨beyond, own⟩ := within
    unfold Context.setRoot
    dsimp only
    split
    · exact ⟨inside.store beyond fun _ => rfl, Context.depth_modifyFrame ..⟩
    · rename_i found
      cases inside.owned frame beyond name own _ found
    · exact ⟨inside, rfl⟩

theorem Inside.write? (inside : call.Inside context) {place : Place} (within : call.Within place.root)
    {value : Value} {changed : Context} (done : context.write? place value = some changed) :
    call.Inside changed ∧ Level context changed := by
  unfold Context.write? at done
  rw [inside.canonical within] at done
  obtain ⟨old, -, done⟩ := Option.bind_eq_some_iff.mp done
  obtain ⟨replaced, -, done⟩ := Option.bind_eq_some_iff.mp done
  cases done
  exact inside.setRoot within replaced

theorem overwriting (call : Call callable) : Overwriting call.Within call.Inside Level where
  growth := level_growth
  filled within inside _ := ⟨inside.store within.1 fun _ => rfl, Context.depth_modifyFrame ..⟩
  written within inside _ done := inside.write? within done

/-! Expressions. -/

theorem evaluates (call : Call callable) :
    Evaluates call.Inside Level fun expr => expr.isLocal call.own = true where
  growth := level_growth
  kind := Expr.local_hereditary
  declared inside _ := ⟨inside.bind fun _ => rfl, Context.depth_modifyFrame ..⟩
  assigned kind _ _ inside found :=
    have element := Expr.element_of_assign kind
    assign_inside call.overwriting (rooted_leads (Expr.isRooted_of_isElement element) .writing inside found)
      (element_inside element .writing found)
  changed kind assigns _ _ inside found :=
    update_stays call.overwriting (rooted_leads (Expr.rooted_of_assignment kind assigns) .writing inside found)
  stepped kind steps _ _ inside found :=
    update_stays call.overwriting (rooted_leads (Expr.rooted_of_step kind steps) .writing inside found)

/-- Evaluating such an expression changes nothing outside of the call. -/
theorem evaluate_inside (inside : call.Inside context) {expr : Expr} (kind : expr.isLocal call.own = true)
    (mode : EvalMode) :
    call.Inside (context.evaluate mode expr).2 ∧ Level context (context.evaluate mode expr).2 := by
  obtain ⟨final, level⟩ := eval_fitting call.evaluates mode expr kind context inside
  unfold Context.evaluate
  generalize Eval.eval mode expr context = result at final level
  obtain ⟨fault | handle, after⟩ := result
  · exact ⟨final.congr rfl rfl, level⟩
  · exact ⟨final, level⟩

theorem execArguments_inside (inside : call.Inside context) {arguments : Expr}
    (kind : arguments.isLocal call.own = true) :
    call.Inside (context.execArguments arguments).2 ∧ Level context (context.execArguments arguments).2 := by
  obtain ⟨final, level⟩ := evalItems_fitting call.evaluates .strict arguments.items
    (Expr.local_hereditary.items kind) context inside
  unfold Context.execArguments
  generalize Eval.evalItems .strict arguments.items context = result at final level
  obtain ⟨fault | values, after⟩ := result
  · exact ⟨final.congr rfl rfl, level⟩
  · exact ⟨final, level⟩

/-! Opening the scope of a call. -/

variable {before : List String}

/-- A call with other parameters that have been bound. -/
def knowing (call : Call callable) (own : List String) : Call callable := { call with own }

/-- A call that begins in a context, before anything has been bound. -/
def start (context : Context)
    (kind : ∀ name ∈ callable, ∀ mixin, context.mixin? name = some mixin → mixin.isLocal callable = true) :
    Call callable where
  outer := context.frames
  hosted := context.hosted
  own := []
  kind

theorem start_inside (context : Context)
    (kind : ∀ name ∈ callable, ∀ mixin, context.mixin? name = some mixin → mixin.isLocal callable = true) :
    ((start context kind).knowing []).Inside context.pushScope where
  outer _ below := Context.getElem?_pushScope below
  opened := by
    rw [Context.depth_pushScope]
    exact Nat.lt_succ_self _
  hosted := rfl
  bound _ member := absurd member List.not_mem_nil
  owned _ _ _ member := absurd member List.not_mem_nil
  mixins frame beyond entry present := by
    rcases Nat.lt_or_eq_of_le beyond with greater | rfl
    · have past : context.pushScope.frames.length ≤ frame := by
        rw [← Context.depth, Context.depth_pushScope]
        exact greater
      rw [Context.mixinsAt, List.getElem?_eq_none past] at present
      cases present
    · simp [Context.mixinsAt, Context.pushScope, start, knowing, Frame.empty] at present

theorem Inside.parameter (inside : (call.knowing before).Inside context)
    (single : context.depth = call.outer.length + 1) (name : String) (value : Value) :
    (call.knowing (before ++ [name])).Inside (context.set name value) := by
  have here : context.current = call.outer.length := by
    rw [Context.current, single, Nat.add_sub_cancel]
  have stored : (call.knowing before).Inside (context.set name value) := inside.bind fun _ => rfl
  refine ⟨stored.outer, stored.opened, stored.hosted, ?_, ?_, stored.mixins⟩
  · intro word member
    rcases List.mem_append.mp member with member | member
    · exact stored.bound word member
    · rw [List.mem_singleton.mp member, Context.set, Context.bind, here]
      change (Context.binding? _ call.outer.length name).isSome = true
      rw [Context.binding?_store_self (by omega)]
      rfl
  · intro frame beyond word member binding found
    rcases Context.binding?_store_cases found with ⟨-, -, rfl⟩ | ⟨other, known⟩
    · rfl
    · rcases List.mem_append.mp member with member | member
      · exact inside.owned frame beyond word member binding known
      · -- The scope of the call is the innermost one, so the name is not known further inside.
        have within : frame < context.depth := Context.lt_depth_of_binding? (by rw [known]; rfl)
        have beyond : call.outer.length ≤ frame := beyond
        exact absurd ⟨by omega, List.mem_singleton.mp member⟩ other

theorem bindParameters_inside (mixin : String) {parameters : List (String × Option Expr)}
    (defaults : Mixin.defaultsLocal before parameters = true) (values : List Value)
    (inside : (call.knowing before).Inside context) (single : context.depth = call.outer.length + 1) :
    Level context (Mixin.bindParameters mixin parameters values context).2 ∧
      ∃ own, (call.knowing own).Inside (Mixin.bindParameters mixin parameters values context).2 ∧
        ((Mixin.bindParameters mixin parameters values context).1 = true →
          own = before ++ parameters.map Prod.fst) := by
  induction parameters generalizing before values context with
  | nil => exact ⟨rfl, before, inside, fun _ => (List.append_nil before).symm⟩
  | cons parameter rest step =>
    obtain ⟨name, default⟩ := parameter
    obtain ⟨first, defaults⟩ := Bool.and_eq_true_iff.mp defaults
    -- The parameter is bound, and then the others are.
    have further {context : Context} (inside : (call.knowing before).Inside context)
        (single : context.depth = call.outer.length + 1) (value : Value) (values : List Value) :
        Level context (Mixin.bindParameters mixin rest values (context.set name value)).2 ∧
          ∃ own, (call.knowing own).Inside (Mixin.bindParameters mixin rest values (context.set name value)).2 ∧
            ((Mixin.bindParameters mixin rest values (context.set name value)).1 = true →
              own = before ++ ((name, default) :: rest).map Prod.fst) := by
      have level : Level context (context.set name value) := Context.depth_modifyFrame ..
      obtain ⟨later, own, final, complete⟩ :=
        step defaults values (inside.parameter single name value) (level.trans single)
      refine ⟨level_growth.trans level later, own, final, fun done => ?_⟩
      rw [complete done, List.append_assoc]
      rfl
    cases values with
    | cons value values => exact further inside single value values
    | nil =>
      cases default with
      | none =>
        refine ⟨rfl, before, inside.congr rfl rfl, fun done => ?_⟩
        cases done
      | some default =>
        obtain ⟨evaluated, level⟩ := evaluate_inside inside first .strict
        obtain ⟨final, bound⟩ := further evaluated (level.trans single) (context.execValue default).1 []
        exact ⟨level_growth.trans level final, bound⟩

/-- The scope of a call is open, with all its parameters bound, or the call has been refused. -/
theorem enter_inside
    (kind : ∀ name ∈ callable, ∀ mixin, context.mixin? name = some mixin → mixin.isLocal callable = true)
    (opened : 0 < context.depth) {mixin : Mixin} (copies : mixin.isLocal callable = true) (values : List Value) :
    ((mixin.enter values context).1 = true →
      ((start context kind).knowing (mixin.parameters.map Prod.fst)).Inside (mixin.enter values context).2 ∧
        (mixin.enter values context).2.depth = context.depth + 1) ∧
    ((mixin.enter values context).1 = false → context.LeftAlone (mixin.enter values context).2) := by
  obtain ⟨defaults, -⟩ := Bool.and_eq_true_iff.mp copies
  obtain ⟨level, own, inside, complete⟩ := bindParameters_inside mixin.name defaults values
    (start_inside context kind) (Context.depth_pushScope context)
  have single := level.trans (Context.depth_pushScope context)
  unfold Mixin.enter
  generalize Mixin.bindParameters mixin.name mixin.parameters values context.pushScope = result at *
  obtain ⟨done, after⟩ := result
  cases done with
  | true =>
    obtain rfl := complete rfl
    refine ⟨fun _ => ⟨inside, single⟩, fun refused => ?_⟩
    cases refused
  | false =>
    obtain ⟨frames, hosted⟩ := inside.left single opened
    refine ⟨fun entered => ?_, fun _ => ⟨frames, hosted⟩⟩
    cases entered

end Call

end HtmlTemplate
