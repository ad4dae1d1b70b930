import Mathlib.Data.List.Count
import HtmlTemplate.Proofs.Rules.Running

/-! What is charged to the limit on steps. Each body of a loop or of a mixin is run on a step that has
been allowed, and a step is asked for nowhere else; all other parts of a run leave the steps alone. -/

namespace HtmlTemplate

namespace RunState

/-- How many bodies of loops and mixins have been run. -/
def bodies (state : RunState) : Nat := state.past.countP fun (_, event) => event = .stepped

end RunState

namespace Context

/-- How often it has been reported that there are no steps left. -/
def refusals (context : Context) : Nat := context.reports.faults.count .stepLimit

/-- The steps that have been asked for and allowed. -/
def granted (limit : Nat) (context : Context) : Nat := min context.steps limit

/-- Whether a step has been refused. -/
def refused (limit : Nat) (context : Context) : Nat := if limit < context.steps then 1 else 0

/-- Nothing has happened that concerns the limit on steps. -/
structure Idle (before after : Context) : Prop where
  stepLimit : after.stepLimit = before.stepLimit
  loader : after.loader = before.loader
  steps : after.steps = before.steps
  refusals : after.refusals = before.refusals

namespace Idle

theorem growth : Rules.Growth Idle where
  refl _ := ⟨rfl, rfl, rfl, rfl⟩
  trans first second := ⟨second.stepLimit.trans first.stepLimit, second.loader.trans first.loader,
    second.steps.trans first.steps, second.refusals.trans first.refusals⟩

theorem of_frames (context : Context) (frames : List Frame) (hosted : List Value) :
    context.Idle { context with frames, hosted } :=
  ⟨rfl, rfl, rfl, rfl⟩

theorem pushScope (context : Context) : context.Idle context.pushScope := of_frames context _ _

theorem popScope (context : Context) : context.Idle context.popScope := by
  unfold Context.popScope
  split
  · exact of_frames context _ _
  · exact growth.refl context

theorem of_writes {before after : Context} (step : Rules.Writes before after) : before.Idle after := by
  obtain ⟨frames, hosted, rfl⟩ := step.elsewhere
  exact of_frames before frames hosted

theorem reported {fault : EvalFault} (other : fault ≠ .stepLimit) (context : Context) :
    context.Idle (context.reportFault fault) := by
  refine ⟨rfl, rfl, rfl, ?_⟩
  unfold Context.refusals Context.reportFault
  rw [Reports.faults_add, List.count_cons_of_ne other]

theorem granted {before after : Context} (idle : before.Idle after) (limit : Nat) :
    after.granted limit = before.granted limit := by
  rw [Context.granted, Context.granted, idle.steps]

theorem refused {before after : Context} (idle : before.Idle after) (limit : Nat) :
    after.refused limit = before.refused limit := by
  rw [Context.refused, Context.refused, idle.steps]

end Idle

theorem idle_kept : Rules.ContextKept (fun _ => True) Idle where
  growth := Idle.growth
  evaluated := Rules.eval_stays ⟨Idle.growth, fun _ step => ⟨trivial, .of_writes step⟩⟩
  listed := Rules.evalItems_stays ⟨Idle.growth, fun _ step => ⟨trivial, .of_writes step⟩⟩
  reported other context _ := ⟨trivial, .reported other context⟩
  told _ _ := ⟨trivial, rfl, rfl, rfl, rfl⟩
  taken context _ := ⟨trivial, rfl, rfl, rfl, rfl⟩
  forgotten context _ := ⟨trivial, rfl, rfl, rfl, rfl⟩
  named _ _ context _ := ⟨trivial, .of_frames context _ _⟩
  stored _ context _ := ⟨trivial, .of_frames context _ _⟩
  defined {context after mixin} _ defined := by
    refine ⟨trivial, ?_⟩
    unfold Context.defineMixin at defined
    split at defined
    · cases defined
    · cases defined
      exact .of_frames context _ _

theorem enterElement_idle (item : String) (key : Option String) (place : Place) (mutable : Bool)
    (position : Nat) :
    Rules.Keeps (fun _ => True) Idle (Render.enterElement item key place mutable position) := by
  intro context _
  have aliased : context.Idle (context.bindAlias item (place.child (.index position)) mutable) :=
    .of_frames context _ _
  exact ⟨trivial, Idle.growth.trans aliased (Rules.keyed_keeps idle_kept key _ _ trivial).2⟩

theorem enterEntry_idle (item : String) (key : Option String) (place : Place) (mutable : Bool)
    (name : String) :
    Rules.Keeps (fun _ => True) Idle (Render.enterEntry item key place mutable name) := by
  intro context _
  obtain ⟨-, named⟩ := Rules.keyed_keeps idle_kept key (.text name) context trivial
  exact ⟨trivial, Idle.growth.trans named (.of_frames _ _ _)⟩

theorem enter_idle (mixin : Mixin) (arguments : List Value) :
    Rules.Acts (fun _ => True) Idle (mixin.enter arguments) := by
  intro context _
  have opened := Idle.pushScope context
  obtain ⟨-, bound⟩ := Rules.bindParameters_acts idle_kept mixin.name mixin.parameters arguments
    context.pushScope trivial
  have entered := Idle.growth.trans opened bound
  unfold Mixin.enter
  generalize Mixin.bindParameters mixin.name mixin.parameters arguments context.pushScope = result
    at entered
  obtain ⟨complete, after⟩ := result
  cases complete with
  | true => exact ⟨trivial, entered⟩
  | false => exact ⟨trivial, Idle.growth.trans entered (.popScope after)⟩

end Context

namespace Steps

open Rules Context

variable {limit spare bound : Nat} {α β : Type}

/-- Nothing has happened that concerns the limit on steps, and no body has been run. -/
structure Still (before after : RunState) : Prop where
  idle : before.context.Idle after.context
  bodies : after.bodies = before.bodies

theorem Still.growth : Growth Still where
  refl _ := ⟨Idle.growth.refl _, rfl⟩
  trans first second := ⟨Idle.growth.trans first.idle second.idle, second.bodies.trans first.bodies⟩

/-- A part that asks for no steps, runs no body of a loop, and does not meet the bound on loops and
calls. -/
def Rests (part : RunM α) : Prop :=
  ∀ state, Still state (part state).2 ∧ (part state).1 ≠ .error .exhausted

namespace Rests

theorem pure (value : α) : Rests (Pure.pure value : RunM α) :=
  fun state => ⟨Still.growth.refl state, nofun⟩

theorem getContext : Rests Render.getContext := fun state => ⟨Still.growth.refl state, nofun⟩

theorem bind {first : RunM α} {next : α → RunM β} (rests : Rests first)
    (goesOn : ∀ value, Rests (next value)) : Rests (first >>= next) := by
  intro state
  obtain ⟨still, ends⟩ := rests state
  rw [bind_eq]
  generalize first state = result at still ends
  obtain ⟨halt | value, after⟩ := result
  · refine ⟨still, fun same => ends ?_⟩
    cases same
    rfl
  · obtain ⟨further, ends⟩ := goesOn value after
    exact ⟨Still.growth.trans still further, ends⟩

theorem inContext {action : Context → α × Context} (acts : Acts (fun _ => True) Idle action) :
    Rests (Render.inContext action) :=
  fun state => ⟨⟨(acts state.context trivial).2, rfl⟩, nofun⟩

theorem modifyContext {change : Context → Context} (keeps : Keeps (fun _ => True) Idle change) :
    Rests (Render.modifyContext change) :=
  fun state => ⟨⟨(keeps state.context trivial).2, rfl⟩, nofun⟩

theorem note {event : Event} (other : event ≠ .stepped) : Rests (Render.note event) := by
  intro state
  refine ⟨⟨Idle.growth.refl _, ?_⟩, nofun⟩
  change List.countP _ ((_, event) :: state.past) = List.countP _ state.past
  rw [List.countP_cons_of_neg (by simpa using other)]

theorem write (text : String) : Rests (Render.write text) := by
  intro state
  have other : Event.wrote text ≠ .stepped := nofun
  have remembered := note other { state with sink := (state.sink.write text).2 }
  rw [Render.write_eq]
  split
  · exact ⟨⟨Idle.growth.refl _, remembered.1.bodies⟩, nofun⟩
  · exact ⟨⟨Idle.growth.refl _, rfl⟩, nofun⟩

theorem forM {act : α → RunM Unit} (rests : ∀ item, Rests (act item)) (items : List α) :
    Rests (items.forM act) := by
  induction items with
  | nil => exact .pure ()
  | cons item rest step => exact .bind (rests item) fun _ => step

theorem flushReports (options : RunOptions) : Rests (Render.flushReports options) := by
  apply Rests.bind (.inContext idle_kept.taken)
  intro messages
  apply Rests.bind (.forM (fun message => .write _) messages)
  intro _
  split
  · apply Rests.bind .getContext
    intro context
    split
    · exact .pure ()
    · refine .bind (.modifyContext idle_kept.forgotten) fun _ state => ?_
      exact ⟨Still.growth.refl state, nofun⟩
  · exact .pure ()

end Rests

/-- What a part has cost that began with some steps to spare, which had been allowed and not been
used. -/
structure Paid (limit spare bound : Nat) (before : RunState) (ended : Except Halt α × RunState) :
    Prop where
  stepLimit : ended.2.context.stepLimit = some limit
  loader : ended.2.context.loader = before.context.loader
  steps : before.context.steps ≤ ended.2.context.steps
  bodies : ended.2.bodies + before.context.granted limit ≤
    before.bodies + ended.2.context.granted limit + spare
  refusals : ended.2.context.refusals + before.context.refused limit =
    before.context.refusals + ended.2.context.refused limit
  /-- When the bound has been met, so many steps have been allowed. -/
  exhausted : ended.1 = .error .exhausted →
    bound + before.context.granted limit ≤ ended.2.context.granted limit

/-- The limit on the steps, in a context where no template can be included. -/
structure Limited (limit : Nat) (state : RunState) : Prop where
  stepLimit : state.context.stepLimit = some limit
  alone : ∀ name, state.context.loader name = .missing

/-- What a part costs wherever it begins. -/
def Costs (limit spare bound : Nat) (part : RunM α) : Prop :=
  ∀ state, Limited limit state → Paid limit spare bound state (part state)

theorem granted_le (limit : Nat) {before after : Context} (steps : before.steps ≤ after.steps) :
    before.granted limit ≤ after.granted limit :=
  Nat.le_min.mpr ⟨Nat.le_trans (Nat.min_le_left ..) steps, Nat.min_le_right ..⟩

/-- A step is asked for: it is allowed as long as there are some left, and the first one that is not is
reported. -/
structure Asked (limit : Nat) (before : Context) (allowed : Bool) (after : Context) : Prop where
  stepLimit : after.stepLimit = some limit
  loader : after.loader = before.loader
  steps : before.steps ≤ after.steps
  granted : after.granted limit = before.granted limit + allowed.toNat
  refusals : after.refusals + before.refused limit = before.refusals + after.refused limit

theorem step_asked {context : Context} (limited : context.stepLimit = some limit) :
    Asked limit context context.step.1 context.step.2 := by
  unfold Context.step
  rw [limited]
  dsimp only
  split
  · rename_i beyond
    split
    · rename_i first
      refine ⟨rfl, rfl, Nat.le_succ _, ?_, ?_⟩
      · change min (context.steps + 1) limit = min context.steps limit + 0
        omega
      · unfold Context.refusals Context.refused Context.reportFault
        rw [Reports.faults_add, List.count_cons_self, if_neg (by omega), if_pos beyond]
    · rename_i later
      refine ⟨rfl, rfl, Nat.le_succ _, ?_, ?_⟩
      · change min (context.steps + 1) limit = min context.steps limit + 0
        omega
      · unfold Context.refused
        rw [if_pos (by omega), if_pos beyond]
        rfl
  · rename_i within
    refine ⟨rfl, rfl, Nat.le_succ _, ?_, ?_⟩
    · change min (context.steps + 1) limit = min context.steps limit + 1
      omega
    · unfold Context.refused
      rw [if_neg (by omega), if_neg within]
      rfl

theorem Asked.limited {state : RunState} {allowed : Bool} {context : Context}
    (asked : Asked limit state.context allowed context) (limited : Limited limit state) :
    Limited limit { state with context } :=
  ⟨asked.stepLimit, asked.loader ▸ limited.alone⟩

namespace Paid

variable {before middle : RunState} {ended : Except Halt α × RunState}

theorem limited (paid : Paid limit spare bound before ended) (limited : Limited limit before) :
    Limited limit ended.2 :=
  ⟨paid.stepLimit, paid.loader ▸ limited.alone⟩

theorem weaken {less other : Nat} (paid : Paid limit spare bound before ended) (fewer : less ≤ bound)
    (more : spare ≤ other) : Paid limit other less before ended :=
  { paid with
    bodies := Nat.le_trans paid.bodies (Nat.add_le_add_left more _)
    exhausted := fun same => Nat.le_trans (Nat.add_le_add_right fewer _) (paid.exhausted same) }

/-- After a part that has cost nothing. -/
theorem since (still : Still before middle) (paid : Paid limit spare bound middle ended) :
    Paid limit spare bound before ended := by
  obtain ⟨stepLimit, loader, steps, bodies, refusals, exhausted⟩ := paid
  rw [still.idle.steps] at steps
  rw [still.bodies, still.idle.granted] at bodies
  rw [still.idle.refusals, still.idle.refused] at refusals
  rw [still.idle.granted] at exhausted
  exact ⟨stepLimit, loader.trans still.idle.loader, steps, bodies, refusals, exhausted⟩

/-- Before a part that costs nothing. -/
theorem still (paid : Paid limit spare bound before ended) {after : RunState}
    (still : Still ended.2 after) : Paid limit spare bound before (ended.1, after) := by
  obtain ⟨stepLimit, loader, steps, bodies, refusals, exhausted⟩ := paid
  rw [← still.idle.steps] at steps
  rw [← still.bodies, ← still.idle.granted] at bodies
  rw [← still.idle.refusals, ← still.idle.refused] at refusals
  rw [← still.idle.granted] at exhausted
  exact ⟨still.idle.stepLimit.trans stepLimit, still.idle.loader.trans loader, steps, bodies, refusals,
    exhausted⟩

/-- After a part that has used up what there was to spare. -/
theorem after {first : Except Halt β × RunState} (earlier : Paid limit spare bound before first)
    (paid : Paid limit 0 bound first.2 ended) : Paid limit spare bound before ended := by
  have grown := granted_le limit earlier.steps
  have bodies := earlier.bodies
  have bodiesAfter := paid.bodies
  have refusals := earlier.refusals
  have refusalsAfter := paid.refusals
  refine ⟨paid.stepLimit, paid.loader.trans earlier.loader, Nat.le_trans earlier.steps paid.steps, ?_, ?_, ?_⟩
  · omega
  · omega
  · intro same
    have exhausted := paid.exhausted same
    omega

/-- After a step has been asked for: with one to spare if it has been allowed. -/
theorem asked {allowed : Bool} {context : Context} (asked : Asked limit before.context allowed context)
    (paid : Paid limit allowed.toNat (bound - allowed.toNat) { before with context } ended) :
    Paid limit 0 bound before ended := by
  have granted := asked.granted
  have refusals := asked.refusals
  have further := granted_le limit paid.steps
  have bodies : ended.2.bodies + context.granted limit ≤
    before.bodies + ended.2.context.granted limit + allowed.toNat := paid.bodies
  have refusalsAfter : ended.2.context.refusals + context.refused limit =
    context.refusals + ended.2.context.refused limit := paid.refusals
  refine ⟨paid.stepLimit, paid.loader.trans asked.loader, Nat.le_trans asked.steps paid.steps, ?_, ?_, ?_⟩
  · omega
  · omega
  · intro same
    have exhausted : bound - allowed.toNat + context.granted limit ≤ ended.2.context.granted limit :=
      paid.exhausted same
    change context.granted limit ≤ ended.2.context.granted limit at further
    omega

/-- A part that has done nothing. -/
theorem nothing (limited : Limited limit before) {result : Except Halt α}
    (ends : result ≠ .error .exhausted) : Paid limit spare bound before (result, before) :=
  ⟨limited.stepLimit, rfl, Nat.le_refl _, Nat.le_add_right .., rfl, fun same => absurd same ends⟩

end Paid

namespace Costs

theorem of_rests {part : RunM α} (rests : Rests part) : Costs limit spare bound part := by
  intro state limited
  obtain ⟨still, ends⟩ := rests state
  exact (Paid.nothing limited ends).still still

theorem weaken {less other : Nat} {part : RunM α} (costs : Costs limit spare bound part)
    (fewer : less ≤ bound) (more : spare ≤ other) : Costs limit other less part :=
  fun state limited => (costs state limited).weaken fewer more

theorem bind {first : RunM α} {next : α → RunM β} (costs : Costs limit spare bound first)
    (goesOn : ∀ value, Costs limit 0 bound (next value)) : Costs limit spare bound (first >>= next) := by
  intro state limited
  have paid := costs state limited
  rw [bind_eq]
  generalize first state = result at paid
  obtain ⟨halt | value, middle⟩ := result
  · refine { paid with exhausted := fun same => paid.exhausted ?_ }
    cases same
    rfl
  · exact paid.after (goesOn value middle (paid.limited limited))

/-- A part after one that costs nothing. -/
theorem after {first : RunM α} {next : α → RunM β} (rests : Rests first)
    (goesOn : ∀ value, Costs limit spare bound (next value)) :
    Costs limit spare bound (first >>= next) := by
  intro state limited
  obtain ⟨still, ends⟩ := rests state
  have paid : Paid limit 0 bound state (first state) := of_rests rests state limited
  rw [bind_eq]
  generalize first state = result at still ends paid
  obtain ⟨halt | value, middle⟩ := result
  · refine { paid with bodies := Nat.le_add_right_of_le paid.bodies, exhausted := fun same => ?_ }
    cases same
    exact absurd rfl ends
  · exact .since still (goesOn value middle (paid.limited limited))

theorem pure (value : α) : Costs limit spare bound (Pure.pure value : RunM α) := of_rests (.pure value)

/-- Running a body takes a step that there was to spare. -/
theorem stepping {body : RunM Unit} (costs : Costs limit 0 bound body) :
    Costs limit 1 bound (Render.stepping body) := by
  intro state limited
  have paid := costs (state.remember .stepped) ⟨limited.stepLimit, limited.alone⟩
  have more : (state.remember .stepped).bodies = state.bodies + 1 := List.countP_cons_of_pos rfl
  have bodies := paid.bodies
  rw [more] at bodies
  refine ⟨paid.stepLimit, paid.loader, paid.steps, ?_, paid.refusals, paid.exhausted⟩
  rw [Nat.add_right_comm]
  exact bodies

theorem closing {part : RunM α} (costs : Costs limit spare bound part) :
    Costs limit spare bound (Render.closing part) :=
  fun state limited =>
    let paid := costs state limited
    paid.still ⟨.popScope _, rfl⟩

theorem inScope {part : RunM α} (costs : Costs limit spare bound part) :
    Costs limit spare bound (Render.inScope part) :=
  .after (.modifyContext fun context _ => ⟨trivial, .pushScope context⟩) fun _ => costs.closing

/-- What follows when a step has been asked for: with one to spare if it has been allowed. -/
theorem granting {next : Bool → RunM α} (taken : Costs limit 1 (bound - 1) (next true))
    (left : Costs limit 0 bound (next false)) :
    Costs limit 0 bound (Render.inContext Context.step >>= next) := by
  intro state limited
  have asked := step_asked limited.stepLimit
  rw [bind_eq, Render.inContext_eq]
  generalize state.context.step = result at asked
  obtain ⟨allowed, context⟩ := result
  cases allowed with
  | true => exact .asked asked (taken _ (asked.limited limited))
  | false => exact .asked asked (left _ (asked.limited limited))

end Costs

/-- A part that comes to its end has been allowed so many steps, by its result. -/
def Gains (limit : Nat) (gain : α → Nat) (part : RunM α) : Prop :=
  ∀ state, Limited limit state → ∀ value after, part state = (.ok value, after) →
    state.context.granted limit + gain value ≤ after.context.granted limit

namespace Gains

variable {gain : α → Nat}

theorem of_costs {part : RunM α} (costs : Costs limit spare bound part) : Gains limit (fun _ => 0) part := by
  intro state limited value after ran
  have paid := costs state limited
  rw [ran] at paid
  exact granted_le _ paid.steps

theorem pure {value : α} (none : gain value = 0) : Gains limit gain (Pure.pure value : RunM α) := by
  intro state limited result after ran
  cases ran
  rw [none]
  exact Nat.le_refl _

theorem after {first : RunM β} {next : β → RunM α} (rests : Rests first)
    (goesOn : ∀ value, Gains limit gain (next value)) : Gains limit gain (first >>= next) := by
  intro state limited value after ran
  obtain ⟨result, middle, done, ran⟩ := bind_ok ran
  obtain ⟨⟨idle, -⟩, -⟩ := rests state
  rw [done] at idle
  have still : Limited limit middle := ⟨idle.stepLimit.trans limited.stepLimit, idle.loader ▸ limited.alone⟩
  rw [← idle.granted]
  exact goesOn result middle still value after ran

theorem granting {next : Bool → RunM α} (taken : Gains limit (gain · - 1) (next true))
    (left : Gains limit gain (next false)) :
    Gains limit gain (Render.inContext Context.step >>= next) := by
  intro state limited value after ran
  have asked := step_asked limited.stepLimit
  rw [bind_eq, Render.inContext_eq] at ran
  generalize state.context.step = result at asked ran
  obtain ⟨allowed, context⟩ := result
  have granted : context.granted limit = state.context.granted limit + allowed.toNat := asked.granted
  cases allowed with
  | true =>
    have more : context.granted limit + (gain value - 1) ≤ after.context.granted limit :=
      taken _ (asked.limited limited) value after ran
    rw [Bool.toNat_true] at granted
    omega
  | false =>
    have more : context.granted limit + gain value ≤ after.context.granted limit :=
      left _ (asked.limited limited) value after ran
    rw [Bool.toNat_false] at granted
    omega

theorem inScope {part : RunM α} (gains : Gains limit gain part) :
    Gains limit gain (Render.inScope part) := by
  intro state limited value after ran
  have more := gains state.opened ⟨limited.stepLimit, limited.alone⟩ value
  change ((part state.opened).1, (part state.opened).2.closed) = (.ok value, after) at ran
  generalize part state.opened = result at more ran
  obtain ⟨done, inner⟩ := result
  cases ran
  have gained := more inner rfl
  rw [← (Idle.popScope inner.context).granted] at gained
  exact gained

/-- A part that has been allowed some steps by its end leaves the bound for less to come. -/
theorem bind {first : RunM α} {next : α → RunM β} (gains : Gains limit gain first)
    (costs : Costs limit 0 bound first) (goesOn : ∀ value, Costs limit 0 (bound - gain value) (next value)) :
    Costs limit 0 bound (first >>= next) := by
  intro state limited
  have paid := costs state limited
  have gained := gains state limited
  rw [bind_eq]
  generalize first state = result at paid gained
  obtain ⟨halt | value, middle⟩ := result
  · refine { paid with exhausted := fun same => paid.exhausted ?_ }
    cases same
    rfl
  · have further := goesOn value middle (paid.limited limited)
    have whole := Paid.after (paid.weaken (Nat.sub_le bound (gain value)) (Nat.le_refl _)) further
    refine { whole with exhausted := fun same => ?_ }
    have gained : state.context.granted limit + gain value ≤ middle.context.granted limit :=
      gained value middle rfl
    have exhausted : bound - gain value + middle.context.granted limit ≤
      (next value middle).2.context.granted limit := further.exhausted same
    change bound + state.context.granted limit ≤ (next value middle).2.context.granted limit
    omega

end Gains

end Steps

end HtmlTemplate
