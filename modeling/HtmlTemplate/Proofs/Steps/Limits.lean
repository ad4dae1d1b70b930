import HtmlTemplate.Proofs.Rules.Composition
import HtmlTemplate.Proofs.Rules.Unseen
import HtmlTemplate.Proofs.Steps.Counting

/-! Two runs of the same chunks, of which the second one may be given a limit on steps and a larger
bound on loops and calls. As long as the first run has not met its bound, and not asked for more steps
than the limit allows, the second one does the same. -/

namespace HtmlTemplate

namespace Context

/-- A context with another limit on steps. -/
def withLimit (context : Context) (limit : Option Nat) : Context := { context with stepLimit := limit }

theorem popScope_withLimit (context : Context) (limit : Option Nat) :
    (context.withLimit limit).popScope = context.popScope.withLimit limit := by
  unfold popScope
  change (if 1 < context.depth then _ else _) = _
  split <;> rfl

theorem defineMixin_withLimit (context : Context) (limit : Option Nat) (mixin : Mixin) :
    (context.withLimit limit).defineMixin mixin = (context.defineMixin mixin).map (·.withLimit limit) := by
  unfold defineMixin
  change (if ((context.frames[context.current]?).any fun frame => frame.mixins.contains mixin.name) = true
    then _ else _) = _
  split <;> rfl

/-- Asking for a step counts it, and leaves the limit as it is. -/
theorem step_counts (context : Context) :
    context.step.2.stepLimit = context.stepLimit ∧ context.step.2.steps = context.steps + 1 := by
  unfold step
  dsimp only
  split
  · split
    · split <;> exact ⟨rfl, rfl⟩
    · exact ⟨rfl, rfl⟩
  · exact ⟨rfl, rfl⟩

theorem step_of_none {context : Context} (unlimited : context.stepLimit = none) :
    context.step = (true, { context with steps := context.steps + 1 }) := by
  unfold step
  rw [unlimited]

theorem step_of_lt {context : Context} {limit : Nat} (limited : context.stepLimit = some limit)
    (within : context.steps < limit) :
    context.step = (true, { context with steps := context.steps + 1 }) := by
  unfold step
  rw [limited]
  dsimp only
  rw [if_neg (Nat.not_lt.mpr within)]

end Context

namespace RunState

def withLimit (state : RunState) (limit : Option Nat) : RunState :=
  { state with context := state.context.withLimit limit }

theorem withLimit_self (state : RunState) {limit : Option Nat} (limited : state.context.stepLimit = limit) :
    state.withLimit limit = state := by
  rw [← limited]
  rfl

end RunState

namespace Steps

open Rules Context

/-- Evaluation does not look at the limit on steps. -/
theorem limit_unseen (limit : Option Nat) : Unseen (·.withLimit limit) where
  current _ := rfl
  binding? _ _ _ := rfl
  find? _ _ := rfl
  aliasBound _ := rfl
  hosted _ := rfl
  temp _ _ _ := rfl
  store _ _ _ _ := rfl
  setTemp _ _ _ _ := rfl
  setHosted _ _ := rfl
  pushTemp _ _ := rfl
  reportFault _ _ := rfl

variable {limit other : Option Nat} {α β : Type}

/-- More steps have been asked for than the other limit allows. -/
def Beyond (limit other : Option Nat) (context : Context) : Prop :=
  limit = none ∧ ∃ most, other = some most ∧ most < context.steps

theorem Beyond.mono {before after : Context} (beyond : Beyond limit other before)
    (steps : before.steps ≤ after.steps) : Beyond limit other after := by
  obtain ⟨unlimited, most, limits, more⟩ := beyond
  exact ⟨unlimited, most, limits, Nat.lt_of_lt_of_le more steps⟩

/-- Either it is not known how a run goes on, or it has gone beyond the other limit, or the run under
the other limit has done the same. -/
structure Followed (limit other : Option Nat) (before : RunState) (ended twin : Except Halt α × RunState) :
    Prop where
  stepLimit : ended.2.context.stepLimit = limit
  steps : before.context.steps ≤ ended.2.context.steps
  same : ended.1 = .error .exhausted ∨ Beyond limit other ended.2.context ∨
    twin = (ended.1, ended.2.withLimit other)

/-- What is done with the end of a run, and does not look at the limit. -/
theorem Followed.settle (settle : Except Halt α × RunState → Except Halt β × RunState)
    (idle : ∀ ended : Except Halt α × RunState, ended.2.context.Idle (settle ended).2.context)
    (exhausted : ∀ after, (settle (.error .exhausted, after)).1 = .error .exhausted)
    (blind : ∀ ended, settle (ended.1, ended.2.withLimit other) =
      ((settle ended).1, (settle ended).2.withLimit other))
    {before : RunState} {ended twin : Except Halt α × RunState}
    (followed : Followed limit other before ended twin) :
    Followed limit other before (settle ended) (settle twin) := by
  obtain ⟨stepLimit, steps, same⟩ := followed
  obtain ⟨sameLimit, -, sameSteps, -⟩ := idle ended
  refine ⟨sameLimit.trans stepLimit, Nat.le_trans steps (Nat.le_of_eq sameSteps.symm), ?_⟩
  rcases same with same | beyond | same
  · obtain ⟨result, after⟩ := ended
    cases same
    exact .inl (exhausted after)
  · exact .inr (.inl (beyond.mono (Nat.le_of_eq sameSteps.symm)))
  · rw [same]
    exact .inr (.inr (blind ended))

/-- A run is followed by another one under the other limit. -/
def Follows (limit other : Option Nat) (first second : RunM α) : Prop :=
  ∀ state, state.context.stepLimit = limit →
    Followed limit other state (first state) (second (state.withLimit other))

namespace Follows

theorem bind {first second : RunM α} {next following : α → RunM β} (follows : Follows limit other first second)
    (goesOn : ∀ value, Follows limit other (next value) (following value)) :
    Follows limit other (first >>= next) (second >>= following) := by
  intro state limited
  obtain ⟨stepLimit, steps, same⟩ := follows state limited
  rw [bind_eq, bind_eq]
  generalize first state = ended at stepLimit steps same
  generalize second (state.withLimit other) = twin at same
  obtain ⟨halt | value, middle⟩ := ended
  · refine ⟨stepLimit, steps, ?_⟩
    rcases same with exhausted | beyond | same
    · cases exhausted
      exact .inl rfl
    · exact .inr (.inl beyond)
    · rw [same]
      exact .inr (.inr rfl)
  · obtain ⟨limitAfter, stepsAfter, sameAfter⟩ := goesOn value middle stepLimit
    refine ⟨limitAfter, Nat.le_trans steps stepsAfter, ?_⟩
    rcases same with exhausted | beyond | same
    · cases exhausted
    · exact .inr (.inl (beyond.mono stepsAfter))
    · rw [same]
      exact sameAfter

/-- A part that leaves the steps alone and does the same under any limit. -/
theorem of_idle {part : RunM α} (idle : ∀ state : RunState, state.context.Idle (part state).2.context)
    (same : ∀ state, part (state.withLimit other) = ((part state).1, (part state).2.withLimit other)) :
    Follows limit other part part := by
  intro state limited
  obtain ⟨stepLimit, -, steps, -⟩ := idle state
  exact ⟨stepLimit.trans limited, Nat.le_of_eq steps.symm, .inr (.inr (same state))⟩

theorem pure (value : α) : Follows limit other (Pure.pure value) (Pure.pure value) :=
  of_idle (fun _ => Idle.growth.refl _) fun _ => rfl

theorem throw (halt : Halt) :
    Follows limit other (MonadExcept.throw halt : RunM α) (MonadExcept.throw halt) :=
  of_idle (fun _ => Idle.growth.refl _) fun _ => rfl

/-- Nothing is known of a run that has met its bound. -/
theorem exhausted (second : RunM α) :
    Follows limit other (MonadExcept.throw .exhausted : RunM α) second :=
  fun _ limited => ⟨limited, Nat.le_refl _, .inl rfl⟩

theorem note (event : Event) : Follows limit other (Render.note event) (Render.note event) :=
  of_idle (fun _ => Idle.growth.refl _) fun _ => rfl

theorem inContext {action : Context → α × Context} (acts : Acts (fun _ => True) Idle action)
    (ignores : Ignores (·.withLimit other) action) :
    Follows limit other (Render.inContext action) (Render.inContext action) := by
  refine of_idle (fun state => (acts state.context trivial).2) fun state => ?_
  have same : action (state.context.withLimit other) = _ := ignores state.context
  rw [Render.inContext_eq, Render.inContext_eq]
  change ((.ok (action (state.context.withLimit other)).1 : Except Halt α),
    { state with context := (action (state.context.withLimit other)).2 }) = _
  rw [same]
  rfl

theorem modifyContext {change : Context → Context} (keeps : Keeps (fun _ => True) Idle change)
    (commutes : Commutes (·.withLimit other) change) :
    Follows limit other (Render.modifyContext change) (Render.modifyContext change) := by
  refine of_idle (fun state => (keeps state.context trivial).2) fun state => ?_
  have same : change (state.context.withLimit other) = _ := commutes state.context
  change ((.ok () : Except Halt Unit), { state with context := change (state.context.withLimit other) }) = _
  rw [same]
  rfl

/-- A run that looks at its context. -/
theorem reading {next following : Context → RunM α}
    (goesOn : ∀ context, Follows limit other (next context) (following (context.withLimit other))) :
    Follows limit other (Render.getContext >>= next) (Render.getContext >>= following) :=
  fun state => goesOn state.context state

theorem write (text : String) : Follows limit other (Render.write text) (Render.write text) := by
  refine of_idle (fun state => ?_) fun state => ?_
  · exact (Rests.write text state).1.idle
  · rw [Render.write_eq, Render.write_eq]
    change (if (state.sink.write text).1 = true then _ else _) = _
    split <;> rfl

theorem forM {act : β → RunM Unit} (follows : ∀ item, Follows limit other (act item) (act item))
    (items : List β) : Follows limit other (items.forM act) (items.forM act) := by
  induction items with
  | nil => exact .pure ()
  | cons item rest step => exact .bind (follows item) fun _ => step

theorem flushReports (options : RunOptions) :
    Follows limit other (Render.flushReports options) (Render.flushReports options) := by
  apply Follows.bind (.inContext idle_kept.taken fun _ => rfl)
  intro messages
  apply Follows.bind (.forM (fun message => .write _) messages)
  intro _
  split
  · apply Follows.reading
    intro context
    have same : (context.withLimit other).reports.last = context.reports.last := rfl
    rw [same]
    cases context.reports.last with
    | none => exact .pure ()
    | some message => exact .bind (.modifyContext idle_kept.forgotten fun _ => rfl) fun _ => .throw _
  · exact .pure ()

theorem closing {first second : RunM α} (follows : Follows limit other first second) :
    Follows limit other (Render.closing first) (Render.closing second) := by
  intro state limited
  refine (follows state limited).settle (fun ended => (ended.1, ended.2.closed))
    (fun ended => .popScope ended.2.context) (fun _ => rfl) fun ended => ?_
  change (ended.1, { ended.2 with context := (ended.2.context.withLimit other).popScope }) = _
  rw [Context.popScope_withLimit]
  rfl

theorem inScope {first second : RunM α} (follows : Follows limit other first second) :
    Follows limit other (Render.inScope first) (Render.inScope second) :=
  .bind (.modifyContext (fun context _ => ⟨trivial, .pushScope context⟩) fun _ => rfl)
    fun _ => follows.closing

/-- A step is refused under the other limit only when more have been asked for than it allows. -/
theorem step (limits : limit = other ∨ limit = none) :
    Follows limit other (Render.inContext Context.step) (Render.inContext Context.step) := by
  intro state limited
  obtain ⟨sameLimit, asked⟩ := step_counts state.context
  have stepLimit : state.context.step.2.stepLimit = limit := sameLimit.trans limited
  refine ⟨stepLimit, Nat.le_of_lt (asked ▸ Nat.lt_succ_self _), ?_⟩
  rcases limits with rfl | rfl
  · rw [state.withLimit_self limited, RunState.withLimit_self _ stepLimit]
    exact .inr (.inr rfl)
  · have free := step_of_none limited
    cases other with
    | none =>
      rw [state.withLimit_self limited, RunState.withLimit_self _ stepLimit]
      exact .inr (.inr rfl)
    | some most =>
      by_cases within : state.context.steps < most
      · have allowed : (state.context.withLimit (some most)).step = _ := step_of_lt rfl within
        rw [Render.inContext_eq, Render.inContext_eq, free]
        change _ ∨ _ ∨ ((.ok (state.context.withLimit (some most)).step.1 : Except Halt Bool),
          { state with context := (state.context.withLimit (some most)).step.2 }) = _
        rw [allowed]
        exact .inr (.inr rfl)
      · refine .inr (.inl ⟨rfl, most, rfl, ?_⟩)
        change most < state.context.step.2.steps
        omega

end Follows

end Steps

end HtmlTemplate
