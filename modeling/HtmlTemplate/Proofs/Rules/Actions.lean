import HtmlTemplate.Proofs.Rules.Evaluation
import HtmlTemplate.Proofs.Rules.Faults
import HtmlTemplate.Render.Basic

/-! What the parts of a run do to a context, apart from opening and closing scopes. What
evaluation, reports, counting and the binding of values keep, they keep. -/

namespace HtmlTemplate.Rules

section

variable {valid : Context → Prop} {grows : Context → Context → Prop} {α : Type}

/-- A change of the context keeps the invariant and the relation. -/
def Keeps (valid : Context → Prop) (grows : Context → Context → Prop)
    (change : Context → Context) : Prop :=
  ∀ context, valid context → valid (change context) ∧ grows context (change context)

/-- So does an action that gives a result. -/
def Acts (valid : Context → Prop) (grows : Context → Context → Prop)
    (action : Context → α × Context) : Prop :=
  ∀ context, valid context → valid (action context).2 ∧ grows context (action context).2

/-- An invariant and a relation that everything a run does within a scope keeps, apart from the
counting of steps. -/
structure ContextKept (valid : Context → Prop) (grows : Context → Context → Prop) : Prop where
  growth : Growth grows
  evaluated : ∀ mode expr, Stays valid grows (Eval.eval mode expr)
  listed : ∀ mode items, Stays valid grows (Eval.evalItems mode items)
  reported : ∀ {fault}, fault ≠ .stepLimit → Keeps valid grows (·.reportFault fault)
  /-- The host is told why a template is not to be had. -/
  told : ∀ {context name note}, valid context → context.loader name = .failed note →
    valid (context.notify note) ∧ grows context (context.notify note)
  taken : Acts valid grows Context.takePending
  forgotten : Keeps valid grows Context.forgetLast
  named : ∀ name value, Keeps valid grows (·.set name value)
  stored : ∀ value, Acts valid grows (·.pushTemp value)
  defined : ∀ {context after mixin}, valid context → context.defineMixin mixin = .ok after →
    valid after ∧ grows context after

/-- An invariant and a relation that the counting of steps keeps, and the report of the first one
that is refused. -/
structure StepsKept (valid : Context → Prop) (grows : Context → Context → Prop) : Prop where
  counted : Keeps valid grows fun context => { context with steps := context.steps + 1 }
  refused : Keeps valid grows (·.reportFault .stepLimit)

/-! Evaluation with its reports. -/

/-- What remains of a computation after its fault has been reported. -/
theorem reported_keeps (kept : ContextKept valid grows) {program : EvalM α} (faults : Faults true program)
    (stays : Stays valid grows program) {context : Context} (holds : valid context)
    {result : Except EvalFault α} {after : Context} (eq : program context = (result, after)) :
    (valid after ∧ grows context after) ∧ ∀ fault, result = .error fault →
      valid (after.reportFault fault) ∧ grows context (after.reportFault fault) := by
  obtain ⟨holds, related⟩ := stays context holds
  have plain := faults context
  rw [eq] at holds related plain
  refine ⟨⟨holds, related⟩, fun fault failed => ?_⟩
  exact kept.growth.further related (kept.reported (EvalFault.ne_stepLimit (plain fault failed)) after holds)

theorem evaluate_acts (kept : ContextKept valid grows) (mode : EvalMode) (expr : Expr) :
    Acts valid grows (Context.evaluate mode expr) := by
  intro context holds
  have stays := kept.evaluated mode expr
  have faults := eval_faults mode expr (.inl rfl) (.inl rfl)
  unfold Context.evaluate
  split
  · rename_i handle after eq
    exact (reported_keeps kept faults stays holds eq).1
  · rename_i fault after eq
    exact (reported_keeps kept faults stays holds eq).2 fault rfl

theorem execArguments_acts (kept : ContextKept valid grows) (arguments : Expr) :
    Acts valid grows (Context.execArguments arguments) := by
  intro context holds
  have stays := kept.listed .strict arguments.items
  have faults := evalItems_faults .strict arguments.items (fun _ _ => .inl rfl) (.inl rfl)
  unfold Context.execArguments
  split
  · rename_i values after eq
    exact (reported_keeps kept faults stays holds eq).1
  · rename_i fault after eq
    exact (reported_keeps kept faults stays holds eq).2 fault rfl

theorem holds_acts (kept : ContextKept valid grows) (guard : Expr) :
    Acts valid grows (Context.holds guard) :=
  evaluate_acts kept .guard guard

theorem execValue?_acts (kept : ContextKept valid grows) (expr : Expr) :
    Acts valid grows (Context.execValue? expr) :=
  evaluate_acts kept .strict expr

theorem execValue_acts (kept : ContextKept valid grows) (expr : Expr) :
    Acts valid grows (Context.execValue expr) :=
  evaluate_acts kept .strict expr

theorem step_acts (growth : Growth grows) (kept : StepsKept valid grows) :
    Acts valid grows Context.step := by
  intro context holds
  obtain ⟨counted, related⟩ := kept.counted context holds
  unfold Context.step
  dsimp only
  split
  · split
    · split
      · exact growth.further related (kept.refused _ counted)
      · exact ⟨counted, related⟩
    · exact ⟨counted, related⟩
  · exact ⟨counted, related⟩

theorem loopSource_acts (kept : ContextKept valid grows) (handle : Handle) :
    Acts valid grows (Context.loopSource handle) := by
  intro context holds
  unfold Context.loopSource
  split
  · exact ⟨holds, kept.growth.refl context⟩
  · split
    · exact kept.stored _ context holds
    · exact ⟨holds, kept.growth.refl context⟩
  · split
    · exact ⟨holds, kept.growth.refl context⟩
    · exact ⟨holds, kept.growth.refl context⟩

theorem bindParameters_acts (kept : ContextKept valid grows) (mixin : String)
    (parameters : List (String × Option Expr)) (arguments : List Value) :
    Acts valid grows (Mixin.bindParameters mixin parameters arguments) := by
  induction parameters generalizing arguments with
  | nil => exact fun context holds => ⟨holds, kept.growth.refl context⟩
  | cons parameter rest step =>
    obtain ⟨name, default⟩ := parameter
    intro context holds
    cases arguments with
    | cons argument arguments =>
      obtain ⟨bound, related⟩ := kept.named name argument context holds
      exact kept.growth.further related (step arguments _ bound)
    | nil =>
      cases default with
      | none =>
        have other : EvalFault.missingArgument mixin name ≠ .stepLimit := nofun
        exact kept.reported other context holds
      | some default =>
        obtain ⟨evaluated, related⟩ := evaluate_acts kept .strict default context holds
        obtain ⟨bound, further⟩ := kept.named name (context.execValue default).1 _ evaluated
        exact kept.growth.further (kept.growth.trans related further) (step [] _ bound)

theorem parameters?_fault {signature : Expr} {fault : EvalFault}
    (failed : Mixin.parameters? signature = .error fault) : fault = .invalidMixin := by
  have added (items : List Expr) : ∀ read, Mixin.addParameters read items = .error fault →
      fault = .invalidMixin := by
    induction items with
    | nil => nofun
    | cons item rest step =>
      intro read failed
      unfold Mixin.addParameters at failed
      split at failed
      · cases failed
        rfl
      · split at failed
        · cases failed
          rfl
        · exact step _ failed
  unfold Mixin.parameters? at failed
  split at failed
  · cases failed
  · exact added _ [] failed
  · cases failed
    rfl

/-- A mixin is not defined if its signature is none, or if the scope has one of its name. -/
theorem define_fault {name : String} {signature : Expr} {body : List Chunk} {context : Context}
    {fault : EvalFault}
    (failed : Mixin.ofDefinition name signature body >>= context.defineMixin = .error fault) :
    fault = .invalidMixin ∨ fault = .mixinRedefined name := by
  unfold Mixin.ofDefinition at failed
  split at failed
  · right
    change context.defineMixin _ = .error fault at failed
    unfold Context.defineMixin at failed
    split at failed
    · cases failed
      rfl
    · cases failed
  · rename_i other found
    cases failed
    exact .inl (parameters?_fault found)

theorem define_keeps (kept : ContextKept valid grows) (name : String) (signature : Expr)
    (body : List Chunk) : Keeps valid grows (Render.define name signature body) := by
  intro context holds
  unfold Render.define
  split
  · rename_i after eq
    cases made : Mixin.ofDefinition name signature body with
    | error fault =>
      rw [made] at eq
      cases eq
    | ok mixin =>
      rw [made] at eq
      exact kept.defined holds eq
  · rename_i fault eq
    have other : fault ≠ .stepLimit := by
      rcases define_fault eq with rfl | rfl
      · nofun
      · nofun
    exact kept.reported other context holds

end

end HtmlTemplate.Rules
