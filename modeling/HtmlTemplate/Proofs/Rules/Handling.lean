import HtmlTemplate.Proofs.Rules.Resemblance

/-! Evaluation that keeps an assertion of the context because of what its handles are. It is the
likeness of a context with itself, so what is known of the handles goes through an expression as it
does there. -/

namespace HtmlTemplate.Rules

section

variable {valid : Context → Prop} {seen : Handle → Prop} {α β : Type} {good : α → Prop} {last : β → Prop}

/-- A computation keeps an assertion of the context, and its result is of a kind. -/
def Gives (valid : Context → Prop) (good : α → Prop) (program : EvalM α) : Prop :=
  ∀ context, valid context →
    valid (program context).2 ∧ ∀ value, (program context).1 = .ok value → good value

namespace Gives

theorem pure {value : α} (fits : good value) : Gives valid good (Pure.pure value : EvalM α) := by
  intro context holds
  refine ⟨holds, ?_⟩
  rintro _ ⟨⟩
  exact fits

theorem throw (fault : EvalFault) : Gives valid good (MonadExcept.throw fault : EvalM α) :=
  fun _ holds => ⟨holds, nofun⟩

theorem bind {first : EvalM α} {next : α → EvalM β} (gives : Gives valid good first)
    (goesOn : ∀ value, good value → Gives valid last (next value)) :
    Gives valid last (first >>= next) := by
  intro context holds
  obtain ⟨holds, result⟩ := gives context holds
  rw [bind_eq]
  generalize first context = ended at holds result
  obtain ⟨fault | value, after⟩ := ended
  · exact ⟨holds, nofun⟩
  · exact goesOn value (result value rfl) after holds

/-- A computation that looks at the context first. -/
theorem bind_get {next : Context → EvalM α}
    (goesOn : ∀ context, valid context → valid (next context context).2 ∧
      ∀ value, (next context context).1 = .ok value → good value) :
    Gives valid good (get >>= next) :=
  goesOn

end Gives

/-- Two equal contexts of which an assertion holds. -/
def Itself (valid : Context → Prop) (first second : Context) : Prop := first = second ∧ valid first

theorem Gives.pairs {program : EvalM α} (gives : Gives valid good program) :
    Pairs (Itself valid) (fun first second => first = second ∧ good first) (Itself valid)
      program program := by
  rintro context _ ⟨rfl, holds⟩
  obtain ⟨final, result⟩ := gives context holds
  generalize program context = ended at final result
  obtain ⟨fault | value, after⟩ := ended
  · exact .error ⟨rfl, final⟩
  · exact .ok ⟨rfl, result value rfl⟩ ⟨rfl, final⟩

theorem Pairs.gives {program : EvalM α}
    (pairs : Pairs (Itself valid) (fun first second => first = second ∧ good first) (Itself valid)
      program program) : Gives valid good program := by
  intro context holds
  have alike := pairs context context ⟨rfl, holds⟩
  generalize program context = ended at alike
  cases alike with
  | ok corresponds related =>
    refine ⟨related.2, ?_⟩
    rintro value ⟨⟩
    exact corresponds.2
  | error related => exact ⟨related.2, nofun⟩

/-! The handles that evaluation begins with. -/

theorem lookupName_gives (mode : EvalMode) {name : String} (absent : seen .absent)
    (called : ∀ function, seen (.function function none)) (named : ∀ hostClass, seen (.hostClass hostClass))
    (found : ∀ context frame, valid context → context.find? name = some frame →
      seen (.slot frame name)) : Gives valid seen (Eval.lookupName mode name) := by
  intro context holds
  rw [Eval.lookupName_eq]
  cases place : context.find? name with
  | none =>
    cases mode.soft with
    | true => exact Gives.pure absent context holds
    | false => exact Gives.throw _ context holds
  | some frame =>
    have slot := found context frame holds place
    exact Gives.pure (Eval.meaning_fits called named slot _) context holds

theorem declare_gives {name : String}
    (fresh : ∀ context, valid context → valid (context.bind name .unset) ∧ seen (.slot context.current name)) :
    Gives valid seen (Eval.declare name) := by
  apply Gives.bind_get
  intro context holds
  cases known : (context.binding? context.current name).isSome with
  | true =>
    simp only [if_true]
    exact Gives.throw _ context holds
  | false =>
    obtain ⟨final, slot⟩ := fresh context holds
    refine ⟨final, ?_⟩
    rintro _ ⟨⟩
    exact slot

/-- A member of a value is never a variable. -/
theorem member_ne_slot (context : Context) (base : Handle) (target : Bool) (member : Member)
    (frame : Nat) (name : String) : Member.ofHandle context base target member ≠ .slot frame name := by
  intro same
  unfold Member.ofHandle Member.ofOwned Member.atPlace at same
  repeat' split at same
  all_goals cases same

/-- What evaluation does with handles keeps an assertion of the context and the kind of handles. -/
structure Handling (valid : Context → Prop) (seen : Handle → Prop) : Prop where
  owned : ∀ value, seen (.owned value)
  member : ∀ {context base}, valid context → seen base → ∀ target member,
    seen (Member.ofHandle context base target member)
  settled : ∀ {handle}, seen handle → seen handle.settled
  updated : ∀ {handle}, seen handle → ∀ change,
    Gives valid (fun _ => True) (Assignment.update handle change)
  assigned : ∀ {target value}, seen target → seen value →
    Gives valid seen (Assignment.assign target value)
  looked : ∀ mode name, Gives valid seen (Eval.lookupName mode name)
  declared : ∀ name, Gives valid seen (Eval.declare name)

theorem Handling.likeness (handling : Handling valid seen) : Likeness (Itself valid) seen fun _ => True where
  owned := handling.owned
  valueOf := by
    rintro first _ handle ⟨rfl, -⟩ -
    rfl
  member := by
    rintro first _ base ⟨rfl, holds⟩ visible target member
    exact ⟨rfl, handling.member holds visible target member⟩
  settled := handling.settled
  updated visible change := (handling.updated visible change).pairs.weaken fun _ _ _ => trivial
  assigned target value := (handling.assigned target value).pairs
  looked mode {name} _ := (handling.looked mode name).pairs
  declared {name} _ := (handling.declared name).pairs

theorem eval_gives (handling : Handling valid seen) (mode : EvalMode) (expr : Expr) :
    Gives valid seen (Eval.eval mode expr) :=
  Pairs.gives (eval_alike handling.likeness mode expr fun _ _ => trivial)

theorem evalItems_gives (handling : Handling valid seen) (mode : EvalMode) (items : List Expr) :
    Gives valid (fun _ => True) (Eval.evalItems mode items) := by
  have alike := evalItems_alike handling.likeness mode items fun _ _ _ _ => trivial
  exact Pairs.gives (alike.weaken fun _ _ same => ⟨same, trivial⟩)

end

end HtmlTemplate.Rules
