import HtmlTemplate.Eval.Basic

/-! Assertions for computations that change a state and may end early: an invariant of the
state, and a relation that holds between the state before and the state after. Both hold
however the computation ends. And as equations, where evaluation begins: names that are looked up, and
targets that are prepared. -/

namespace HtmlTemplate

namespace Rules

section

variable {ε σ α β : Type} {valid : σ → Prop} {grows : σ → σ → Prop}

/-- A relation between earlier and later states. -/
structure Growth (grows : σ → σ → Prop) : Prop where
  refl : ∀ state, grows state state
  trans : ∀ {first second third}, grows first second → grows second third → grows first third

/-- What has been kept up to one state is kept up to the next. -/
theorem Growth.further (growth : Growth grows) {first second third : σ}
    (related : grows first second) (next : valid third ∧ grows second third) :
    valid third ∧ grows first third :=
  ⟨next.1, growth.trans related next.2⟩

/-- A computation keeps an invariant and a relation. -/
def Stays (valid : σ → Prop) (grows : σ → σ → Prop) (program : ExceptT ε (StateM σ) α) : Prop :=
  ∀ state, valid state → valid (program state).2 ∧ grows state (program state).2

theorem bind_eq (first : ExceptT ε (StateM σ) α) (next : α → ExceptT ε (StateM σ) β) (state : σ) :
    (first >>= next) state =
      match first state with
      | (.ok value, after) => next value after
      | (.error error, after) => (.error error, after) := by
  change (ExceptT.bind first next) state = _
  simp only [ExceptT.bind, ExceptT.mk, bind, StateT.bind, ExceptT.bindCont]
  rcases first state with ⟨_ | _, _⟩ <;> rfl

/-- A computation that came to a result has first come to one of its first part. -/
theorem bind_ok {first : ExceptT ε (StateM σ) α} {next : α → ExceptT ε (StateM σ) β}
    {before after : σ} {result : β} (done : (first >>= next) before = (.ok result, after)) :
    ∃ value middle, first before = (.ok value, middle) ∧ next value middle = (.ok result, after) := by
  rw [bind_eq] at done
  generalize first before = ended at done
  obtain ⟨error | value, middle⟩ := ended
  · cases done
  · exact ⟨value, middle, rfl, done⟩

theorem get_bind (next : σ → ExceptT ε (StateM σ) α) (state : σ) :
    (get >>= next) state = next state state :=
  rfl

namespace Stays

theorem of_unchanged (growth : Growth grows) {program : ExceptT ε (StateM σ) α}
    (unchanged : ∀ state, (program state).2 = state) : Stays valid grows program := by
  intro state holds
  rw [unchanged state]
  exact ⟨holds, growth.refl state⟩

theorem pure (growth : Growth grows) (value : α) :
    Stays valid grows (Pure.pure value : ExceptT ε (StateM σ) α) :=
  of_unchanged growth fun _ => rfl

theorem throw (growth : Growth grows) (error : ε) :
    Stays valid grows (MonadExcept.throw error : ExceptT ε (StateM σ) α) :=
  of_unchanged growth fun _ => rfl

/-- What comes next has to keep them after the results that there can be. -/
theorem bind_result (growth : Growth grows) {first : ExceptT ε (StateM σ) α}
    {next : α → ExceptT ε (StateM σ) β} (stays : Stays valid grows first)
    (goesOn : ∀ state value, valid state → (first state).1 = .ok value → Stays valid grows (next value)) :
    Stays valid grows (first >>= next) := by
  intro state holds
  obtain ⟨kept, related⟩ := stays state holds
  have goesOn := goesOn state
  rw [bind_eq]
  generalize first state = result at kept related goesOn
  obtain ⟨error | value, after⟩ := result
  · exact ⟨kept, related⟩
  · obtain ⟨final, further⟩ := goesOn value holds rfl after kept
    exact ⟨final, growth.trans related further⟩

theorem bind (growth : Growth grows) {first : ExceptT ε (StateM σ) α}
    {next : α → ExceptT ε (StateM σ) β} (stays : Stays valid grows first)
    (goesOn : ∀ value, Stays valid grows (next value)) : Stays valid grows (first >>= next) :=
  bind_result growth stays fun _ value _ _ => goesOn value

/-- A computation that looks at the state first. -/
theorem bind_get {next : σ → ExceptT ε (StateM σ) α}
    (goesOn : ∀ state, valid state →
      valid (next state state).2 ∧ grows state (next state state).2) :
    Stays valid grows (get >>= next) :=
  goesOn

end Stays

end

/-! Two computations side by side: from states that are related they end alike, with results that
correspond and in related states. -/

section

variable {ε σ τ α β γ δ : Type}

/-- Two ends of computations that correspond. -/
inductive Alike (same : α → β → Prop) (after : σ → τ → Prop) :
    Except ε α × σ → Except ε β × τ → Prop where
  | ok {value : α} {other : β} {state : σ} {twin : τ} (corresponds : same value other)
      (related : after state twin) : Alike same after (.ok value, state) (.ok other, twin)
  | error {error : ε} {state : σ} {twin : τ} (related : after state twin) :
      Alike same after (.error error, state) (.error error, twin)

theorem Alike.weaken {same other : α → β → Prop} {after : σ → τ → Prop} {first : Except ε α × σ}
    {second : Except ε β × τ} (alike : Alike same after first second)
    (more : ∀ value twin, same value twin → other value twin) : Alike other after first second := by
  cases alike with
  | ok corresponds related => exact .ok (more _ _ corresponds) related
  | error related => exact .error related

theorem Alike.related {same : α → β → Prop} {after : σ → τ → Prop} {first : Except ε α × σ}
    {second : Except ε β × τ} (alike : Alike same after first second) : after first.2 second.2 := by
  cases alike with
  | ok _ related => exact related
  | error related => exact related

theorem Alike.result {after : σ → τ → Prop} {first : Except ε α × σ} {second : Except ε α × τ}
    (alike : Alike (· = ·) after first second) : first.1 = second.1 := by
  cases alike with
  | ok corresponds => exact congrArg Except.ok corresponds
  | error => rfl

theorem Alike.relate {same : α → β → Prop} {after other : σ → τ → Prop} {first : Except ε α × σ}
    {second : Except ε β × τ} (alike : Alike same after first second) (related : other first.2 second.2) :
    Alike same other first second := by
  cases alike with
  | ok corresponds => exact .ok corresponds related
  | error => exact .error related

/-- Two computations go alike from related states. -/
def Pairs (before : σ → τ → Prop) (same : α → β → Prop) (after : σ → τ → Prop)
    (first : ExceptT ε (StateM σ) α) (second : ExceptT ε (StateM τ) β) : Prop :=
  ∀ state twin, before state twin → Alike same after (first state) (second twin)

namespace Pairs

variable {before after : σ → τ → Prop} {same : α → β → Prop} {last : γ → δ → Prop}

theorem pure {value : α} {other : β} (corresponds : same value other) :
    Pairs before same before (Pure.pure value : ExceptT ε (StateM σ) α)
      (Pure.pure other : ExceptT ε (StateM τ) β) :=
  fun _ _ related => .ok corresponds related

theorem throw (error : ε) :
    Pairs before same before (MonadExcept.throw error : ExceptT ε (StateM σ) α)
      (MonadExcept.throw error : ExceptT ε (StateM τ) β) :=
  fun _ _ related => .error related

theorem bind {first : ExceptT ε (StateM σ) α} {second : ExceptT ε (StateM τ) β}
    {next : α → ExceptT ε (StateM σ) γ} {following : β → ExceptT ε (StateM τ) δ}
    (pairs : Pairs before same after first second)
    (goesOn : ∀ value other, same value other →
      Pairs after last after (next value) (following other)) :
    Pairs before last after (first >>= next) (second >>= following) := by
  intro state twin related
  have alike := pairs state twin related
  rw [bind_eq, bind_eq]
  generalize first state = result at alike
  generalize second twin = other at alike
  cases alike with
  | ok corresponds related => exact goesOn _ _ corresponds _ _ related
  | error related => exact .error related

/-- Computations that go on with the same value. -/
theorem bind_same {first : ExceptT ε (StateM σ) α} {second : ExceptT ε (StateM τ) α}
    {next : α → ExceptT ε (StateM σ) γ} {following : α → ExceptT ε (StateM τ) δ}
    (pairs : Pairs before (· = ·) after first second)
    (goesOn : ∀ value, Pairs after last after (next value) (following value)) :
    Pairs before last after (first >>= next) (second >>= following) :=
  pairs.bind fun value _ same => same ▸ goesOn value

/-- Computations that look at their states first. -/
theorem bind_get {next : σ → ExceptT ε (StateM σ) α} {following : τ → ExceptT ε (StateM τ) β}
    (goesOn : ∀ state twin, before state twin →
      Alike same after (next state state) (following twin twin)) :
    Pairs before same after (get >>= next) (get >>= following) :=
  goesOn

theorem weaken {first : ExceptT ε (StateM σ) α} {second : ExceptT ε (StateM τ) β}
    {other : α → β → Prop} (pairs : Pairs before same after first second)
    (more : ∀ value twin, same value twin → other value twin) :
    Pairs before other after first second :=
  fun state twin related => (pairs state twin related).weaken more

end Pairs

end

end Rules

namespace Eval

/-- What a name stands for that has been found in a scope. -/
def meaning (frame : Nat) (name : String) : Option Binding → Handle
  | some (.function function) => .function function none
  | some (.hostClass hostClass) => .hostClass hostClass
  | _ => .slot frame name

theorem meaning_fits {fits : Handle → Prop} {frame : Nat} {name : String}
    (called : ∀ function, fits (.function function none)) (named : ∀ hostClass, fits (.hostClass hostClass))
    (found : fits (.slot frame name)) (binding : Option Binding) : fits (meaning frame name binding) := by
  unfold meaning
  split
  · exact called _
  · exact named _
  · exact found

theorem lookupName_eq (mode : EvalMode) (name : String) (context : Context) :
    lookupName mode name context =
      (context.find? name).elim (if mode.soft then .ok .absent else .error (.unknownName name), context)
        fun frame => (.ok (meaning frame name (context.binding? frame name)), context) := by
  unfold lookupName
  rw [Rules.get_bind]
  cases context.find? name with
  | none => cases mode.soft <;> rfl
  | some frame =>
    dsimp only [Option.elim_some]
    cases context.binding? frame name with
    | none => rfl
    | some binding => cases binding <;> rfl

end Eval

namespace Assignment

/-- A declared variable without a value gets one before it is changed. -/
def filling (frame : Nat) (name : String) : Option Binding → Context → Context
  | some .unset, context => context.store frame name (.ofValue .null)
  | _, context => context

theorem filling_of_ne {binding : Option Binding} (set : binding ≠ some .unset) (frame : Nat) (name : String)
    (context : Context) : filling frame name binding context = context := by
  unfold filling
  split
  · exact absurd rfl set
  · rfl

theorem prepare_slot (frame : Nat) (name : String) (context : Context) :
    prepare (.slot frame name) context =
      (.ok (.slot frame name), filling frame name (context.binding? frame name) context) := by
  unfold prepare
  rw [Rules.get_bind]
  dsimp only
  cases context.binding? frame name with
  | none => rfl
  | some binding => cases binding <;> rfl

end Assignment

end HtmlTemplate
