import HtmlTemplate.Eval.Mixin
import HtmlTemplate.Proofs.Alias.Places
import HtmlTemplate.Proofs.Context.Mixins
import HtmlTemplate.Proofs.Rules.Composition
import HtmlTemplate.Proofs.Rules.Evaluation

/-! Mixins that change nothing but their parameters. What the body of such a mixin assigns or steps up or
down begins at a parameter, and what a default does begins at one of the parameters before it. Loops go over
other names, no template is included, and all calls are of mixins of this kind. -/

namespace HtmlTemplate

namespace Expr

/-- One of some variables, or something in one of them. -/
def isRooted (own : List String) : Expr → Bool
  | name text => own.contains text
  | bracketed .round inner => isRooted own inner
  | binary .member base _ | binary .subscript base _ => isRooted own base
  | _ => false

/-- Something in one of some variables. -/
def isElement (own : List String) : Expr → Bool
  | bracketed .round inner => isElement own inner
  | binary .member base _ | binary .subscript base _ => isRooted own base
  | _ => false

theorem isRooted_of_isElement {own : List String} {expr : Expr} (inside : isElement own expr = true) :
    isRooted own expr = true := by
  fun_induction isElement own expr with
  | case1 inner step => exact step inside
  | case2 base member => exact inside
  | case3 base key => exact inside
  | case4 => cases inside

/-- Whether an operator changes the variables at its operand only if these are of some names. A variable
as a whole is not assigned to: it might be made to stand for another one. -/
def changes (own : List String) (op : Op) (target : Expr) : Bool :=
  match op with
  | .preIncrement | .preDecrement | .postIncrement | .postDecrement => isRooted own target
  | .assign => isElement own target
  | op => !op.isAssignment || isRooted own target

/-- Nothing is changed by an expression but variables of some names. -/
def isLocal (own : List String) : Expr → Bool
  | unary op operand => changes own op operand && isLocal own operand
  | binary op left right => changes own op left && isLocal own left && isLocal own right
  | bracketed _ inner => isLocal own inner
  | _ => true

section

variable {own : List String}

theorem isLocal_unary {op : Op} {operand : Expr} (kind : (unary op operand).isLocal own = true) :
    changes own op operand = true ∧ operand.isLocal own = true :=
  Bool.and_eq_true_iff.mp kind

theorem isLocal_binary {op : Op} {left right : Expr} (kind : (binary op left right).isLocal own = true) :
    changes own op left = true ∧ left.isLocal own = true ∧ right.isLocal own = true := by
  simpa [isLocal, and_assoc] using kind

theorem local_hereditary : Hereditary fun expr => expr.isLocal own = true where
  operand kind := (isLocal_unary kind).2
  sides kind := (isLocal_binary kind).2
  inner kind := kind

/-- A target that is stepped up or down is rooted at one of the variables. -/
theorem rooted_of_step {op : Op} {operand : Expr} (kind : (unary op operand).isLocal own = true)
    (steps : op = .preIncrement ∨ op = .preDecrement ∨ op = .postIncrement ∨ op = .postDecrement) :
    isRooted own operand = true := by
  have changed := (isLocal_unary kind).1
  rcases steps with rfl | rfl | rfl | rfl
  · exact changed
  · exact changed
  · exact changed
  · exact changed

/-- So is one that something is assigned to, and then it is no whole variable. -/
theorem element_of_assign {target source : Expr} (kind : (binary .assign target source).isLocal own = true) :
    isElement own target = true :=
  (isLocal_binary kind).1

theorem rooted_of_assignment {op : Op} {target source : Expr}
    (kind : (binary op target source).isLocal own = true) (assigns : op.isAssignment = true) :
    isRooted own target = true := by
  have changed := (isLocal_binary kind).1
  unfold changes at changed
  split at changed
  · exact changed
  · exact changed
  · exact changed
  · exact changed
  · exact isRooted_of_isElement changed
  · rwa [assigns, Bool.not_true, Bool.false_or] at changed

end

end Expr

namespace Mixin

/-- What the defaults change begins at parameters that are bound already. -/
def defaultsLocal (before : List String) : List (String × Option Expr) → Bool
  | [] => true
  | (name, default) :: rest => default.all (Expr.isLocal before) && defaultsLocal (before ++ [name]) rest

end Mixin

namespace Chunk

mutual

/-- Nothing is changed by a chunk but variables of some names, and it calls mixins of some names alone. A mixin
that it defines under such a name changes nothing but its own parameters. -/
def isLocal (callable own : List String) : Chunk → Bool
  | text _ | escapable _ => true
  | output _ expr | attr _ _ expr | attrs expr | code expr => expr.isLocal own
  | ifBlock guard body | unlessBlock guard body | elseIfBlock guard body | caseBlock guard body
  | whenBlock guard body | whileBlock guard body => guard.isLocal own && areLocal callable own body
  | elseBlock body | defaultBlock body => areLocal callable own body
  | eachBlock item _ source body => !own.contains item && source.isLocal own && areLocal callable own body
  | includeTemplate _ _ => false
  | mixin name signature body =>
    !callable.contains name ||
      match Mixin.parameters? signature with
      | .ok parameters =>
        Mixin.defaultsLocal [] parameters && areLocal callable (parameters.map Prod.fst) body
      | .error _ => true
  | mixinCall name arguments => callable.contains name && arguments.all (Expr.isLocal own)

def areLocal (callable own : List String) : List Chunk → Bool
  | [] => true
  | chunk :: rest => isLocal callable own chunk && areLocal callable own rest

end

end Chunk

/-- A mixin changes nothing but its parameters, and calls mixins of some names alone. -/
def Mixin.isLocal (callable : List String) (mixin : Mixin) : Bool :=
  defaultsLocal [] mixin.parameters && Chunk.areLocal callable (mixin.parameters.map Prod.fst) mixin.body

namespace Chunk

variable {callable own : List String}

theorem areLocal_cons {chunk : Chunk} {rest : List Chunk} (kind : areLocal callable own (chunk :: rest) = true) :
    chunk.isLocal callable own = true ∧ areLocal callable own rest = true := by
  rw [areLocal] at kind
  exact Bool.and_eq_true_iff.mp kind

theorem local_visits :
    Rules.Visits (fun expr => expr.isLocal own = true) (fun chunks => areLocal callable own chunks = true) where
  rest kind := (areLocal_cons kind).2
  body {chunk _} kind other := by
    have kind := (areLocal_cons kind).1
    cases chunk <;> simp_all [isLocal, body, isMixin, areLocal]
  expr {chunk _ _} kind other has := by
    have kind := (areLocal_cons kind).1
    cases chunk <;> simp_all [isLocal, expr?, isMixin]

/-- The mixin of a definition. -/
theorem definition_local {name : String} {signature : Expr} {body : List Chunk}
    (kind : (mixin name signature body).isLocal callable own = true) {made : Mixin}
    (found : Mixin.ofDefinition name signature body = .ok made) (called : made.name ∈ callable) :
    made.isLocal callable = true := by
  unfold Mixin.ofDefinition at found
  split at found
  · rename_i parameters read
    cases found
    have called : callable.contains name = true := List.contains_iff_mem.mpr called
    rw [isLocal, read, called] at kind
    exact kind
  · cases found

end Chunk

/-! The scopes inside of a call. The names of the parameters stand for variables of their own there, so what is
written to them is written to no scope that was open before the call, and to nothing of the host. -/

/-- Whether a name stands for a variable of its own. -/
def Binding.isOwned : Binding → Bool
  | .unset | .value (.owned _) _ => true
  | _ => false

/-- What there was when a call began, and the parameters that have been bound since. The mixins that can be
called change nothing but their parameters. -/
structure Call (callable : List String) where
  outer : List Frame
  hosted : List Value
  own : List String
  kind : ∀ name ∈ callable, ∀ mixin,
    (outer.reverse.findSome? fun frame => frame.mixins.lookup name) = some mixin → mixin.isLocal callable = true

namespace Call

variable {callable : List String} {call : Call callable} {context : Context}

/-- The scopes from before a call are open beneath its own, and are as they were. -/
structure Inside (call : Call callable) (context : Context) : Prop where
  outer : ∀ frame < call.outer.length, context.frames[frame]? = call.outer[frame]?
  opened : call.outer.length < context.depth
  hosted : context.hosted = call.hosted
  bound : ∀ name ∈ call.own, (context.binding? call.outer.length name).isSome = true
  /-- The name of a parameter is a variable of its own, wherever in the call it is declared. -/
  owned : ∀ frame, call.outer.length ≤ frame → ∀ name ∈ call.own, ∀ binding,
    context.binding? frame name = some binding → binding.isOwned = true
  mixins : ∀ frame, call.outer.length ≤ frame → ∀ entry ∈ context.mixinsAt frame,
    entry.1 ∈ callable → entry.2.isLocal callable = true

/-- A variable that is a parameter, or hides one. -/
def Within (call : Call callable) : Root → Prop
  | .slot frame name => call.outer.length ≤ frame ∧ name ∈ call.own
  | .temp _ _ => False

/-- As many scopes are open. -/
def Level (before after : Context) : Prop := after.depth = before.depth

theorem level_growth : Rules.Growth Level := ⟨fun _ => rfl, fun first second => second.trans first⟩

/-- The scopes and the values of the host alone matter. -/
theorem Inside.congr (inside : call.Inside context) {other : Context} (frames : other.frames = context.frames)
    (hosted : other.hosted = context.hosted) : call.Inside other := by
  have depth : other.depth = context.depth := congrArg List.length frames
  have binding (frame : Nat) (name : String) : other.binding? frame name = context.binding? frame name := by
    rw [Context.binding?_eq, Context.binding?_eq, frames]
  have mixins (frame : Nat) : other.mixinsAt frame = context.mixinsAt frame := by
    rw [Context.mixinsAt, Context.mixinsAt, frames]
  exact {
    outer := by
      rw [frames]
      exact inside.outer
    opened := depth ▸ inside.opened
    hosted := hosted.trans inside.hosted
    bound := fun name member => binding _ name ▸ inside.bound name member
    owned := fun frame beyond name member found => by
      rw [binding]
      exact inside.owned frame beyond name member found
    mixins := fun frame beyond => by
      rw [mixins]
      exact inside.mixins frame beyond }

/-! Changing a scope of the call. -/

/-- A change of one scope that keeps the parameters in it known and owned, and adds no other mixins than those
that may be called. -/
structure Harmless (call : Call callable) (change : Frame → Frame) : Prop where
  known : ∀ scope name, name ∈ call.own → (scope.bindings.lookup name).isSome = true →
    ((change scope).bindings.lookup name).isSome = true
  owned : ∀ scope name, name ∈ call.own → ∀ binding, (change scope).bindings.lookup name = some binding →
    binding.isOwned = true ∨ scope.bindings.lookup name = some binding
  mixins : ∀ scope, ∀ entry ∈ (change scope).mixins,
    entry ∈ scope.mixins ∨ (entry.1 ∈ callable → entry.2.isLocal callable = true)

theorem Inside.modifyFrame (inside : call.Inside context) {frame : Nat} (beyond : call.outer.length ≤ frame)
    {change : Frame → Frame} (harmless : call.Harmless change) :
    call.Inside (context.modifyFrame frame change) where
  outer index below := by
    rw [Context.getElem?_modifyFrame, ← inside.outer index below]
    have other : frame ≠ index := by omega
    simp only [if_neg other, Option.map_id']
  opened := by
    rw [Context.depth_modifyFrame]
    exact inside.opened
  hosted := inside.hosted
  bound name member := by
    have known := inside.bound name member
    rw [Context.binding?_eq] at known ⊢
    rw [Context.getElem?_modifyFrame]
    cases found : context.frames[call.outer.length]? with
    | none =>
      rw [found] at known
      cases known
    | some scope =>
      rw [found] at known
      simp only [Option.map_some, Option.bind_some] at known ⊢
      split
      · exact harmless.known scope name member known
      · exact known
  owned index within name member binding found := by
    have known := inside.owned index within name member
    simp only [Context.binding?_eq] at known found
    rw [Context.getElem?_modifyFrame] at found
    cases scope : context.frames[index]? with
    | none =>
      rw [scope] at found
      cases found
    | some scope' =>
      rw [scope] at known found
      simp only [Option.map_some, Option.bind_some] at known found
      split at found
      · exact (harmless.owned scope' name member binding found).elim id (known binding)
      · exact known binding found
  mixins index within entry present := by
    have known := inside.mixins index within
    simp only [Context.mixinsAt] at known present
    rw [Context.getElem?_modifyFrame] at present
    cases scope : context.frames[index]? with
    | none =>
      rw [scope] at present
      cases present
    | some scope' =>
      rw [scope] at known present
      simp only [Option.map_some, Option.getD_some] at known present
      split at present
      · exact (harmless.mixins scope' entry present).elim (known entry) id
      · exact known entry present

theorem harmless_insert {name : String} {binding : Binding}
    (owned : name ∈ call.own → binding.isOwned = true) :
    call.Harmless fun scope => { scope with bindings := scope.bindings.insert name binding } where
  known scope word _ known := by
    by_cases same : word = name
    · rw [same, Entries.lookup_insert_self]
      rfl
    · rwa [Entries.lookup_insert_of_ne same]
  owned scope word member found lookup := by
    by_cases same : word = name
    · rw [same, Entries.lookup_insert_self] at lookup
      cases lookup
      exact .inl (owned (same ▸ member))
    · rw [Entries.lookup_insert_of_ne same] at lookup
      exact .inr lookup
  mixins _ _ present := .inl present

theorem Inside.store (inside : call.Inside context) {frame : Nat} (beyond : call.outer.length ≤ frame)
    {name : String} {binding : Binding} (owned : name ∈ call.own → binding.isOwned = true) :
    call.Inside (context.store frame name binding) :=
  inside.modifyFrame beyond (harmless_insert owned)

/-- The innermost scope is one of the call. -/
theorem Inside.current (inside : call.Inside context) : call.outer.length ≤ context.current :=
  Nat.le_sub_one_of_lt inside.opened

theorem Inside.bind (inside : call.Inside context) {name : String} {binding : Binding}
    (owned : name ∈ call.own → binding.isOwned = true) : call.Inside (context.bind name binding) :=
  inside.store inside.current owned

theorem Inside.pushTemp (inside : call.Inside context) (value : Value) :
    call.Inside (context.pushTemp value).2 :=
  inside.modifyFrame inside.current
    ⟨fun _ _ _ known => known, fun _ _ _ _ found => .inr found, fun _ _ present => .inl present⟩

theorem Inside.defineMixin (inside : call.Inside context) {mixin : Mixin}
    (kind : mixin.name ∈ callable → mixin.isLocal callable = true) {after : Context}
    (defined : context.defineMixin mixin = .ok after) : call.Inside after ∧ Level context after := by
  unfold Context.defineMixin at defined
  split at defined
  · cases defined
  · cases defined
    refine ⟨?_, Context.depth_modifyFrame ..⟩
    refine inside.modifyFrame inside.current
      ⟨fun _ _ _ known => known, fun _ _ _ _ found => .inr found, fun scope entry present => ?_⟩
    rcases Entries.eq_or_mem_of_mem_insert present with rfl | present
    · exact .inr kind
    · exact .inl present

/-! Opening and closing scopes. -/

theorem Inside.pushScope (inside : call.Inside context) : call.Inside context.pushScope where
  outer frame below := by
    rw [Context.getElem?_pushScope (Nat.lt_trans below inside.opened)]
    exact inside.outer frame below
  opened := by
    rw [Context.depth_pushScope]
    exact Nat.lt_succ_of_lt inside.opened
  hosted := inside.hosted
  bound name member := by
    rw [Context.binding?_pushScope]
    exact inside.bound name member
  owned frame beyond name member binding := by
    rw [Context.binding?_pushScope]
    exact inside.owned frame beyond name member binding
  mixins frame beyond entry present := by
    rcases Nat.lt_trichotomy frame context.depth with less | rfl | greater
    · rw [Context.mixinsAt, Context.getElem?_pushScope less] at present
      exact inside.mixins frame beyond entry present
    · simp [Context.mixinsAt, Context.pushScope, Context.depth, Frame.empty] at present
    · have past : context.pushScope.frames.length ≤ frame := by
        rw [← Context.depth, Context.depth_pushScope]
        exact greater
      rw [Context.mixinsAt, List.getElem?_eq_none past] at present
      cases present

theorem Inside.popScope (inside : call.Inside context) (further : call.outer.length + 1 < context.depth) :
    call.Inside context.popScope := by
  have several : 1 < context.depth := by omega
  have kept (frame : Nat) (below : frame ≤ call.outer.length) :
      context.popScope.frames[frame]? = context.frames[frame]? := by
    rw [Context.getElem?_popScope several, if_pos (by omega)]
  refine ⟨?_, ?_, ?_, ?_, ?_, ?_⟩
  · intro frame below
    rw [kept frame (Nat.le_of_lt below)]
    exact inside.outer frame below
  · rw [Context.depth_popScope several]
    omega
  · rw [Context.popScope, if_pos several]
    exact inside.hosted
  · intro name member
    rw [Context.binding?_eq, kept _ (Nat.le_refl _)]
    exact inside.bound name member
  · intro frame beyond name member binding found
    rw [Context.binding?_popScope several] at found
    split at found
    · exact inside.owned frame beyond name member binding found
    · cases found
  · intro frame beyond entry present
    rw [Context.mixinsAt, Context.getElem?_popScope several] at present
    split at present
    · exact inside.mixins frame beyond entry present
    · cases present

/-- When the scopes of a call are closed, those that were open before are left, as they were. -/
theorem Inside.left (inside : call.Inside context) (single : context.depth = call.outer.length + 1)
    (several : 0 < call.outer.length) :
    context.popScope.frames = call.outer ∧ context.popScope.hosted = call.hosted := by
  have inner : 1 < context.depth := by omega
  constructor
  · apply List.ext_getElem?
    intro frame
    rw [Context.getElem?_popScope inner]
    split
    · exact inside.outer frame (by omega)
    · rw [List.getElem?_eq_none (by omega)]
  · rw [Context.popScope, if_pos inner]
    exact inside.hosted

/-! What is looked up. -/

/-- The last scope that knows a name comes no earlier than any that does. -/
theorem findIn_of_known {name : String} {frames : List Frame} {index : Nat} {scope : Frame}
    (here : frames[index]? = some scope) (known : scope.bindings.contains name = true) :
    ∃ found, Context.findIn name frames = some found ∧ index ≤ found := by
  induction frames generalizing index with
  | nil => cases here
  | cons frame rest step =>
    rw [Context.findIn]
    cases index with
    | zero =>
      cases here
      cases Context.findIn name rest with
      | some later => exact ⟨later + 1, rfl, Nat.zero_le _⟩
      | none => exact ⟨0, if_pos known, Nat.le_refl _⟩
    | succ index =>
      obtain ⟨found, later, further⟩ := step here
      exact ⟨found + 1, by rw [later], Nat.succ_le_succ further⟩

/-- The name of a parameter is found in the call. -/
theorem Inside.find? (inside : call.Inside context) {name : String} (own : name ∈ call.own) :
    ∃ frame, context.find? name = some frame ∧ call.outer.length ≤ frame := by
  have known := inside.bound name own
  rw [Context.binding?_eq] at known
  cases found : context.frames[call.outer.length]? with
  | none =>
    rw [found] at known
    cases known
  | some scope =>
    rw [found] at known
    exact findIn_of_known found known

/-- What has the name of a parameter is no alias. -/
theorem Inside.canonical (inside : call.Inside context) {place : Place} (within : call.Within place.root) :
    context.canonical place = place := by
  apply Context.canonical_of_alias?_eq_none
  obtain ⟨root, path⟩ := place
  cases root with
  | temp => cases within
  | slot frame name =>
    obtain ⟨beyond, own⟩ := within
    unfold Context.alias?
    dsimp only
    split
    · rename_i target mutable found
      cases inside.owned frame beyond name own _ found
    · rfl

theorem Inside.mixin? (inside : call.Inside context) {name : String} (called : name ∈ callable) {mixin : Mixin}
    (found : context.mixin? name = some mixin) : mixin.isLocal callable = true := by
  have outer : context.frames.take call.outer.length = call.outer := by
    apply List.ext_getElem?
    intro frame
    rw [List.getElem?_take]
    split
    · exact inside.outer frame ‹_›
    · rw [List.getElem?_eq_none (by omega)]
  rw [Context.mixin?, ← List.take_append_drop call.outer.length context.frames, outer, List.reverse_append,
    List.findSome?_append, Option.or_eq_some_iff] at found
  rcases found with found | ⟨-, found⟩
  · obtain ⟨scope, member, known⟩ := List.exists_of_findSome?_eq_some found
    obtain ⟨frame, here⟩ := List.getElem?_of_mem (List.mem_reverse.mp member)
    rw [List.getElem?_drop] at here
    refine inside.mixins _ (Nat.le_add_right call.outer.length frame) (name, mixin) ?_ called
    rw [Context.mixinsAt, here]
    exact Entries.mem_of_lookup known
  · exact call.kind name called mixin found

end Call

end HtmlTemplate
