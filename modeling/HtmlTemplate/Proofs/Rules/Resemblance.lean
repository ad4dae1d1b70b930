import HtmlTemplate.Eval.Reported
import HtmlTemplate.Expr.Basic
import HtmlTemplate.Proofs.Rules.Basic

/-! Evaluation in two contexts that resemble each other. The handles that an expression yields in the
one and in the other correspond; what a handle is used for is the same on both sides. Expressions of a
kind may be left without writes, and then nothing is asked of what writes do. -/

namespace HtmlTemplate

/-! The names that an expression looks up or declares. The name of a member and a name that is
the key of a dictionary stand for themselves. -/

namespace Expr

def names : Expr → List String
  | name word => [word]
  | unary _ operand => names operand
  | binary .member base _ => names base
  | binary .colon key element => (if key.name?.isSome then [] else names key) ++ names element
  | binary _ left right => names left ++ names right
  | bracketed _ inner => names inner
  | _ => []

theorem mem_names_of_name? {expr : Expr} {word : String} (found : expr.name? = some word) :
    word ∈ expr.names := by
  cases expr with
  | name text =>
    cases found
    exact List.mem_singleton_self _
  | bracketed bracket inner =>
    cases inner with
    | name text =>
      cases found
      exact List.mem_singleton_self _
    | _ => cases found
  | _ => cases found

theorem names_left {op : Op} (other : op ≠ .colon) (left right : Expr) :
    left.names ⊆ (binary op left right).names := by
  cases op with
  | colon => exact absurd rfl other
  | member => exact List.Subset.refl _
  | _ => exact List.subset_append_left ..

theorem names_right {op : Op} (other : op ≠ .member) (left right : Expr) :
    right.names ⊆ (binary op left right).names := by
  cases op with
  | member => exact absurd rfl other
  | _ => exact List.subset_append_right ..

theorem names_sequence {expr : Expr} : ∀ item ∈ expr.sequence, item.names ⊆ expr.names := by
  fun_induction sequence expr with
  | case1 left right leftStep rightStep =>
    intro item member
    rcases List.mem_append.mp member with member | member
    · exact List.Subset.trans (leftStep item member) (names_left (by decide) left right)
    · exact List.Subset.trans (rightStep item member) (names_right (by decide) left right)
  | case2 tree =>
    intro item member
    rw [List.mem_singleton.mp member]
    exact List.Subset.refl _

theorem names_elements {expr : Expr} : ∀ item ∈ expr.elements, item.names ⊆ expr.names := by
  unfold elements
  split
  · nofun
  · nofun
  · nofun
  · exact names_sequence

theorem names_items {expr : Expr} : ∀ item ∈ expr.items, item.names ⊆ expr.names := by
  unfold items
  split
  · split
    · intro item member
      rw [List.mem_singleton.mp member]
      exact List.Subset.refl _
    · exact names_elements
  · exact names_elements

/-- The key of an entry is not looked at when it is a name. -/
theorem names_entry? {expr key element : Expr} (entry : expr.entry? = some (key, element)) :
    (key.name? = none → key.names ⊆ expr.names) ∧ element.names ⊆ expr.names := by
  have pair : (key.name? = none → key.names ⊆ (binary .colon key element).names) ∧
      element.names ⊆ (binary .colon key element).names := by
    refine ⟨fun unnamed => ?_, names_right (by decide) key element⟩
    rw [names, unnamed]
    exact List.subset_append_left ..
  unfold entry? at entry
  split at entry
  · cases entry
    exact pair
  · cases entry
    exact pair
  · cases entry

theorem names_assignment? {expr target value : Expr} (found : expr.assignment? = some (target, value)) :
    target.names ⊆ expr.names ∧ value.names ⊆ expr.names := by
  have sides : target.names ⊆ (binary .assign target value).names ∧
      value.names ⊆ (binary .assign target value).names :=
    ⟨names_left (by decide) target value, names_right (by decide) target value⟩
  unfold assignment? at found
  split at found
  · cases found
    exact sides
  · cases found
    exact sides
  · cases found

theorem names_call? {expr callee arguments : Expr} (found : expr.call? = some (callee, arguments)) :
    arguments.names ⊆ expr.names := by
  have inside : arguments.names ⊆ (binary .call callee arguments).names :=
    names_right (by decide) callee arguments
  unfold call? at found
  split at found
  · cases found
    exact inside
  · cases found
    exact inside
  · cases found

/-- A constant names nothing but the keys of dictionaries. -/
theorem names_of_isConstAt {expr : Expr} {asKey : Bool} (const : expr.isConstAt asKey = true) :
    expr.names = [] ∨ asKey = true ∧ expr.name?.isSome = true := by
  induction expr generalizing asKey with
  | name word => exact .inr ⟨const, rfl⟩
  | unary op operand step =>
    obtain ⟨-, const⟩ := Bool.and_eq_true_iff.mp const
    rcases step const with none | ⟨never, -⟩
    · exact .inl none
    · cases never
  | binary op left right first second =>
    obtain ⟨both, constRight⟩ := Bool.and_eq_true_iff.mp const
    obtain ⟨-, constLeft⟩ := Bool.and_eq_true_iff.mp both
    have noneRight : right.names = [] := by
      rcases second constRight with none | ⟨never, -⟩
      · exact none
      · cases never
    left
    by_cases colon : op = .colon
    · rw [colon, names, noneRight, List.append_nil]
      rcases first constLeft with none | ⟨-, named⟩
      · rw [none, ite_self]
      · rw [if_pos named]
    · rw [beq_false_of_ne colon] at constLeft
      have noneLeft : left.names = [] := by
        rcases first constLeft with none | ⟨never, -⟩
        · exact none
        · cases never
      cases op with
      | colon => exact absurd rfl colon
      | member => exact noneLeft
      | _ => exact List.append_eq_nil_iff.mpr ⟨noneLeft, noneRight⟩
  | bracketed bracket inner step =>
    rcases step const with none | ⟨key, named⟩
    · exact .inl none
    · obtain ⟨asKey, unbracketed⟩ := Bool.and_eq_true_iff.mp key
      cases inner with
      | name word => exact .inr ⟨asKey, rfl⟩
      | bracketed => cases unbracketed
      | _ => cases named
  | _ => exact .inl rfl

theorem names_of_isConst {expr : Expr} (const : expr.isConst = true) : expr.names = [] := by
  rcases names_of_isConstAt const with none | ⟨never, -⟩
  · exact none
  · cases never

end Expr

/-! Resemblance. -/

namespace Rules

/-- A kind of expressions that the parts of such an expression are of too, as far as they are evaluated.
With `writes` they may assign, step and declare. -/
structure Parts (fits : Expr → Prop) (known : String → Prop) (writes : Bool) : Prop where
  name : ∀ {word}, fits (.name word) → known word
  operand : ∀ {op operand}, fits (.unary op operand) → fits operand
  left : ∀ {op left right}, fits (.binary op left right) → op ≠ .colon → fits left
  right : ∀ {op left right}, fits (.binary op left right) → op ≠ .member → fits right
  inner : ∀ {bracket inner}, fits (.bracketed bracket inner) → fits inner
  items : ∀ {expr}, fits expr → ∀ item ∈ expr.items, fits item
  entry : ∀ {item key element}, fits item → item.entry? = some (key, element) →
    (key.name? = none → fits key) ∧ fits element
  declares : ∀ {operand name}, fits (.unary .declare operand) → operand.name? = some name →
    writes = true ∧ known name
  steps : ∀ {op operand}, fits (.unary op operand) →
    op = .preIncrement ∨ op = .preDecrement ∨ op = .postIncrement ∨ op = .postDecrement → writes = true
  assigns : ∀ {op left right}, fits (.binary op left right) → op.isAssignment = true → writes = true

/-- Contexts in which handles correspond, as far as names are known. Without `writes` nothing is asked
of what is done to a context. -/
structure Resemblance (alike : Context → Context → Prop) (same : Handle → Handle → Prop)
    (known : String → Prop) (writes : Bool) : Prop where
  owned : ∀ value, same (.owned value) (.owned value)
  valueOf : ∀ {first second handle other}, alike first second → same handle other →
    first.valueOf handle = second.valueOf other
  called : ∀ {callee other}, same callee other → ∀ arguments,
    Eval.call callee arguments = Eval.call other arguments
  member : ∀ {first second base other}, alike first second → same base other → ∀ {target},
    (target = true → writes = true) → ∀ member,
    same (Member.ofHandle first base target member) (Member.ofHandle second other target member)
  settled : writes = true → ∀ {handle other}, same handle other → same handle.settled other.settled
  updated : writes = true → ∀ {handle other}, same handle other → ∀ change,
    Pairs alike (fun _ _ => True) alike (Assignment.update handle change) (Assignment.update other change)
  assigned : writes = true → ∀ {target other value twin}, same target other → same value twin →
    Pairs alike same alike (Assignment.assign target value) (Assignment.assign other twin)
  looked : ∀ mode {name}, known name →
    Pairs alike same alike (Eval.lookupName mode name) (Eval.lookupName mode name)
  declared : writes = true → ∀ {name}, known name →
    Pairs alike same alike (Eval.declare name) (Eval.declare name)

section

variable {alike : Context → Context → Prop} {same : Handle → Handle → Prop} {fits : Expr → Prop}
  {known : String → Prop} {writes : Bool}

theorem Parts.subscriptKey (parts : Parts fits known writes) {expr : Expr} (kind : fits expr) :
    fits (Eval.subscriptKey expr) := by
  cases expr with
  | bracketed bracket inner => exact parts.inner kind
  | _ => exact kind

namespace Resemblance

variable {handle other : Handle}

theorem truthy (like : Resemblance alike same known writes) {first second : Context}
    (related : alike first second) (corresponds : same handle other) :
    first.truthy handle = second.truthy other := by
  rw [Context.truthy, Context.truthy, like.valueOf related corresponds]

theorem value (like : Resemblance alike same known writes) (corresponds : same handle other) :
    Pairs alike (· = ·) alike (Eval.valueOf handle) (Eval.valueOf other) :=
  fun _ _ related => .ok (like.valueOf related corresponds) related

theorem owns (like : Resemblance alike same known writes) (value : Value) :
    Pairs alike same alike (pure (.owned value) : EvalM Handle) (pure (.owned value)) :=
  .pure (like.owned value)

theorem deciding (like : Resemblance alike same known writes) (corresponds : same handle other) :
    Pairs alike same alike (Eval.deciding handle) (Eval.deciding other) := by
  intro first second related
  refine .ok ?_ related
  rw [like.valueOf related corresponds]
  split
  · exact like.owned _
  · exact corresponds

theorem ofResult (like : Resemblance alike same known writes) (result : Except EvalFault Value) :
    Pairs alike same alike (Eval.ofResult result) (Eval.ofResult result) := by
  cases result with
  | ok value => exact like.owns value
  | error fault => exact .throw fault

theorem call (like : Resemblance alike same known writes) (corresponds : same handle other)
    (arguments : List Value) :
    Pairs alike same alike (Eval.call handle arguments) (Eval.call other arguments) := by
  rw [like.called corresponds]
  unfold Eval.call
  split
  · split
    · exact like.owns _
    · exact .throw _
  · exact .throw _

theorem stepBefore (like : Resemblance alike same known writes) (written : writes = true) (up : Bool)
    (corresponds : same handle other) :
    Pairs alike same alike (Eval.stepBefore up handle) (Eval.stepBefore up other) :=
  .bind (like.updated written corresponds _) fun _ _ _ => .pure (like.settled written corresponds)

theorem stepAfter (like : Resemblance alike same known writes) (written : writes = true) (up : Bool)
    (corresponds : same handle other) :
    Pairs alike same alike (Eval.stepAfter up handle) (Eval.stepAfter up other) :=
  .bind_same (like.value corresponds) fun value =>
    .bind (like.updated written corresponds _) fun _ _ _ => like.owns value

/-- Whichever way a handle decides, it is decided alike. -/
theorem branch (like : Resemblance alike same known writes) (corresponds : same handle other)
    {chosen chosenTwin declined declinedTwin : EvalM Handle} (yes : Pairs alike same alike chosen chosenTwin)
    (no : Pairs alike same alike declined declinedTwin) :
    Pairs alike same alike (do if (← get).truthy handle then chosen else declined)
      (do if (← get).truthy other then chosenTwin else declinedTwin) := by
  apply Pairs.bind_get
  intro context twin related
  rw [like.truthy related corresponds]
  split
  · exact yes _ _ related
  · exact no _ _ related

theorem memberOf (like : Resemblance alike same known writes) (corresponds : same handle other) {target : Bool}
    (targets : target = true → writes = true) (member : Member) :
    Pairs alike same alike (do return Member.ofHandle (← get) handle target member : EvalM Handle)
      (do return Member.ofHandle (← get) other target member) := by
  apply Pairs.bind_get
  intro context twin related
  exact .ok (like.member related corresponds targets member) related

end Resemblance

/-- An operator of a group that has neither the colon nor the dot in it. -/
theorem ordinary_of {group : Op → Bool} (colon : group .colon = false) (member : group .member = false) {op : Op}
    (inside : group op = true) : op ≠ .colon ∧ op ≠ .member := by
  constructor
  · rintro rfl
    rw [colon] at inside
    cases inside
  · rintro rfl
    rw [member] at inside
    cases inside

mutual

theorem eval_resembles (parts : Parts fits known writes) (like : Resemblance alike same known writes)
    (mode : EvalMode) (expr : Expr) : fits expr → (mode.target = true → writes = true) →
      Pairs alike same alike (Eval.eval mode expr) (Eval.eval mode expr) := by
  cases expr with
  | name word =>
    intro kind _
    unfold Eval.eval
    exact like.looked mode (parts.name kind)
  | literal value =>
    intro _ _
    unfold Eval.eval
    exact like.owns _
  | noArguments =>
    intro _ _
    unfold Eval.eval
    exact like.owns _
  | emptyArray =>
    intro _ _
    unfold Eval.eval
    exact like.owns _
  | emptyDict =>
    intro _ _
    unfold Eval.eval
    exact like.owns _
  | bracketed bracket inner =>
    intro kind targets
    have smaller (kind : Bracket) := Expr.totalSize_items_bracketed_lt kind inner
    cases bracket with
    | round =>
      unfold Eval.eval
      exact eval_resembles parts like mode inner (parts.inner kind) targets
    | square =>
      have := smaller .square
      unfold Eval.eval
      exact .bind_same
        (evalItems_resembles parts like mode.operand (Expr.items (.bracketed .square inner)) (parts.items kind)
          nofun)
        fun _ => like.owns _
    | curly =>
      have := smaller .curly
      unfold Eval.eval
      exact .bind_same
        (evalEntries_resembles parts like mode.operand [] (Expr.items (.bracketed .curly inner))
          (parts.items kind) nofun)
        fun _ => like.owns _
  | unary op operand =>
    intro kind _
    have inner (mode : EvalMode) := eval_resembles parts like mode operand (parts.operand kind)
    have applied (op : Op) : Pairs alike same alike
        (do
          let handle ← Eval.eval mode.operand operand
          Eval.ofResult (Value.unary op (← Eval.valueOf handle)))
        (do
          let handle ← Eval.eval mode.operand operand
          Eval.ofResult (Value.unary op (← Eval.valueOf handle))) :=
      .bind (inner mode.operand nofun) fun _ _ corresponds =>
        .bind_same (like.value corresponds) fun _ => like.ofResult _
    unfold Eval.eval
    split
    · split
      · rename_i name found
        obtain ⟨written, named⟩ := parts.declares kind found
        exact like.declared written named
      · exact .throw _
    · have written := parts.steps kind (.inl rfl)
      exact .bind (inner .writing fun _ => written) fun _ _ => like.stepBefore written true
    · have written := parts.steps kind (.inr (.inl rfl))
      exact .bind (inner .writing fun _ => written) fun _ _ => like.stepBefore written false
    · have written := parts.steps kind (.inr (.inr (.inl rfl)))
      exact .bind (inner .writing fun _ => written) fun _ _ => like.stepAfter written true
    · have written := parts.steps kind (.inr (.inr (.inr rfl)))
      exact .bind (inner .writing fun _ => written) fun _ _ => like.stepAfter written false
    · exact applied _
    · exact applied _
    · exact applied _
    · exact .throw _
  | binary op left right =>
    intro kind targets
    have first (other : op ≠ .colon) (mode : EvalMode) :=
      eval_resembles parts like mode left (parts.left kind other)
    have second (other : op ≠ .member) (mode : EvalMode) :=
      eval_resembles parts like mode right (parts.right kind other)
    unfold Eval.eval
    split
    · exact .bind (first nofun mode.operand nofun) fun _ _ corresponds => like.memberOf corresponds targets _
    · have := Eval.sizeOf_subscriptKey_le right
      have key := eval_resembles parts like mode.operand (Eval.subscriptKey right)
        (parts.subscriptKey (parts.right kind nofun))
      apply Pairs.bind (first nofun mode.operand nofun)
      intro base other corresponds
      apply Pairs.bind (key nofun)
      intro handle twin correspondsKey
      exact .bind_same (like.value correspondsKey) fun _ => like.memberOf corresponds targets _
    · have := Expr.totalSize_items_le right
      have arguments := evalItems_resembles parts like mode.operand (Expr.items right)
        (parts.items (parts.right kind nofun))
      exact .bind (first nofun mode.operand nofun) fun _ _ corresponds =>
        .bind_same (arguments nofun) (like.call corresponds)
    · have further := Pairs.bind (second nofun mode.operand nofun) fun _ _ => like.deciding
      exact .bind (first nofun mode.operand nofun) fun _ _ corresponds =>
        like.branch corresponds further (like.deciding corresponds)
    · have further := Pairs.bind (second nofun mode.operand nofun) fun _ _ => like.deciding
      exact .bind (first nofun mode.operand nofun) fun _ _ corresponds =>
        like.branch corresponds (like.deciding corresponds) further
    · have whole := parts.left kind nofun
      cases left with
      | binary link condition chosen =>
        have decision (other : link ≠ .colon) :=
          eval_resembles parts like .guard condition (parts.left whole other) nofun
        have taken (other : link ≠ .member) :=
          eval_resembles parts like mode chosen (parts.right whole other) targets
        split
        · rename_i eq
          cases eq
          exact .bind (decision nofun) fun _ _ corresponds =>
            like.branch corresponds (taken nofun) (second nofun mode targets)
        · exact .throw _
      | _ => exact .throw _
    · exact .bind (first nofun mode.operand nofun) fun _ _ _ => second nofun mode targets
    · have written := parts.assigns kind rfl
      exact .bind (second nofun mode.operand nofun) fun _ _ given =>
        .bind (first nofun .writing fun _ => written) fun _ _ target => like.assigned written target given
    · split
      · rename_i assigns
        have written := parts.assigns kind assigns
        have other := ordinary_of rfl rfl assigns
        exact .bind (second other.2 mode.operand nofun) fun _ _ given =>
          .bind_same (like.value given) fun _ =>
            .bind (first other.1 .writing fun _ => written) fun _ _ target =>
              .bind (like.updated written target _) fun _ _ _ => .pure (like.settled written target)
      · split
        · rename_i takes
          have other := ordinary_of rfl rfl takes
          exact .bind (first other.1 mode.operand nofun) fun _ _ one =>
            .bind (second other.2 mode.operand nofun) fun _ _ next =>
              .bind_same (like.value one) fun _ => .bind_same (like.value next) fun _ => like.ofResult _
        · exact .throw _
termination_by 2 * sizeOf expr
decreasing_by
  all_goals
    simp only [Expr.unary.sizeOf_spec, Expr.binary.sizeOf_spec, Expr.bracketed.sizeOf_spec] at *
    omega

theorem evalItems_resembles (parts : Parts fits known writes) (like : Resemblance alike same known writes)
    (mode : EvalMode) (items : List Expr) :
    (∀ item ∈ items, fits item) → (mode.target = true → writes = true) →
      Pairs alike (· = ·) alike (Eval.evalItems mode items) (Eval.evalItems mode items) := by
  cases items with
  | nil =>
    intro _ _
    unfold Eval.evalItems
    exact .pure rfl
  | cons item rest =>
    intro kinds targets
    have := Expr.sizeOf_pos item
    have first := eval_resembles parts like mode item (kinds item (List.mem_cons_self ..)) targets
    have further := evalItems_resembles parts like mode rest
      (fun other member => kinds other (List.mem_cons_of_mem _ member)) targets
    unfold Eval.evalItems
    exact .bind first fun _ _ corresponds =>
      .bind_same (like.value corresponds) fun _ => .bind_same further fun _ => .pure rfl
termination_by 2 * Expr.totalSize items + 1
decreasing_by
  all_goals
    simp only [Expr.totalSize_cons]
    omega

theorem evalEntries_resembles (parts : Parts fits known writes) (like : Resemblance alike same known writes)
    (mode : EvalMode) (dict : List (String × Value)) (items : List Expr) :
    (∀ item ∈ items, fits item) → (mode.target = true → writes = true) →
      Pairs alike (· = ·) alike (Eval.evalEntries mode dict items) (Eval.evalEntries mode dict items) := by
  cases items with
  | nil =>
    intro _ _
    unfold Eval.evalEntries
    exact .pure rfl
  | cons item rest =>
    intro kinds targets
    have := Expr.sizeOf_pos item
    unfold Eval.evalEntries
    split
    · exact .throw _
    · rename_i key element found
      have := Expr.sizeOf_entry?_lt found
      obtain ⟨keyKind, elementKind⟩ := parts.entry (kinds item (List.mem_cons_self ..)) found
      have goesOn (name : String) : Pairs alike (· = ·) alike
          (do
            let value ← Eval.valueOf (← Eval.eval mode element)
            Eval.evalEntries mode (Entries.insert name value dict) rest)
          (do
            let value ← Eval.valueOf (← Eval.eval mode element)
            Eval.evalEntries mode (Entries.insert name value dict) rest) :=
        .bind (eval_resembles parts like mode element elementKind targets) fun _ _ corresponds =>
          .bind_same (like.value corresponds) fun _ =>
            evalEntries_resembles parts like mode _ rest
              (fun other member => kinds other (List.mem_cons_of_mem _ member)) targets
      dsimp only
      split
      · exact goesOn _
      · rename_i unnamed
        exact .bind (eval_resembles parts like mode key (keyKind unnamed) targets) fun _ _ corresponds =>
          .bind_same (like.value corresponds) fun _ => goesOn _
termination_by 2 * Expr.totalSize items + 1
decreasing_by
  all_goals
    simp only [Expr.totalSize_cons]
    omega

end

end

/-! Evaluation in two contexts that look alike. An expression sees of a context what its names
stand for; one that names nothing sees nothing, so that any two contexts look alike to it. -/

/-- Two handles are the same, of a kind that may be looked at. -/
def Same (seen : Handle → Prop) (first second : Handle) : Prop := first = second ∧ seen first

/-- Contexts that look alike through the handles of a kind and through the names that are known. -/
structure Likeness (alike : Context → Context → Prop) (seen : Handle → Prop)
    (known : String → Prop) : Prop where
  owned : ∀ value, seen (.owned value)
  valueOf : ∀ {first second handle}, alike first second → seen handle →
    first.valueOf handle = second.valueOf handle
  member : ∀ {first second base}, alike first second → seen base → ∀ target member,
    Same seen (Member.ofHandle first base target member) (Member.ofHandle second base target member)
  settled : ∀ {handle}, seen handle → seen handle.settled
  updated : ∀ {handle}, seen handle → ∀ change,
    Pairs alike (fun _ _ => True) alike (Assignment.update handle change)
      (Assignment.update handle change)
  assigned : ∀ {target value}, seen target → seen value →
    Pairs alike (Same seen) alike (Assignment.assign target value) (Assignment.assign target value)
  looked : ∀ mode {name}, known name →
    Pairs alike (Same seen) alike (Eval.lookupName mode name) (Eval.lookupName mode name)
  declared : ∀ {name}, known name →
    Pairs alike (Same seen) alike (Eval.declare name) (Eval.declare name)

/-- An expression that sees of a context what may be seen. -/
def Sees (known : String → Prop) (expr : Expr) : Prop := ∀ name ∈ expr.names, known name

section

variable {alike : Context → Context → Prop} {seen : Handle → Prop} {known : String → Prop}

/-! What is seen of an expression is seen of its parts. -/

theorem Sees.of_names {expr part : Expr} (sees : Sees known expr) (named : part.names ⊆ expr.names) :
    Sees known part :=
  fun name member => sees name (named member)

theorem Sees.left {op : Op} {left right : Expr} (sees : Sees known (.binary op left right))
    (other : op ≠ .colon) : Sees known left :=
  sees.of_names (Expr.names_left other left right)

theorem Sees.right {op : Op} {left right : Expr} (sees : Sees known (.binary op left right))
    (other : op ≠ .member) : Sees known right :=
  sees.of_names (Expr.names_right other left right)

theorem Sees.items {expr : Expr} (sees : Sees known expr) : ∀ item ∈ expr.items, Sees known item :=
  fun item member => sees.of_names (Expr.names_items item member)

theorem sees_parts (known : String → Prop) : Parts (Sees known) known true where
  name sees := sees _ (List.mem_singleton_self _)
  operand sees := sees
  left sees other := sees.left other
  right sees other := sees.right other
  inner sees := sees
  items sees := sees.items
  entry sees found :=
    ⟨fun unnamed => sees.of_names ((Expr.names_entry? found).1 unnamed), sees.of_names (Expr.names_entry? found).2⟩
  declares {operand name} sees found := by
    have named : name ∈ operand.names := Expr.mem_names_of_name? found
    exact ⟨rfl, sees name named⟩
  steps _ _ := rfl
  assigns _ _ := rfl

/-- Where the handles of a kind look the same, the same handles correspond. -/
theorem Likeness.resemblance (like : Likeness alike seen known) :
    Resemblance alike (Same seen) known true where
  owned value := ⟨rfl, like.owned value⟩
  valueOf := by
    rintro first second handle _ related ⟨rfl, visible⟩
    exact like.valueOf related visible
  called := by
    rintro callee _ ⟨rfl, -⟩ arguments
    rfl
  member := by
    rintro first second base _ related ⟨rfl, visible⟩ target _ member
    exact like.member related visible target member
  settled := by
    rintro - handle _ ⟨rfl, visible⟩
    exact ⟨rfl, like.settled visible⟩
  updated := by
    rintro - handle _ ⟨rfl, visible⟩ change
    exact like.updated visible change
  assigned := by
    rintro - target _ value _ ⟨rfl, visible⟩ ⟨rfl, given⟩
    exact like.assigned visible given
  looked := like.looked
  declared _ := like.declared

theorem eval_alike (like : Likeness alike seen known) (mode : EvalMode) (expr : Expr) (sees : Sees known expr) :
    Pairs alike (Same seen) alike (Eval.eval mode expr) (Eval.eval mode expr) :=
  eval_resembles (sees_parts known) like.resemblance mode expr sees fun _ => rfl

theorem evalItems_alike (like : Likeness alike seen known) (mode : EvalMode) (items : List Expr)
    (sees : ∀ item ∈ items, Sees known item) :
    Pairs alike (· = ·) alike (Eval.evalItems mode items) (Eval.evalItems mode items) :=
  evalItems_resembles (sees_parts known) like.resemblance mode items sees fun _ => rfl

end

end Rules

end HtmlTemplate
