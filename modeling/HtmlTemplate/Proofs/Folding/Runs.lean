import HtmlTemplate.Proofs.Folding.Abreast
import HtmlTemplate.Proofs.Rules.Resemblance
import HtmlTemplate.Template.Source

/-! Constants have the same value in every context, and evaluating one changes nothing. -/

namespace HtmlTemplate.Folding

/-- A handle that leads nowhere in a context. -/
def Fixed (handle : Handle) : Prop := handle = .absent ∨ ∃ value, handle = .owned value

theorem fixed_ofOwned (value : Value) (member : Member) : Fixed (Member.ofOwned value member) := by
  unfold Member.ofOwned
  split
  · exact .inr ⟨_, rfl⟩
  · exact .inr ⟨_, rfl⟩
  · exact .inl rfl

/-- To an expression that names nothing, any two contexts look alike. -/
theorem constant_likeness (first second : Context) :
    Rules.Likeness (fun context twin => context = first ∧ twin = second) Fixed fun _ => False where
  owned value := .inr ⟨value, rfl⟩
  valueOf := by
    rintro _ _ handle ⟨rfl, rfl⟩ (rfl | ⟨value, rfl⟩)
    · rfl
    · rfl
  member := by
    rintro _ _ base ⟨rfl, rfl⟩ (rfl | ⟨value, rfl⟩) target member
    · exact ⟨rfl, .inl rfl⟩
    · exact ⟨rfl, fixed_ofOwned value member⟩
  settled := by
    rintro handle (rfl | ⟨value, rfl⟩)
    · exact .inl rfl
    · exact .inr ⟨value, rfl⟩
  updated := by
    rintro handle (rfl | ⟨value, rfl⟩) change
    · exact fun _ _ related => .error related
    · exact fun _ _ related => .error related
  assigned := by
    rintro target value (rfl | ⟨owned, rfl⟩) _
    · exact fun _ _ related => .error related
    · exact fun _ _ related => .error related
  looked _ _ := False.elim
  declared := False.elim

theorem eval_const {expr : Expr} (const : expr.isConst = true) (mode : EvalMode)
    (first second : Context) :
    Rules.Alike (Rules.Same Fixed) (fun context twin => context = first ∧ twin = second)
      (Eval.eval mode expr first) (Eval.eval mode expr second) :=
  Rules.eval_alike (constant_likeness first second) mode expr
    (fun name member => by rw [Expr.names_of_isConst const] at member; cases member)
    first second ⟨rfl, rfl⟩

theorem read?_fixed {handle : Handle} (fixed : Fixed handle) (first second : Context) :
    first.read? handle = second.read? handle := by
  rcases fixed with rfl | ⟨value, rfl⟩
  · rfl
  · rfl

/-- An evaluation whose outcome is settled before there is a context: a value of its own, nothing,
or one fault. It leaves every context as it is, but for the report of the fault. -/
inductive Detached (evaluation : Context → Handle × Context) : Prop where
  | owned (value : Value) (yields : ∀ context, evaluation context = (.owned value, context))
  | absent (yields : ∀ context, evaluation context = (.absent, context))
  | fails (fault : EvalFault)
    (reports : ∀ context, evaluation context = (.undefined, context.reportFault fault))

theorem evaluate_const {expr : Expr} (const : expr.isConst = true) (mode : EvalMode) :
    Detached (Context.evaluate mode expr) := by
  have alike := eval_const const mode .new
  unfold Context.evaluate
  generalize Eval.eval mode expr .new = first at alike
  obtain ⟨fault | handle, after⟩ := first
  · apply Detached.fails fault
    intro context
    have alike := alike context
    generalize Eval.eval mode expr context = second at alike
    cases alike with
    | error related =>
      obtain ⟨-, rfl⟩ := related
      rfl
  · have found (context : Context) :
        Fixed handle ∧ Eval.eval mode expr context = (.ok handle, context) := by
      have alike := alike context
      generalize Eval.eval mode expr context = second at alike
      cases alike with
      | ok same related =>
        obtain ⟨rfl, fixed⟩ := same
        obtain ⟨-, rfl⟩ := related
        exact ⟨fixed, rfl⟩
    rcases (found .new).1 with rfl | ⟨value, rfl⟩
    · apply Detached.absent
      intro context
      rw [(found context).2]
    · apply Detached.owned value
      intro context
      rw [(found context).2]

/-- A constant has one outcome as a value and one as a guard, whatever the context, and the
context has no part in it. -/
theorem constant_detached {expr : Expr} (const : expr.isConst = true) :
    Detached (Context.exec expr) ∧ Detached (Context.probe expr) :=
  ⟨evaluate_const const .strict, evaluate_const const .guard⟩

/-- A dictionary with a name as a key, a member of which is to be assigned. -/
def namedKey : Expr :=
  .binary .assign
    (.binary .subscript
      (.bracketed .curly (.binary .comma
        (.binary .colon (.name "first") (.literal (.int 1)))
        (.binary .colon (.literal (.text "second")) (.bracketed .square (.literal .null)))))
      (.bracketed .square (.literal (.text "second"))))
    (.unary .negate (.literal (.int 1)))

theorem namedKey_detached :
    namedKey.isConst = true ∧ Detached (Context.exec namedKey) ∧ Detached (Context.probe namedKey) :=
  have const : namedKey.isConst = true := by decide
  ⟨const, constant_detached const⟩

/-- What is known of an expression before a run is found in every run. -/
theorem execValue?_of_constant? {expr : Expr} {value : Value} (known : expr.constant? = some value)
    (context : Context) : context.execValue? expr = (some value, context) := by
  unfold Expr.constant? at known
  split at known
  · rename_i const
    have alike := eval_const const .strict .new context
    unfold Context.execValue? Context.exec Context.evaluate at known ⊢
    generalize Eval.eval .strict expr .new = before at alike known
    generalize Eval.eval .strict expr context = after at alike
    cases alike with
    | ok same related =>
      obtain ⟨rfl, fixed⟩ := same
      obtain ⟨rfl, rfl⟩ := related
      dsimp only at known ⊢
      rw [← read?_fixed fixed .new, ← known]
      rfl
    | error related =>
      obtain ⟨rfl, rfl⟩ := related
      cases known
  · cases known

/-! A run of chunks and a run of what they are folded into write the same. Chunks that text has
taken the place of put the run without folding ahead, until the text is written with folding. -/

open Rules Render

/-- What is known of an expression before a run is what it has for a value in every run. -/
def Knows (fold : Expr → Option Value) : Prop :=
  ∀ expr value, fold expr = some value → ∀ context : Context,
    context.execValue? expr = (some value, context)

variable {fold : Expr → Option Value} {again : RunOptions → List Chunk → RunM Unit} {text : String}

/-! Chunks that text takes the place of. -/

theorem isElse_becomes {chunk other : Chunk} (becomes : Becomes fold chunk other) :
    other.isElse = chunk.isElse := by
  cases becomes <;> rfl

theorem writeValue_known (knows : Knows fold) {expr : Expr} {value : Value}
    (known : fold expr = some value) (markup : Value → String) :
    writeValue expr markup = write (markup value) := by
  funext state
  unfold writeValue
  rw [bind_eq, inContext_eq, knows expr value known state.context]

/-- A value that escaping does not change is printed whatever the run escapes. -/
theorem output_of_joined {escape : Bool} {value : Value} (joined : staysApart escape value = false)
    (escapes : Bool) : value.output (escape && escapes) = value.printed := by
  cases escape with
  | false => rfl
  | true =>
    cases escapes with
    | false => rfl
    | true => simpa [staysApart] using joined

/-- A chunk that is folded into text writes that text, and does nothing else. -/
theorem runChunk_absorbed (knows : Knows fold) (bound : Nat) {chunk : Chunk} {more : String}
    (known : absorbed? fold chunk = some more) {state : RunState} (endless : state.sink.Endless) :
    ∃ later, runChunk again bound lenient chunk state = (.ok (), later) ∧
      later.context = state.context ∧
      later.sink = { state.sink with text := state.sink.text ++ more } := by
  have writes : write more state =
      (.ok (), { state with sink := { state.sink with text := state.sink.text ++ more } }.remember
        (.wrote more)) := by
    rw [write_eq, endless.write]
    rfl
  cases chunk with
  | text content =>
    cases known
    exact ⟨_, writes, rfl, rfl⟩
  | output escape expr =>
    cases value : fold expr with
    | none => simp [absorbed?, value] at known
    | some found =>
      cases joined : staysApart escape found with
      | true => simp [absorbed?, value, joined] at known
      | false =>
        obtain rfl : found.printed = more := by simpa [absorbed?, value, joined] using known
        unfold runChunk
        rw [bind_eq, getContext_eq]
        dsimp only
        rw [writeValue_known knows value, output_of_joined joined]
        exact ⟨_, writes, rfl, rfl⟩
  | attr escape name expr =>
    obtain ⟨value, found, rfl⟩ := Option.map_eq_some_iff.mp known
    unfold runChunk
    rw [writeValue_known knows found]
    exact ⟨_, writes, rfl, rfl⟩
  | code expr =>
    obtain ⟨value, found, rfl⟩ := Option.map_eq_some_iff.mp known
    have same : (state.context.exec expr).2 = state.context :=
      congrArg Prod.snd (knows expr value found state.context)
    unfold runChunk
    rw [bind_eq, inContext_eq, same, String.append_empty]
    exact ⟨_, rfl, rfl, rfl⟩
  | _ => cases known

theorem takes_of_lone {chunk : Chunk} (lone : chunk.isAlternative = false) (chain : Chain) :
    chain.takes chunk = false := by
  cases chunk with
  | elseIfBlock => cases lone
  | elseBlock => cases lone
  | _ => cases chain <;> rfl

/-- Without folding, a run goes on past a chunk that is folded into text. -/
theorem runChunks_absorbed (knows : Knows fold) (bound : Nat) {chunk : Chunk} {more : String}
    (known : absorbed? fold chunk = some more) (chain : Chain) (rest : List Chunk)
    {plain folded : RunState} (ahead : Ahead fold text plain folded) :
    ∃ later, runChunks again bound lenient chain (chunk :: rest) plain =
        runChunks again bound lenient .closed rest later ∧ Ahead fold (text ++ more) later folded := by
  obtain ⟨lone, -⟩ := linked_of_absorbed fold known
  have closes : chunk.opensChain = false := by
    cases chunk with
    | ifBlock => cases known
    | unlessBlock => cases known
    | eachBlock => cases known
    | _ => rfl
  obtain ⟨calm, -⟩ := ahead.twins.calm
  obtain ⟨later, ran, same, sink⟩ := runChunk_absorbed knows bound known
    (ahead.remember .began).endless
  have calmLater : Calm later.context := same ▸ calm
  rw [runChunks_alone again bound lenient (takes_of_lone lone chain) closes, afterChain_calm calm,
    bind_eq, ran]
  dsimp only
  rw [bind_eq, flushReports_calm calmLater]
  refine ⟨later, rfl, same ▸ ahead.twins, ?_, ?_, ahead.other⟩
  · rw [sink, ← String.append_assoc, ← ahead.wrote]
    rfl
  · rw [sink]
    exact ⟨ahead.endless.limit, ahead.endless.whole⟩

/-- With folding, a run catches up when the text is written. -/
theorem write_level {plain folded : RunState} (ahead : Ahead fold text plain folded) :
    ∃ later, write text folded = (.ok (), later) ∧ Level fold plain later := by
  rw [write_eq, ahead.other.write]
  refine ⟨_, rfl, ahead.twins, ?_, ahead.endless, ⟨ahead.other.limit, ahead.other.whole⟩⟩
  rw [String.append_empty]
  exact ahead.wrote

theorem pairs_written {first : RunM Unit} (bound : Nat) (chain : Chain) (text : String)
    (rest : List Chunk)
    (goesOn : ∀ other : Chain, (text = "" → other = chain) → (text ≠ "" → other = .closed) →
      Pairs (Level fold) (· = ·) (Level fold) first (runChunks again bound lenient other rest)) :
    Pairs (Ahead fold text) (· = ·) (Level fold) first
      (runChunks again bound lenient chain (written text ++ rest)) := by
  intro plain folded ahead
  by_cases empty : text = ""
  · subst empty
    exact goesOn chain (fun _ => rfl) (fun other => absurd rfl other) plain folded ahead
  · have untaken : chain.takes (.text text) = false := takes_of_lone rfl chain
    obtain ⟨-, calm⟩ := ahead.twins.calm
    obtain ⟨later, wrote, level⟩ := write_level (ahead.remembered .began)
    obtain ⟨-, calmLater⟩ := level.twins.calm
    rw [written, if_neg empty, List.singleton_append,
      runChunks_alone again bound lenient untaken rfl, afterChain_calm calm, bind_eq]
    unfold runChunk
    rw [wrote]
    dsimp only
    rw [bind_eq, flushReports_calm calmLater]
    exact goesOn .closed (fun same => absurd same empty) (fun _ => rfl) plain later level

theorem isElse_of_lone {chunk : Chunk} (lone : chunk.isAlternative = false) : chunk.isElse = false :=
  (Bool.or_eq_false_iff.mp lone).2

/-- The alternative to a loop is there with folding if it is there without. -/
theorem isElse_head {joined : Bool} {chunks folded : List Chunk}
    (folds : Folds fold joined text chunks folded) (together : joined = true → text = "") :
    folded.head?.any Chunk.isElse = (joined && chunks.head?.any Chunk.isElse) := by
  induction chunks generalizing joined text with
  | nil =>
    cases folds
    rw [List.head?_nil, Option.any_none, Bool.and_false]
    unfold written
    split <;> rfl
  | cons chunk rest step =>
    cases folds with
    | absorbed known further =>
      obtain ⟨lone, -⟩ := linked_of_absorbed fold known
      rw [step further nofun, List.head?_cons, Option.any_some, isElse_of_lone lone, Bool.and_false,
        Bool.false_and]
    | kept linked becomes further =>
      rw [List.head?_cons, Option.any_some]
      cases joined with
      | true =>
        obtain rfl := together rfl
        exact isElse_becomes becomes
      | false =>
        have lone : chunk.isAlternative = false := Bool.eq_false_iff.mpr fun alternative => nomatch linked alternative
        rw [Bool.false_and]
        unfold written
        split
        · exact (isElse_becomes becomes).trans (isElse_of_lone lone)
        · rfl

/-- Once the value has been found, branches without bodies do nothing. -/
theorem runBranches_noneHas (bound : Nat) (options : RunOptions) (subject : Value)
    {branches : List Chunk} (noneHas : NoneHas branches) :
    runBranches again bound options subject true branches = pure () := by
  induction branches with
  | nil => rfl
  | cons branch rest step =>
    have further := step fun value body member => noneHas value body (List.mem_cons_of_mem _ member)
    cases branch with
    | whenBlock value body =>
      obtain rfl := noneHas value body (List.mem_cons_self ..)
      unfold runBranches
      exact further
    | _ => exact further

theorem runBranches_stray (bound : Nat) (options : RunOptions) (subject : Value) (matched : Bool)
    {chunk : Chunk} (stray : chunk.isBranch = false) (rest : List Chunk) :
    runBranches again bound options subject matched (chunk :: rest) =
      runBranches again bound options subject matched rest := by
  cases chunk with
  | whenBlock => cases stray
  | defaultBlock => cases stray
  | _ => rfl

/-! Chunks that are found by their names. -/

/-- Bodies that correspond are run alike. -/
def AllAlike (fold : Expr → Option Value) (again : RunOptions → List Chunk → RunM Unit) : Prop :=
  ∀ body folded, Folds fold true "" body folded →
    Pairs (Level fold) (· = ·) (Level fold) (again lenient body) (again lenient folded)

/-- Where there is no template to include, only a comment is written. -/
theorem runInclude_calm (name : String) (depth : Nat) {state : RunState} (calm : Calm state.context) :
    runInclude again lenient name depth state =
      write (comment ("fail to include " ++ name)) state := by
  rw [runInclude_missing again lenient depth (calm.alone name)]
  rfl

/-! Runs. -/

theorem pairs_end (bound : Nat) (chain other : Chain) :
    Pairs (Level fold) (· = ·) (Level fold) (runChunks again bound lenient chain [])
      (runChunks again bound lenient other []) := by
  intro plain folded level
  have ends (chain : Chain) {state : RunState} (calm : Calm state.context) :
      runChunks again bound lenient chain [] state = (.ok (), state) := by
    rw [runChunks_nil]
    split
    · exact flushReports_calm calm
    · rfl
  obtain ⟨calm, other⟩ := level.twins.calm
  rw [ends _ calm, ends _ other]
  exact .ok rfl level

theorem lone_of_bodiless {chunk : Chunk} (bodiless : chunk.bodiless = true) :
    chunk.isAlternative = false ∧ chunk.opensChain = false := by
  cases chunk <;> first | exact ⟨rfl, rfl⟩ | cases bodiless

theorem empty_of_folds {folded : List Chunk} (folds : Folds fold true "" [] folded) : folded = [] := by
  cases folds
  rfl

mutual

theorem runChunks_folds (knows : Knows fold) (alike : AllAlike fold again) (bound : Nat)
    {joined : Bool} {text : String} (chunks : List Chunk) {folded : List Chunk}
    (folds : Folds fold joined text chunks folded) {chain other : Chain}
    (together : joined = true → chain = other ∧ text = "") :
    Pairs (Ahead fold text) (· = ·) (Level fold) (runChunks again bound lenient chain chunks)
      (runChunks again bound lenient other folded) := by
  cases chunks with
  | nil =>
    cases folds
    rw [← List.append_nil (written text)]
    exact pairs_written bound other text [] fun caught _ _ => pairs_end bound chain caught
  | cons chunk rest =>
    cases folds with
    | absorbed known further =>
      intro plain folded ahead
      obtain ⟨later, ran, ahead⟩ := runChunks_absorbed knows bound known chain rest ahead
      rw [ran]
      exact runChunks_folds knows alike bound rest further nofun later folded ahead
    | @kept _ _ _ twin _ others linked becomes further =>
      apply pairs_written
      intro caught same closed
      have goesOn (chain : Chain) : Pairs (Level fold) (· = ·) (Level fold)
          (runChunks again bound lenient chain rest) (runChunks again bound lenient chain others) :=
        runChunks_folds knows alike bound rest further fun _ => ⟨rfl, rfl⟩
      have met (alternative : chunk.isAlternative = true) : chain = caught := by
        obtain ⟨one, empty⟩ := together (linked alternative)
        exact one.trans (same empty).symm
      have one := runChunk_becomes knows alike bound chunk becomes
      have alone (untaken : chain.takes chunk = false) (untakenTwin : caught.takes twin = false)
          (closes : chunk.opensChain = false) (closesTwin : twin.opensChain = false) :
          Pairs (Level fold) (· = ·) (Level fold) (runChunks again bound lenient chain (chunk :: rest))
            (runChunks again bound lenient caught (twin :: others)) := by
        rw [runChunks_alone again bound lenient untaken closes,
          runChunks_alone again bound lenient untakenTwin closesTwin]
        exact pairs_afterChain _ _ (.bind_same one fun _ => pairs_flush (goesOn .closed))
      have lone (first : chunk.isAlternative = false) (second : twin.isAlternative = false)
          (closes : chunk.opensChain = false) (closesTwin : twin.opensChain = false) :=
        alone (takes_of_lone first chain) (takes_of_lone second caught) closes closesTwin
      cases becomes with
      | same _ bodiless =>
        obtain ⟨first, closes⟩ := lone_of_bodiless bodiless
        exact lone first first closes closes
      | @ifBlock guard body folded inner =>
        have body := runBody_folds knows alike bound body inner
        rw [runChunks_if, runChunks_if]
        exact pairs_afterChain _ _ (.bind_same (level_abreast.branch guard false body) fun _ => goesOn _)
      | @unlessBlock guard body folded inner =>
        have body := runBody_folds knows alike bound body inner
        rw [runChunks_unless, runChunks_unless]
        exact pairs_afterChain _ _ (.bind_same (level_abreast.branch guard true body) fun _ => goesOn _)
      | @elseIfBlock guard body folded inner =>
        have body := runBody_folds knows alike bound body inner
        obtain rfl := met rfl
        cases chain with
        | conditions done =>
          rw [runChunks_elseIf, runChunks_elseIf]
          cases done with
          | true => exact .bind_same (.pure rfl) fun _ => goesOn _
          | false =>
            exact .bind_same (pairs_note _) fun _ =>
              .bind_same (level_abreast.branch guard false body) fun _ => goesOn _
        | _ => exact alone rfl rfl rfl rfl
      | @elseBlock body folded inner =>
        have body := runBody_folds knows alike bound body inner
        obtain rfl := met rfl
        cases isOpen : chain.isOpen with
        | true =>
          rw [runChunks_else again bound lenient isOpen, runChunks_else again bound lenient isOpen]
          cases chain.isDone with
          | true => exact pairs_flush (goesOn .closed)
          | false => exact .bind_same (level_abreast.inScope body) fun _ => pairs_flush (goesOn .closed)
        | false =>
          cases chain with
          | closed => exact alone rfl rfl rfl rfl
          | _ => cases isOpen
      | @eachBlock item key source body folded inner =>
        have body := runBody_folds knows alike bound body inner
        rw [runChunks_each, runChunks_each, isElse_head further fun _ => rfl]
        exact pairs_afterChain _ _ (.bind_same (level_abreast.inScope (level_abreast.loop item key source _ body))
          fun _ => goesOn _)
      | _ => exact lone rfl rfl rfl rfl
termination_by 2 * sizeOf chunks
decreasing_by
  all_goals
    subst_vars
    simp <;> omega

theorem runBody_folds (knows : Knows fold) (alike : AllAlike fold again) (bound : Nat)
    (body : List Chunk) {folded : List Chunk} (inner : Folds fold true "" body folded) :
    Pairs (Level fold) (· = ·) (Level fold)
      (entering body (runChunks again bound lenient .closed body))
      (entering folded (runChunks again bound lenient .closed folded)) :=
  pairs_entering body folded (runChunks_folds knows alike bound body inner fun _ => ⟨rfl, rfl⟩)
termination_by 2 * sizeOf body + 1
decreasing_by omega

theorem runChunk_becomes (knows : Knows fold) (alike : AllAlike fold again) (bound : Nat)
    (chunk : Chunk) {twin : Chunk} (becomes : Becomes fold chunk twin) :
    Pairs (Level fold) (· = ·) (Level fold) (runChunk again bound lenient chunk)
      (runChunk again bound lenient twin) := by
  cases becomes with
  | same _ bodiless =>
    cases chunk with
    | text content =>
      unfold runChunk
      exact pairs_write content
    | output escape expr =>
      unfold runChunk
      exact level_abreast.escaping fun escapes => level_abreast.writeValue expr (·.output (escape && escapes))
    | escapable content =>
      unfold runChunk
      exact level_abreast.escaping fun escapes => pairs_write (Value.escapeIf escapes content)
    | attr escape name expr =>
      unfold runChunk
      exact level_abreast.writeValue expr _
    | attrs expr =>
      unfold runChunk
      exact level_abreast.writeValue expr _
    | code expr =>
      unfold runChunk
      exact .bind_same (pairs_inContext (fun _ => evaluate_ignores (mixins_unseen _) .strict expr)
        (evaluate_acts calm_kept .strict expr)) fun _ => .pure rfl
    | includeTemplate name depth =>
      intro plain folded level
      obtain ⟨calm, other⟩ := level.twins.calm
      unfold runChunk
      rw [runInclude_calm name depth calm, runInclude_calm name depth other]
      exact pairs_write _ plain folded level
    | mixinCall name arguments =>
      unfold runChunk
      exact level_abreast.mixinCall alike SameMixin.body name arguments
    | _ => cases bodiless
  | @escapable expr value known =>
    have writes (escapes : Bool) : Pairs (Level fold) (· = ·) (Level fold)
        (writeValue expr (·.output (true && escapes)))
        (write (Value.escapeIf escapes value.printed)) := by
      rw [writeValue_known knows known]
      exact pairs_write _
    unfold runChunk
    exact level_abreast.escaping writes
  | @caseBlock subject branches folded inner =>
    unfold runChunk
    exact level_abreast.inScope (.bind_same (pairs_inContext (fun _ => execValue_ignores (mixins_unseen _) subject)
      (execValue_acts calm_kept subject)) fun value =>
        runBranches_branches knows alike bound value false branches inner)
  | @whileBlock guard body folded inner =>
    have body := runBody_folds knows alike bound body inner
    unfold runChunk
    exact level_abreast.whileStep guard body bound
  | mixin inner =>
    unfold runChunk
    exact pairs_modify fun _ _ twins => twins.define _ _ inner
  | _ =>
    unfold runChunk
    exact .pure rfl
termination_by 2 * sizeOf chunk
decreasing_by
  all_goals
    subst_vars
    simp <;> omega

theorem runBranches_branches (knows : Knows fold) (alike : AllAlike fold again) (bound : Nat)
    (subject : Value) (matched : Bool) (branches : List Chunk) {folded : List Chunk}
    (same : Branches fold branches folded) :
    Pairs (Level fold) (· = ·) (Level fold)
      (runBranches again bound lenient subject matched branches)
      (runBranches again bound lenient subject matched folded) := by
  cases branches with
  | nil =>
    cases same
    unfold runBranches
    exact .pure rfl
  | cons branch rest =>
    cases same with
    | @whenBlock value body folded _ others inner lost further =>
      have goesOn (matched : Bool) :=
        runBranches_branches knows alike bound subject matched rest further
      have whole := runBody_folds knows alike bound body inner
      have chosen (matched : Bool) : Pairs (Level fold) (· = ·) (Level fold)
          (if matched && !body.isEmpty then
            entering body (runChunks again bound lenient .closed body)
          else runBranches again bound lenient subject matched rest)
          (if matched && !folded.isEmpty then
            entering folded (runChunks again bound lenient .closed folded)
          else runBranches again bound lenient subject matched others) := by
        cases matched with
        | false => exact goesOn false
        | true =>
          cases folded with
          | cons first others =>
            cases body with
            | nil => cases empty_of_folds inner
            | cons => exact whole
          | nil =>
            cases body with
            | nil => exact goesOn true
            | cons first more =>
              rcases lost rfl with none | noneHas
              · cases none
              · rw [runBranches_noneHas bound lenient subject noneHas]
                exact whole
      unfold runBranches
      cases matched with
      | true => exact .bind_same (.pure rfl) chosen
      | false =>
        exact .bind_same (pairs_note _) fun _ =>
          .bind_same (pairs_inContext (fun _ => execValue_ignores (mixins_unseen _) value)
            (execValue_acts calm_kept value))
            fun _ => .bind_same (.pure rfl) chosen
    | @defaultBlock body folded _ others inner further =>
      have goesOn := runBranches_branches knows alike bound subject matched rest further
      have body := runBody_folds knows alike bound body inner
      unfold runBranches
      split
      · exact goesOn
      · exact body
    | stray first second further =>
      rw [runBranches_stray bound lenient subject matched first,
        runBranches_stray bound lenient subject matched second]
      exact runBranches_branches knows alike bound subject matched rest further
termination_by 2 * sizeOf branches
decreasing_by
  all_goals
    subst_vars
    simp <;> omega

end

end HtmlTemplate.Folding
