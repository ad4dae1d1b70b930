import HtmlTemplate.Proofs.Rules.Chunks
import HtmlTemplate.Proofs.Rules.Resemblance

/-! Relations between two runs of the same chunks, or of chunks that differ in their texts. A relation
that goes through the parts that runs are made of relates the runs of all chunks. What is true of one
run relates the run to itself. -/

namespace HtmlTemplate

namespace Chunk

/-- The chunks inside of a chunk. -/
def body : Chunk → List Chunk
  | ifBlock _ body | unlessBlock _ body | elseIfBlock _ body | elseBlock body | caseBlock _ body
  | whenBlock _ body | defaultBlock body | eachBlock _ _ _ body | whileBlock _ body
  | mixin _ _ body => body
  | _ => []

def isInclude : Chunk → Bool
  | includeTemplate _ _ => true
  | _ => false

def isMixin : Chunk → Bool
  | mixin _ _ _ => true
  | _ => false

mutual

/-- The names in the expressions of a chunk and of the chunks in it. -/
def names (chunk : Chunk) : List String :=
  chunk.expr?.elim [] Expr.names ++
    match chunk with
    | ifBlock _ body | unlessBlock _ body | elseIfBlock _ body | elseBlock body
    | caseBlock _ body | whenBlock _ body | defaultBlock body | eachBlock _ _ _ body
    | whileBlock _ body | mixin _ _ body => namesIn body
    | _ => []

def namesIn : List Chunk → List String
  | [] => []
  | chunk :: rest => names chunk ++ namesIn rest

end

mutual

/-- Whether a template is included, by a chunk or by one in it. -/
def including (chunk : Chunk) : Bool :=
  chunk.isInclude ||
    match chunk with
    | ifBlock _ body | unlessBlock _ body | elseIfBlock _ body | elseBlock body
    | caseBlock _ body | whenBlock _ body | defaultBlock body | eachBlock _ _ _ body
    | whileBlock _ body | mixin _ _ body => includingIn body
    | _ => false

def includingIn : List Chunk → Bool
  | [] => false
  | chunk :: rest => including chunk || includingIn rest

end

mutual

/-- A chunk with other texts in it. -/
def retext (texts : String → String) : Chunk → Chunk
  | text content => text (texts content)
  | ifBlock guard body => ifBlock guard (retextAll texts body)
  | unlessBlock guard body => unlessBlock guard (retextAll texts body)
  | elseIfBlock guard body => elseIfBlock guard (retextAll texts body)
  | elseBlock body => elseBlock (retextAll texts body)
  | caseBlock subject branches => caseBlock subject (retextAll texts branches)
  | whenBlock value body => whenBlock value (retextAll texts body)
  | defaultBlock body => defaultBlock (retextAll texts body)
  | eachBlock item key source body => eachBlock item key source (retextAll texts body)
  | whileBlock guard body => whileBlock guard (retextAll texts body)
  | mixin name signature body => mixin name signature (retextAll texts body)
  | chunk => chunk

def retextAll (texts : String → String) : List Chunk → List Chunk
  | [] => []
  | chunk :: rest => retext texts chunk :: retextAll texts rest

end

theorem retextAll_eq_map (texts : String → String) (chunks : List Chunk) :
    retextAll texts chunks = chunks.map (retext texts) := by
  induction chunks with
  | nil => rfl
  | cons chunk rest step => rw [retextAll, step, List.map_cons]

mutual

theorem retext_id (chunk : Chunk) : retext id chunk = chunk := by
  cases chunk with
  | ifBlock guard body => exact congrArg (ifBlock guard) (retextAll_id body)
  | unlessBlock guard body => exact congrArg (unlessBlock guard) (retextAll_id body)
  | elseIfBlock guard body => exact congrArg (elseIfBlock guard) (retextAll_id body)
  | elseBlock body => exact congrArg elseBlock (retextAll_id body)
  | caseBlock subject branches => exact congrArg (caseBlock subject) (retextAll_id branches)
  | whenBlock value body => exact congrArg (whenBlock value) (retextAll_id body)
  | defaultBlock body => exact congrArg defaultBlock (retextAll_id body)
  | eachBlock item key source body => exact congrArg (eachBlock item key source) (retextAll_id body)
  | whileBlock guard body => exact congrArg (whileBlock guard) (retextAll_id body)
  | mixin name signature body => exact congrArg (mixin name signature) (retextAll_id body)
  | _ => rfl
termination_by structural chunk

theorem retextAll_id (chunks : List Chunk) : retextAll id chunks = chunks := by
  cases chunks with
  | nil => rfl
  | cons chunk rest => rw [retextAll, retext_id chunk, retextAll_id rest]
termination_by structural chunks

end

theorem isElse_retext (texts : String → String) (chunk : Chunk) :
    (retext texts chunk).isElse = chunk.isElse := by
  cases chunk <;> rfl

theorem opensChain_retext (texts : String → String) (chunk : Chunk) :
    (retext texts chunk).opensChain = chunk.opensChain := by
  cases chunk <;> rfl

theorem takes_retext (texts : String → String) (chain : Render.Chain) (chunk : Chunk) :
    chain.takes (retext texts chunk) = chain.takes chunk := by
  cases chain <;> cases chunk <;> rfl

theorem isEmpty_retextAll (texts : String → String) (chunks : List Chunk) :
    (retextAll texts chunks).isEmpty = chunks.isEmpty := by
  cases chunks <;> rfl

/-- With other texts, the alternative to a loop still comes right after it. -/
theorem head_retextAll (texts : String → String) (chunks : List Chunk) :
    (retextAll texts chunks).head?.any isElse = chunks.head?.any isElse := by
  cases chunks with
  | nil => rfl
  | cons chunk rest => exact isElse_retext texts chunk

theorem names_eq (chunk : Chunk) : chunk.names = chunk.expr?.elim [] Expr.names ++ namesIn chunk.body := by
  cases chunk <;> simp [names, body, namesIn]

theorem including_eq (chunk : Chunk) : chunk.including = (chunk.isInclude || includingIn chunk.body) := by
  cases chunk <;> simp [including, body, includingIn]

end Chunk

namespace Rules

open Render

/-- The expressions of some chunks have only names that are known, and the chunks include other
templates only if that is allowed. -/
structure Covers (known : String → Prop) (includes : Prop) (chunks : List Chunk) : Prop where
  names : ∀ name ∈ Chunk.namesIn chunks, known name
  included : Chunk.includingIn chunks = true → includes

namespace Covers

variable {known : String → Prop} {allowed : Prop} {chunk : Chunk} {others : List Chunk}

/-- Where every name is known and templates may be included, nothing is asked of the chunks. -/
theorem everything (chunks : List Chunk) : Covers (fun _ => True) True chunks :=
  ⟨fun _ _ => trivial, fun _ => trivial⟩

theorem rest (covers : Covers known allowed (chunk :: others)) : Covers known allowed others where
  names name member := covers.names name (List.mem_append_right _ member)
  included found := covers.included (by rw [Chunk.includingIn, found, Bool.or_true])

theorem body (covers : Covers known allowed (chunk :: others)) : Covers known allowed chunk.body where
  names name member := by
    apply covers.names name
    rw [Chunk.namesIn, Chunk.names_eq]
    exact List.mem_append_left _ (List.mem_append_right _ member)
  included found := covers.included (by
    rw [Chunk.includingIn, Chunk.including_eq, found, Bool.or_true, Bool.true_or])

theorem sees {expr : Expr} (covers : Covers known allowed (chunk :: others))
    (has : chunk.expr? = some expr) : Sees known expr := by
  intro name member
  apply covers.names name
  rw [Chunk.namesIn, Chunk.names_eq, has]
  exact List.mem_append_left _ (List.mem_append_left _ member)

theorem includes {name : String} {depth : Nat}
    (covers : Covers known allowed (.includeTemplate name depth :: others)) : allowed :=
  covers.included rfl

end Covers

/-- The same run twice, and the run has a property. -/
def Twice (property : {α : Type} → RunM α → Prop) {α : Type} (first second : RunM α) : Prop :=
  first = second ∧ property first

theorem Twice.bind {property : {α : Type} → RunM α → Prop} {α β : Type} {first second : RunM α}
    {next following : α → RunM β}
    (joins : property first → (∀ value, property (next value)) → property (first >>= next))
    (twice : Twice property first second) (goesOn : ∀ value, Twice property (next value) (following value)) :
    Twice property (first >>= next) (second >>= following) := by
  obtain ⟨rfl, holds⟩ := twice
  obtain rfl : next = following := funext fun value => (goesOn value).1
  exact ⟨rfl, joins holds fun value => (goesOn value).2⟩

/-- A relation that goes through the choices and scopes of two runs, for expressions of a kind. -/
structure Chooses (rel : {α : Type} → RunM α → RunM α → Prop) (fits : Expr → Prop) : Prop where
  pure : ∀ {α : Type} (value : α), rel (Pure.pure value) (Pure.pure value)
  bind : ∀ {α β : Type} {first second : RunM α} {next following : α → RunM β}, rel first second →
    (∀ value, rel (next value) (following value)) → rel (first >>= next) (second >>= following)
  began : rel (note .began) (note .began)
  entered : rel (note .entered) (note .entered)
  valued : ∀ {expr}, fits expr →
    rel (inContext (Context.execValue? expr)) (inContext (Context.execValue? expr))
  held : ∀ {guard}, fits guard → rel (inContext (Context.holds guard)) (inContext (Context.holds guard))
  inScope : ∀ {α : Type} {first second : RunM α}, rel first second →
    rel (Render.inScope first) (Render.inScope second)

/-- Chunks of a kind have expressions of a kind, and so do the chunks in them. Of the definition of a
mixin nothing is asked, as nothing in it is run. -/
structure Visits (fits : Expr → Prop) (good : List Chunk → Prop) : Prop where
  rest : ∀ {chunk others}, good (chunk :: others) → good others
  body : ∀ {chunk others}, good (chunk :: others) → chunk.isMixin = false → good chunk.body
  expr : ∀ {chunk others expr}, good (chunk :: others) → chunk.isMixin = false →
    chunk.expr? = some expr → fits expr

/-- A relation of runs of some chunks of a kind and of the same chunks with other texts. `again` and
`twin` run what is found by its name, and loops by a guard are run at most as often as the bounds say. -/
structure Traverses (texts : String → String) (options others : RunOptions)
    (rel : {α : Type} → RunM α → RunM α → Prop) (fits : Expr → Prop) (good : List Chunk → Prop)
    (again twin : RunOptions → List Chunk → RunM Unit) (bound other : Nat) : Prop
    extends Chooses rel fits, Visits fits good where
  written : ∀ text, rel (write text) (write text)
  texted : ∀ text, rel (write text) (write (texts text))
  /-- Whether outputs are escaped is asked for in a run. -/
  escaping : ∀ {next following : Bool → RunM Unit},
    (∀ escapes, rel (next escapes) (following escapes)) →
    rel (do next (← getContext).escapeOutput) (do following (← getContext).escapeOutput)
  flushed : rel (flushReports options) (flushReports others)
  looped : ∀ {item key source inner more}, good (.eachBlock item key source inner :: more) →
    ∀ hasElse {body following : RunM Unit}, rel body following →
    rel (loop item key source hasElse body) (loop item key source hasElse following)
  repeated : ∀ {guard}, fits guard → ∀ {body following : RunM Unit}, rel body following →
    rel (whileStep guard body bound) (whileStep guard following other)
  defined : ∀ {name signature body more}, good (.mixin name signature body :: more) →
    rel (modifyContext (define name signature body))
      (modifyContext (define name signature (Chunk.retextAll texts body)))
  called : ∀ {name arguments more}, good (.mixinCall name arguments :: more) →
    rel
      (do
        match ← enterCall name arguments with
        | some body => closing do
          note .entered
          stepping (again options body)
        | none => return)
      (do
        match ← enterCall name arguments with
        | some body => closing do
          note .entered
          stepping (twin others body)
        | none => return)
  included : ∀ {name depth more}, good (.includeTemplate name depth :: more) →
    rel (runInclude again options name depth) (runInclude twin others name depth)

/-- A relation that goes through the choices and scopes of two runs, for expressions whose names are
known. -/
structure Steers (rel : {α : Type} → RunM α → RunM α → Prop) (known : String → Prop) : Prop where
  pure : ∀ {α : Type} (value : α), rel (Pure.pure value) (Pure.pure value)
  bind : ∀ {α β : Type} {first second : RunM α} {next following : α → RunM β}, rel first second →
    (∀ value, rel (next value) (following value)) → rel (first >>= next) (second >>= following)
  began : rel (note .began) (note .began)
  entered : rel (note .entered) (note .entered)
  valued : ∀ {expr}, Sees known expr →
    rel (inContext (Context.execValue? expr)) (inContext (Context.execValue? expr))
  held : ∀ {guard}, Sees known guard →
    rel (inContext (Context.holds guard)) (inContext (Context.holds guard))
  inScope : ∀ {α : Type} {first second : RunM α}, rel first second →
    rel (Render.inScope first) (Render.inScope second)
  looped : ∀ {source}, Sees known source → ∀ item key hasElse {body following : RunM Unit},
    rel body following → rel (loop item key source hasElse body) (loop item key source hasElse following)

/-- A relation that goes through the parts of two runs, for expressions whose names are known. -/
structure Carries (rel : {α : Type} → RunM α → RunM α → Prop) (known : String → Prop) : Prop
    extends Steers rel known where
  written : ∀ text, rel (write text) (write text)
  /-- Whether outputs are escaped is asked for in a run. -/
  escaping : ∀ {next following : Bool → RunM Unit},
    (∀ escapes, rel (next escapes) (following escapes)) →
    rel (do next (← getContext).escapeOutput) (do following (← getContext).escapeOutput)

/-- A relation of runs of the same chunks. `again` and `twin` run what is found by its name, and loops
by a guard are run at most as often as the bounds say. -/
structure Composes (rel : {α : Type} → RunM α → RunM α → Prop) (known : String → Prop)
    (includes : Prop) (again twin : RunOptions → List Chunk → RunM Unit) (bound other : Nat) : Prop
    extends Carries rel known where
  flushed : ∀ options, rel (flushReports options) (flushReports options)
  repeated : ∀ {guard}, Sees known guard → ∀ {body following : RunM Unit}, rel body following →
    rel (whileStep guard body bound) (whileStep guard following other)
  defined : ∀ name {signature body}, Sees known signature → Covers known includes body →
    rel (modifyContext (define name signature body)) (modifyContext (define name signature body))
  called : ∀ name {arguments : Option Expr}, (∀ expr, arguments = some expr → Sees known expr) →
    ∀ options, rel
      (do
        match ← enterCall name arguments with
        | some body => closing do
          note .entered
          stepping (again options body)
        | none => return)
      (do
        match ← enterCall name arguments with
        | some body => closing do
          note .entered
          stepping (twin options body)
        | none => return)
  included : includes → ∀ options name depth,
    rel (runInclude again options name depth) (runInclude twin options name depth)

/-- A relation of runs of some chunks and of the same chunks with other texts, under options of their
own. -/
structure Rewrites (texts : String → String) (options others : RunOptions)
    (rel : {α : Type} → RunM α → RunM α → Prop) (known : String → Prop) (includes : Prop)
    (again twin : RunOptions → List Chunk → RunM Unit) (bound other : Nat) : Prop
    extends Carries rel known where
  texted : ∀ text, rel (write text) (write (texts text))
  flushed : rel (flushReports options) (flushReports others)
  repeated : ∀ {guard}, Sees known guard → ∀ {body following : RunM Unit}, rel body following →
    rel (whileStep guard body bound) (whileStep guard following other)
  defined : ∀ name {signature body}, Sees known signature → Covers known includes body →
    rel (modifyContext (define name signature body))
      (modifyContext (define name signature (Chunk.retextAll texts body)))
  called : ∀ name {arguments : Option Expr}, (∀ expr, arguments = some expr → Sees known expr) →
    rel
      (do
        match ← enterCall name arguments with
        | some body => closing do
          note .entered
          stepping (again options body)
        | none => return)
      (do
        match ← enterCall name arguments with
        | some body => closing do
          note .entered
          stepping (twin others body)
        | none => return)
  included : includes → ∀ name depth,
    rel (runInclude again options name depth) (runInclude twin others name depth)

section

variable {texts : String → String} {options others : RunOptions}
  {rel : {α : Type} → RunM α → RunM α → Prop} {known : String → Prop} {includes : Prop}
  {fits : Expr → Prop} {good : List Chunk → Prop}
  {again twin : RunOptions → List Chunk → RunM Unit} {bound other : Nat} {α : Type}

namespace Chooses

theorem entering (chooses : Chooses rel fits) {chunks twins : List Chunk}
    (alike : twins.isEmpty = chunks.isEmpty) {first second : RunM Unit} (related : rel first second) :
    rel (Render.entering chunks first) (Render.entering twins second) := by
  unfold Render.entering
  rw [alike]
  cases chunks with
  | nil => exact chooses.bind (chooses.pure ()) fun _ => related
  | cons => exact chooses.bind chooses.entered fun _ => related

theorem branch (chooses : Chooses rel fits) {guard : Expr} (known : fits guard) (negate : Bool)
    {first second : RunM Unit} (related : rel first second) :
    rel (Render.branch guard negate first) (Render.branch guard negate second) := by
  apply chooses.inScope
  apply chooses.bind (chooses.held known)
  intro held
  dsimp only
  split
  · exact chooses.bind related fun _ => chooses.pure _
  · exact chooses.pure _

/-- The value of an expression that has none is null. -/
theorem value (chooses : Chooses rel fits) {expr : Expr} (known : fits expr) :
    rel (inContext (Context.execValue expr)) (inContext (Context.execValue expr)) := by
  have same : inContext (Context.execValue expr) = (do
      let value ← inContext (Context.execValue? expr)
      return value.getD .null) := rfl
  rw [same]
  exact chooses.bind (chooses.valued known) fun value => chooses.pure (value.getD .null)

end Chooses

namespace Traverses

theorem writeValue
    (traverses : Traverses texts options others rel fits good again twin bound other) {expr : Expr} (known : fits expr)
    (text : Value → String) : rel (Render.writeValue expr text) (Render.writeValue expr text) := by
  apply traverses.bind (traverses.valued known)
  intro value
  cases value with
  | none => exact traverses.pure ()
  | some value => exact traverses.written _

theorem afterChain (traverses : Traverses texts options others rel fits good again twin bound other)
    (chain : Chain) {first second : RunM α} (related : rel first second) :
    rel (Render.afterChain options chain first) (Render.afterChain others chain second) := by
  have began := traverses.bind traverses.began fun _ => related
  unfold Render.afterChain
  cases chain.isOpen with
  | true => exact traverses.bind traverses.flushed fun _ => began
  | false => exact began

end Traverses

mutual

theorem runChunks_traverses
    (traverses : Traverses texts options others rel fits good again twin bound other)
    (chain : Chain) (chunks : List Chunk) (goods : good chunks) :
    rel (runChunks again bound options chain chunks)
      (runChunks twin other others chain (Chunk.retextAll texts chunks)) := by
  cases chunks with
  | nil =>
    rw [Chunk.retextAll, runChunks_nil, runChunks_nil]
    split
    · exact traverses.flushed
    · exact traverses.pure ()
  | cons chunk rest =>
    have further (chain : Chain) := runChunks_traverses traverses chain rest (traverses.rest goods)
    have one := runChunk_traverses traverses chunk goods
    have alone (untaken : chain.takes chunk = false) (closes : chunk.opensChain = false) :
        rel (runChunks again bound options chain (chunk :: rest))
          (runChunks twin other others chain (chunk.retext texts :: Chunk.retextAll texts rest)) := by
      rw [runChunks_alone again bound options untaken closes,
        runChunks_alone twin other others ((Chunk.takes_retext texts chain chunk).trans untaken)
          ((Chunk.opensChain_retext texts chunk).trans closes)]
      exact traverses.afterChain chain (traverses.bind one fun _ =>
        traverses.bind traverses.flushed fun _ => further _)
    rw [Chunk.retextAll]
    cases chunk with
    | ifBlock guard body =>
      have inner := runBody_traverses traverses body (traverses.body goods rfl)
      rw [Chunk.retext, runChunks_if, runChunks_if]
      exact traverses.afterChain chain
        (traverses.bind (traverses.branch (traverses.expr goods rfl rfl) false inner) fun _ => further _)
    | unlessBlock guard body =>
      have inner := runBody_traverses traverses body (traverses.body goods rfl)
      rw [Chunk.retext, runChunks_unless, runChunks_unless]
      exact traverses.afterChain chain
        (traverses.bind (traverses.branch (traverses.expr goods rfl rfl) true inner) fun _ => further _)
    | eachBlock item key source body =>
      have inner := runBody_traverses traverses body (traverses.body goods rfl)
      rw [Chunk.retext, runChunks_each, runChunks_each, Chunk.head_retextAll]
      exact traverses.afterChain chain
        (traverses.bind (traverses.inScope (traverses.looped goods _ inner)) fun _ => further _)
    | elseIfBlock guard body =>
      have inner := runBody_traverses traverses body (traverses.body goods rfl)
      cases chain with
      | conditions done =>
        rw [Chunk.retext, runChunks_elseIf, runChunks_elseIf]
        cases done with
        | true => exact traverses.bind (traverses.pure true) fun _ => further _
        | false =>
          exact traverses.bind traverses.entered fun _ =>
            traverses.bind (traverses.branch (traverses.expr goods rfl rfl) false inner) fun _ => further _
      | _ => exact alone rfl rfl
    | elseBlock body =>
      have inner := runBody_traverses traverses body (traverses.body goods rfl)
      have ends := traverses.bind traverses.flushed fun _ => further .closed
      cases isOpen : chain.isOpen with
      | true =>
        rw [Chunk.retext, runChunks_else again bound options isOpen,
          runChunks_else twin other others isOpen]
        cases chain.isDone with
        | true => exact ends
        | false => exact traverses.bind (traverses.inScope inner) fun _ => ends
      | false =>
        cases chain with
        | closed => exact alone rfl rfl
        | _ => cases isOpen
    | _ => exact alone (by cases chain <;> rfl) rfl
termination_by 2 * sizeOf chunks
decreasing_by
  all_goals
    subst_vars
    simp only [List.cons.sizeOf_spec, Chunk.ifBlock.sizeOf_spec, Chunk.unlessBlock.sizeOf_spec,
      Chunk.eachBlock.sizeOf_spec, Chunk.elseIfBlock.sizeOf_spec, Chunk.elseBlock.sizeOf_spec]
    omega

theorem runBody_traverses
    (traverses : Traverses texts options others rel fits good again twin bound other)
    (body : List Chunk) (goods : good body) :
    rel (Render.entering body (runChunks again bound options .closed body))
      (Render.entering (Chunk.retextAll texts body)
        (runChunks twin other others .closed (Chunk.retextAll texts body))) :=
  traverses.entering (Chunk.isEmpty_retextAll texts body) (runChunks_traverses traverses .closed body goods)
termination_by 2 * sizeOf body + 1
decreasing_by omega

theorem runChunk_traverses
    (traverses : Traverses texts options others rel fits good again twin bound other) (chunk : Chunk)
    {rest : List Chunk} (goods : good (chunk :: rest)) :
    rel (runChunk again bound options chunk) (runChunk twin other others (chunk.retext texts)) := by
  cases chunk with
  | text content =>
    rw [Chunk.retext]
    unfold runChunk
    exact traverses.texted content
  | output escape expr =>
    unfold runChunk
    exact traverses.escaping fun escapes =>
      traverses.writeValue (traverses.expr goods rfl rfl) (·.output (escape && escapes))
  | escapable content =>
    unfold runChunk
    exact traverses.escaping fun escapes => traverses.written (Value.escapeIf escapes content)
  | attr escape name expr =>
    unfold runChunk
    exact traverses.writeValue (traverses.expr goods rfl rfl) _
  | attrs expr =>
    unfold runChunk
    exact traverses.writeValue (traverses.expr goods rfl rfl) _
  | code expr =>
    -- The handle is not looked at, so its value may as well have been read.
    have read := traverses.bind (traverses.valued (traverses.expr goods rfl rfl)) fun _ => traverses.pure ()
    exact read
  | caseBlock subject branches =>
    unfold runChunk
    exact traverses.inScope (traverses.bind (traverses.value (traverses.expr goods rfl rfl)) fun value =>
      runBranches_traverses traverses value false branches (traverses.body goods rfl))
  | whileBlock guard body =>
    unfold runChunk
    exact traverses.repeated (traverses.expr goods rfl rfl)
      (runBody_traverses traverses body (traverses.body goods rfl))
  | includeTemplate name depth =>
    unfold runChunk
    exact traverses.included goods
  | mixin name signature body =>
    unfold runChunk
    exact traverses.defined goods
  | mixinCall name arguments =>
    unfold runChunk
    exact traverses.called goods
  | _ =>
    unfold runChunk
    exact traverses.pure ()
termination_by 2 * sizeOf chunk
decreasing_by
  all_goals
    subst_vars
    simp only [Chunk.caseBlock.sizeOf_spec, Chunk.whileBlock.sizeOf_spec]
    omega

theorem runBranches_traverses
    (traverses : Traverses texts options others rel fits good again twin bound other)
    (subject : Value) (matched : Bool) (branches : List Chunk)
    (goods : good branches) :
    rel (runBranches again bound options subject matched branches)
      (runBranches twin other others subject matched (Chunk.retextAll texts branches)) := by
  cases branches with
  | nil =>
    unfold runBranches
    exact traverses.pure ()
  | cons branch rest =>
    have further (matched : Bool) := runBranches_traverses traverses subject matched rest (traverses.rest goods)
    cases branch with
    | whenBlock value body =>
      have inner := runBody_traverses traverses body (traverses.body goods rfl)
      have chosen (matched : Bool) : rel
          (if matched && !body.isEmpty then
            Render.entering body (runChunks again bound options .closed body)
          else runBranches again bound options subject matched rest)
          (if matched && !(Chunk.retextAll texts body).isEmpty then
            Render.entering (Chunk.retextAll texts body)
              (runChunks twin other others .closed (Chunk.retextAll texts body))
          else runBranches twin other others subject matched (Chunk.retextAll texts rest)) := by
        rw [Chunk.isEmpty_retextAll]
        split
        · exact inner
        · exact further matched
      rw [Chunk.retextAll, Chunk.retext]
      unfold runBranches
      cases matched with
      | true => exact traverses.bind (traverses.pure true) chosen
      | false =>
        exact traverses.bind traverses.entered fun _ =>
          traverses.bind (traverses.value (traverses.expr goods rfl rfl)) fun _ =>
            traverses.bind (traverses.pure _) chosen
    | defaultBlock body =>
      have inner := runBody_traverses traverses body (traverses.body goods rfl)
      rw [Chunk.retextAll, Chunk.retext]
      unfold runBranches
      split
      · exact further matched
      · exact inner
    | _ =>
      unfold runBranches
      exact further matched
termination_by 2 * sizeOf branches
decreasing_by
  all_goals
    subst_vars
    simp only [List.cons.sizeOf_spec, Chunk.whenBlock.sizeOf_spec, Chunk.defaultBlock.sizeOf_spec]
    omega

end

/-! Chunks whose names are known. -/

theorem Steers.chooses (steers : Steers rel known) : Chooses rel (Sees known) where
  pure := steers.pure
  bind := steers.bind
  began := steers.began
  entered := steers.entered
  valued := steers.valued
  held := steers.held
  inScope := steers.inScope

theorem Rewrites.traverses (rewrites : Rewrites texts options others rel known includes again twin bound other) :
    Traverses texts options others rel (Sees known) (Covers known includes) again twin bound other where
  toChooses := rewrites.chooses
  rest covers := covers.rest
  body covers _ := covers.body
  expr covers _ has := covers.sees has
  written := rewrites.written
  texted := rewrites.texted
  escaping := rewrites.escaping
  flushed := rewrites.flushed
  looped {item key _ _ _} covers hasElse _ _ related :=
    rewrites.looped (covers.sees rfl) item key hasElse related
  repeated := rewrites.repeated
  defined covers := rewrites.defined _ (covers.sees rfl) covers.body
  called covers := rewrites.called _ fun _ is => covers.sees is
  included covers := rewrites.included covers.includes _ _

theorem runChunks_rewrites
    (rewrites : Rewrites texts options others rel known includes again twin bound other)
    (chain : Chain) (chunks : List Chunk) (covers : Covers known includes chunks) :
    rel (runChunks again bound options chain chunks)
      (runChunks twin other others chain (Chunk.retextAll texts chunks)) :=
  runChunks_traverses rewrites.traverses chain chunks covers

/-! Runs of the same chunks. -/

theorem Composes.rewrites (composes : Composes rel known includes again twin bound other)
    (options : RunOptions) : Rewrites id options options rel known includes again twin bound other where
  toCarries := composes.toCarries
  texted := composes.written
  flushed := composes.flushed options
  repeated := composes.repeated
  defined name _ body sees covers := by
    rw [Chunk.retextAll_id]
    exact composes.defined name sees covers
  called name _ sees := composes.called name sees options
  included allowed := composes.included allowed options

theorem runChunks_composes (composes : Composes rel known includes again twin bound other)
    (options : RunOptions) (chain : Chain) (chunks : List Chunk) (covers : Covers known includes chunks) :
    rel (runChunks again bound options chain chunks) (runChunks twin other options chain chunks) := by
  have rewritten := runChunks_rewrites (composes.rewrites options) chain chunks covers
  rwa [Chunk.retextAll_id] at rewritten

theorem runChunk_composes (composes : Composes rel known includes again twin bound other)
    (options : RunOptions) (chunk : Chunk) {rest : List Chunk}
    (covers : Covers known includes (chunk :: rest)) :
    rel (runChunk again bound options chunk) (runChunk twin other options chunk) := by
  have rewritten := runChunk_traverses (composes.rewrites options).traverses chunk covers
  rwa [Chunk.retext_id] at rewritten

theorem runBranches_composes (composes : Composes rel known includes again twin bound other)
    (options : RunOptions) (subject : Value) (matched : Bool) (branches : List Chunk)
    (covers : Covers known includes branches) :
    rel (runBranches again bound options subject matched branches)
      (runBranches twin other options subject matched branches) := by
  have rewritten := runBranches_traverses (composes.rewrites options).traverses subject matched branches covers
  rwa [Chunk.retextAll_id] at rewritten

end

end Rules

end HtmlTemplate
