import HtmlTemplate.Proofs.Alternatives.Placement
import HtmlTemplate.Proofs.Context.Holdings

/-! Runs that tell when a chunk is reached by itself that should be run by another one. Where all chunks
are where they belong, this never happens, also in mixins and in templates that are included. -/

namespace HtmlTemplate.Alternatives

open Chunk Render Rules

/-! A run with something else to do for such chunks. -/

section

variable (stray : Chunk → RunM Unit) (again : RunOptions → List Chunk → RunM Unit) (bound : Nat)
  (options : RunOptions)

mutual

/-- Runs some chunks as a run does. But an alternative or a branch that is reached as a chunk of its own
does what `stray` says. -/
def walkChunks (chain : Chain) (chunks : List Chunk) : RunM Unit :=
  match chunks with
  | [] => if chain.isOpen then flushReports options else return
  | chunk :: rest =>
    match chain, chunk with
    | .conditions done, .elseIfBlock guard body => do
      let chosen ← if done then pure true
        else do
          note .entered
          branch guard false (entering body (walkChunks .closed body))
      walkChunks (.conditions chosen) rest
    | .conditions done, .elseBlock body | .single done, .elseBlock body => do
      if !done then inScope (entering body (walkChunks .closed body))
      flushReports options
      walkChunks .closed rest
    | chain, .ifBlock guard body => do
      if chain.isOpen then flushReports options
      note .began
      let chosen ← branch guard false (entering body (walkChunks .closed body))
      walkChunks (.conditions chosen) rest
    | chain, .unlessBlock guard body => do
      if chain.isOpen then flushReports options
      note .began
      let chosen ← branch guard true (entering body (walkChunks .closed body))
      walkChunks (.single chosen) rest
    | chain, .eachBlock item key source body => do
      if chain.isOpen then flushReports options
      note .began
      let hasElse := rest.head?.any Chunk.isElse
      let iterated ← inScope (loop item key source hasElse (entering body (walkChunks .closed body)))
      walkChunks (.single iterated) rest
    | chain, chunk => do
      if chain.isOpen then flushReports options
      note .began
      walkChunk chunk
      flushReports options
      walkChunks .closed rest

def walkChunk (chunk : Chunk) : RunM Unit :=
  match chunk with
  | .caseBlock subject branches => inScope do
    let value ← inContext (Context.execValue subject)
    walkBranches value false branches
  | .whileBlock guard body => whileStep guard (entering body (walkChunks .closed body)) bound
  | .elseIfBlock guard body => stray (.elseIfBlock guard body)
  | .elseBlock body => stray (.elseBlock body)
  | .whenBlock value body => stray (.whenBlock value body)
  | .defaultBlock body => stray (.defaultBlock body)
  | chunk => runChunk again bound options chunk

def walkBranches (subject : Value) (matched : Bool) (branches : List Chunk) : RunM Unit :=
  match branches with
  | [] => return
  | .whenBlock value body :: rest => do
    let matched ← if matched then pure true
      else do
        note .entered
        pure ((← inContext (Context.execValue value)).eq subject)
    if matched && !body.isEmpty then entering body (walkChunks .closed body)
    else walkBranches subject matched rest
  | .defaultBlock body :: rest =>
    if matched then walkBranches subject matched rest
    else entering body (walkChunks .closed body)
  | _ :: rest => walkBranches subject matched rest

end

end

/-- A run with something to do where a chunk is reached by itself that should be run by another one. -/
def walk (stray : Chunk → RunM Unit) : Nat → RunOptions → List Chunk → RunM Unit
  | 0, _, _ => throw .exhausted
  | bound + 1, options, chunks => walkChunks stray (walk stray bound) bound options .closed chunks

/-! The walk of a list of chunks, by its first chunk. -/

section

variable (stray : Chunk → RunM Unit) (again : RunOptions → List Chunk → RunM Unit) (bound : Nat)
  (options : RunOptions)

theorem walkChunks_nil (chain : Chain) :
    walkChunks stray again bound options chain [] =
      if chain.isOpen then flushReports options else pure () := by
  cases chain <;> rfl

theorem walkChunks_if (chain : Chain) (guard : Expr) (body rest : List Chunk) :
    walkChunks stray again bound options chain (.ifBlock guard body :: rest) =
      afterChain options chain (do
        let chosen ←
          branch guard false (entering body (walkChunks stray again bound options .closed body))
        walkChunks stray again bound options (.conditions chosen) rest) := by
  cases chain <;> rfl

theorem walkChunks_unless (chain : Chain) (guard : Expr) (body rest : List Chunk) :
    walkChunks stray again bound options chain (.unlessBlock guard body :: rest) =
      afterChain options chain (do
        let chosen ←
          branch guard true (entering body (walkChunks stray again bound options .closed body))
        walkChunks stray again bound options (.single chosen) rest) := by
  cases chain <;> rfl

theorem walkChunks_each (chain : Chain) (item : String) (key : Option String) (source : Expr)
    (body rest : List Chunk) :
    walkChunks stray again bound options chain (.eachBlock item key source body :: rest) =
      afterChain options chain (do
        let iterated ← inScope (loop item key source (rest.head?.any Chunk.isElse)
          (entering body (walkChunks stray again bound options .closed body)))
        walkChunks stray again bound options (.single iterated) rest) := by
  cases chain <;> rfl

theorem walkChunks_elseIf (done : Bool) (guard : Expr) (body rest : List Chunk) :
    walkChunks stray again bound options (.conditions done) (.elseIfBlock guard body :: rest) = (do
      let chosen ← if done then pure true
        else do
          note .entered
          branch guard false (entering body (walkChunks stray again bound options .closed body))
      walkChunks stray again bound options (.conditions chosen) rest) := by
  cases done <;> rfl

theorem walkChunks_else {chain : Chain} (isOpen : chain.isOpen = true) (body rest : List Chunk) :
    walkChunks stray again bound options chain (.elseBlock body :: rest) = (do
      if !chain.isDone then
        inScope (entering body (walkChunks stray again bound options .closed body))
      flushReports options
      walkChunks stray again bound options .closed rest) := by
  cases chain with
  | closed => cases isOpen
  | conditions done => rfl
  | single done => rfl

theorem walkChunks_alone {chain : Chain} {chunk : Chunk} (untaken : chain.takes chunk = false)
    (closes : chunk.opensChain = false) (rest : List Chunk) :
    walkChunks stray again bound options chain (chunk :: rest) = afterChain options chain (do
      walkChunk stray again bound options chunk
      flushReports options
      walkChunks stray again bound options .closed rest) := by
  cases chunk with
  | ifBlock => cases closes
  | unlessBlock => cases closes
  | eachBlock => cases closes
  | elseIfBlock =>
    cases chain with
    | conditions => cases untaken
    | _ => rfl
  | elseBlock =>
    cases chain with
    | closed => rfl
    | _ => cases untaken
  | _ => cases chain <;> rfl

end

/-! Walks and runs. -/

/-- An alternative that fits after a chunk is taken. -/
def Answers (chain : Chain) (previous : Option Chunk) : Prop :=
  ∀ chunk, fitsAfter previous chunk = true → chunk.isAlternative = true → chain.takes chunk = true

theorem answers_conditions (done : Bool) (previous : Option Chunk) : Answers (.conditions done) previous := by
  intro chunk _ alternative
  cases chunk with
  | elseIfBlock => rfl
  | elseBlock => rfl
  | _ => cases alternative

theorem answers_single (done : Bool) {previous : Option Chunk}
    (unconditional : ∀ guard body, fitsAfter previous (.elseIfBlock guard body) = false) :
    Answers (.single done) previous := by
  intro chunk fits alternative
  cases chunk with
  | elseIfBlock guard body =>
    rw [unconditional] at fits
    cases fits
  | elseBlock => rfl
  | _ => cases alternative

theorem answers_closed {previous : Option Chunk}
    (last : ∀ chunk, chunk.isAlternative = true → fitsAfter previous chunk = false) :
    Answers .closed previous := by
  intro chunk fits alternative
  rw [last chunk alternative] at fits
  cases fits

/-- Nothing is done where an alternative or a branch is reached by itself, or there is none among these
chunks, after the ones before. -/
def Harmless (stray : Chunk → RunM Unit) (chain : Chain) (chunks : List Chunk) : Prop :=
  (∀ chunk, stray chunk = pure ()) ∨
    ∃ previous, placed previous chunks = true ∧ Answers chain previous

namespace Harmless

variable {stray : Chunk → RunM Unit} {chain : Chain} {chunk : Chunk} {rest : List Chunk}

theorem start {chunks : List Chunk} (safe : (∀ chunk, stray chunk = pure ()) ∨ placed none chunks = true) :
    Harmless stray .closed chunks := by
  refine safe.imp id fun placing => ⟨none, placing, answers_closed fun chunk alternative => ?_⟩
  cases chunk with
  | elseIfBlock => rfl
  | elseBlock => rfl
  | _ => cases alternative

theorem inner (harmless : Harmless stray chain (chunk :: rest)) :
    (∀ chunk, stray chunk = pure ()) ∨ placedIn chunk = true :=
  harmless.imp id fun ⟨_, placing, _⟩ => (placed_cons.mp placing).2.1

theorem further (harmless : Harmless stray chain (chunk :: rest)) {next : Chain}
    (answers : Answers next (some chunk)) : Harmless stray next rest :=
  harmless.imp id fun ⟨_, placing, _⟩ => ⟨some chunk, (placed_cons.mp placing).2.2, answers⟩

/-- A chunk that nothing takes is none of those that are run by others. -/
theorem alone (harmless : Harmless stray chain (chunk :: rest)) (untaken : chain.takes chunk = false) :
    (∀ chunk, stray chunk = pure ()) ∨ chunk.isAlternative = false ∧ chunk.isBranch = false := by
  refine harmless.imp id fun ⟨previous, placing, answers⟩ => ⟨?_, ?_⟩
  · refine Bool.eq_false_iff.mpr fun alternative => ?_
    rw [answers chunk (placed_cons.mp placing).1 alternative] at untaken
    cases untaken
  · have fits := (placed_cons.mp placing).1
    cases chunk <;> first | rfl | cases fits

theorem afterwards (harmless : Harmless stray chain (chunk :: rest)) (untaken : chain.takes chunk = false)
    (closes : chunk.opensChain = false) : Harmless stray .closed rest := by
  rcases harmless.alone untaken with silent | ⟨lone, -⟩
  · exact .inl silent
  · refine harmless.further (answers_closed fun other alternative => ?_)
    cases chunk with
    | ifBlock => cases closes
    | unlessBlock => cases closes
    | eachBlock => cases closes
    | elseIfBlock => cases lone
    | _ => cases other <;> first | rfl | cases alternative

end Harmless

section

variable {rel : {α : Type} → RunM α → RunM α → Prop} {good : List Chunk → Prop}
  {stray : Chunk → RunM Unit} {again twin : RunOptions → List Chunk → RunM Unit} {bound : Nat}
  {options : RunOptions}

mutual

theorem walkChunks_traverses
    (traverses : Traverses id options options rel (fun _ => True) good again twin bound bound)
    (chain : Chain) (chunks : List Chunk) (goods : good chunks) (harmless : Harmless stray chain chunks) :
    rel (walkChunks stray again bound options chain chunks) (runChunks twin bound options chain chunks) := by
  cases chunks with
  | nil =>
    rw [walkChunks_nil, runChunks_nil]
    split
    · exact traverses.flushed
    · exact traverses.pure ()
  | cons chunk rest =>
    have further {next : Chain} (harmless : Harmless stray next rest) :=
      walkChunks_traverses traverses next rest (traverses.rest goods) harmless
    have alone (untaken : chain.takes chunk = false) (closes : chunk.opensChain = false) :
        rel (walkChunks stray again bound options chain (chunk :: rest))
          (runChunks twin bound options chain (chunk :: rest)) := by
      have one := walkChunk_traverses traverses chunk goods (harmless.alone untaken) harmless.inner
      rw [walkChunks_alone stray again bound options untaken closes,
        runChunks_alone twin bound options untaken closes]
      exact traverses.afterChain chain (traverses.bind one fun _ =>
        traverses.bind traverses.flushed fun _ => further (harmless.afterwards untaken closes))
    cases chunk with
    | ifBlock guard body =>
      have inner := walkBody_traverses traverses body (traverses.body goods rfl) harmless.inner
      rw [walkChunks_if, runChunks_if]
      exact traverses.afterChain chain (traverses.bind (traverses.branch trivial false inner) fun _ =>
        further (harmless.further (answers_conditions _ _)))
    | unlessBlock guard body =>
      have inner := walkBody_traverses traverses body (traverses.body goods rfl) harmless.inner
      rw [walkChunks_unless, runChunks_unless]
      exact traverses.afterChain chain (traverses.bind (traverses.branch trivial true inner) fun _ =>
        further (harmless.further (answers_single _ fun _ _ => rfl)))
    | eachBlock item key source body =>
      have inner := walkBody_traverses traverses body (traverses.body goods rfl) harmless.inner
      rw [walkChunks_each, runChunks_each]
      exact traverses.afterChain chain
        (traverses.bind (traverses.inScope (traverses.looped goods _ inner)) fun _ =>
          further (harmless.further (answers_single _ fun _ _ => rfl)))
    | elseIfBlock guard body =>
      have inner := walkBody_traverses traverses body (traverses.body goods rfl) harmless.inner
      cases chain with
      | conditions done =>
        have goesOn (chosen : Bool) := further (harmless.further (answers_conditions chosen _))
        rw [walkChunks_elseIf, runChunks_elseIf]
        cases done with
        | true => exact traverses.bind (traverses.pure true) fun _ => goesOn _
        | false =>
          exact traverses.bind traverses.entered fun _ =>
            traverses.bind (traverses.branch trivial false inner) fun _ => goesOn _
      | _ => exact alone rfl rfl
    | elseBlock body =>
      have inner := walkBody_traverses traverses body (traverses.body goods rfl) harmless.inner
      have last : Answers .closed (some (.elseBlock body)) :=
        answers_closed fun other alternative => by cases other <;> first | rfl | cases alternative
      have ends := traverses.bind traverses.flushed fun _ => further (harmless.further last)
      cases isOpen : chain.isOpen with
      | true =>
        rw [walkChunks_else stray again bound options isOpen, runChunks_else twin bound options isOpen]
        cases chain.isDone with
        | true => exact ends
        | false => exact traverses.bind (traverses.inScope inner) fun _ => ends
      | false =>
        cases chain with
        | closed => exact alone rfl rfl
        | _ => cases isOpen
    | _ => exact alone (by cases chain <;> rfl) rfl
termination_by 2 * sizeOf chunks
decreasing_by
  all_goals
    subst_vars
    simp only [List.cons.sizeOf_spec, Chunk.ifBlock.sizeOf_spec, Chunk.unlessBlock.sizeOf_spec,
      Chunk.eachBlock.sizeOf_spec, Chunk.elseIfBlock.sizeOf_spec, Chunk.elseBlock.sizeOf_spec]
    omega

theorem walkBody_traverses
    (traverses : Traverses id options options rel (fun _ => True) good again twin bound bound)
    (body : List Chunk) (goods : good body)
    (safe : (∀ chunk, stray chunk = pure ()) ∨ placed none body = true) :
    rel (entering body (walkChunks stray again bound options .closed body))
      (entering body (runChunks twin bound options .closed body)) :=
  traverses.entering rfl (walkChunks_traverses traverses .closed body goods (.start safe))
termination_by 2 * sizeOf body + 1
decreasing_by omega

theorem walkChunk_traverses
    (traverses : Traverses id options options rel (fun _ => True) good again twin bound bound)
    (chunk : Chunk) {rest : List Chunk} (goods : good (chunk :: rest))
    (alone : (∀ chunk, stray chunk = pure ()) ∨ chunk.isAlternative = false ∧ chunk.isBranch = false)
    (inner : (∀ chunk, stray chunk = pure ()) ∨ placedIn chunk = true) :
    rel (walkChunk stray again bound options chunk) (runChunk twin bound options chunk) := by
  have same := runChunk_traverses traverses chunk goods
  rw [Chunk.retext_id] at same
  have silent (other : chunk.isAlternative = true ∨ chunk.isBranch = true) :
      rel (stray chunk) (pure ()) := by
    rcases alone with silent | ⟨lone, apart⟩
    · rw [silent]
      exact traverses.pure ()
    · rw [lone, apart] at other
      rcases other with other | other <;> cases other
  cases chunk with
  | caseBlock subject branches =>
    unfold walkChunk runChunk
    exact traverses.inScope (traverses.bind (traverses.value trivial) fun value =>
      walkBranches_traverses traverses value false branches (traverses.body goods rfl) inner)
  | whileBlock guard body =>
    unfold walkChunk runChunk
    exact traverses.repeated trivial (walkBody_traverses traverses body (traverses.body goods rfl) inner)
  | elseIfBlock => exact silent (.inl rfl)
  | elseBlock => exact silent (.inl rfl)
  | whenBlock => exact silent (.inr rfl)
  | defaultBlock => exact silent (.inr rfl)
  | _ => exact same
termination_by 2 * sizeOf chunk
decreasing_by
  all_goals
    subst_vars
    simp only [Chunk.caseBlock.sizeOf_spec, Chunk.whileBlock.sizeOf_spec]
    omega

theorem walkBranches_traverses
    (traverses : Traverses id options options rel (fun _ => True) good again twin bound bound)
    (subject : Value) (matched : Bool) (branches : List Chunk) (goods : good branches)
    (safe : (∀ chunk, stray chunk = pure ()) ∨ placedBranches branches = true) :
    rel (walkBranches stray again bound options subject matched branches)
      (runBranches twin bound options subject matched branches) := by
  cases branches with
  | nil =>
    unfold walkBranches runBranches
    exact traverses.pure ()
  | cons branch rest =>
    obtain ⟨inner, others⟩ : ((∀ chunk, stray chunk = pure ()) ∨ placedIn branch = true) ∧
        ((∀ chunk, stray chunk = pure ()) ∨ placedBranches rest = true) := by
      rcases safe with silent | placing
      · exact ⟨.inl silent, .inl silent⟩
      · simp only [placedBranches, Bool.and_eq_true] at placing
        exact ⟨.inr placing.1.2, .inr placing.2⟩
    have further (matched : Bool) :=
      walkBranches_traverses traverses subject matched rest (traverses.rest goods) others
    cases branch with
    | whenBlock value body =>
      have entered := walkBody_traverses traverses body (traverses.body goods rfl) inner
      have chosen (matched : Bool) : rel
          (if matched && !body.isEmpty then
            entering body (walkChunks stray again bound options .closed body)
          else walkBranches stray again bound options subject matched rest)
          (if matched && !body.isEmpty then entering body (runChunks twin bound options .closed body)
          else runBranches twin bound options subject matched rest) := by
        split
        · exact entered
        · exact further matched
      unfold walkBranches runBranches
      cases matched with
      | true => exact traverses.bind (traverses.pure true) chosen
      | false =>
        exact traverses.bind traverses.entered fun _ => traverses.bind (traverses.value trivial) fun _ =>
          traverses.bind (traverses.pure _) chosen
    | defaultBlock body =>
      have entered := walkBody_traverses traverses body (traverses.body goods rfl) inner
      unfold walkBranches runBranches
      split
      · exact further matched
      · exact entered
    | _ =>
      unfold walkBranches runBranches
      exact further matched
termination_by 2 * sizeOf branches
decreasing_by
  all_goals
    subst_vars
    simp only [List.cons.sizeOf_spec, Chunk.whenBlock.sizeOf_spec, Chunk.defaultBlock.sizeOf_spec]
    omega

end

end

end HtmlTemplate.Alternatives
