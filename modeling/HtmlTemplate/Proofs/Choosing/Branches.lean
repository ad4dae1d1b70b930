import HtmlTemplate.Proofs.Rules.Chunks
import HtmlTemplate.Template.Source

/-! Which branch of a choice by value is run. The branches are asked one after the other, and the first
one whose value is that of the choice decides; but a default is taken where it stands, so that no branch
after it is asked. -/

namespace HtmlTemplate

namespace Chunk

def isDefault : Chunk → Bool
  | defaultBlock _ => true
  | _ => false

/-- The body of the first default. -/
def defaultBody : List Chunk → List Chunk
  | [] => []
  | defaultBlock body :: _ => body
  | _ :: rest => defaultBody rest

/-- The body of the first branch for a value that has one. -/
def nextBody : List Chunk → List Chunk
  | [] => []
  | whenBlock _ [] :: rest => nextBody rest
  | whenBlock _ body :: _ => body
  | _ :: rest => nextBody rest

/-- The branches before the first default. -/
def leading (branches : List Chunk) : List Chunk := branches.takeWhile (!·.isDefault)

end Chunk

namespace Choosing

open Render Chunk

/-- The value of a branch, and the state after it has been asked for. -/
def ask (value : Expr) (state : RunState) : Value × RunState :=
  let (found, context) := state.context.execValue value
  (found, { state.remember .entered with context })

/-- The branches from the first one that has a value, if there is one, and the state after all branches up
to it have been asked for theirs. -/
def search (subject : Value) : List Chunk → RunState → Option (List Chunk) × RunState
  | [], state => (none, state)
  | .whenBlock value body :: rest, state =>
    let (found, after) := ask value state
    if found.eq subject then (some (.whenBlock value body :: rest), after) else search subject rest after
  | _ :: rest, state => search subject rest state

/-- The body that is chosen by a value: that of the first branch for it or, if it has none, of the next
branch that has one. Without a branch for the value it is that of the default. -/
def chosen (subject : Value) (branches : List Chunk) (state : RunState) : List Chunk :=
  ((search subject branches state).1.map nextBody).getD (defaultBody branches)

/-- Whether a default stands before the first branch for a value. -/
def overtaken (subject : Value) (branches : List Chunk) (state : RunState) : Bool :=
  (search subject (leading branches) state).1.isNone && (search subject branches state).1.isSome

/-- The body that is run. -/
def taken (subject : Value) (branches : List Chunk) (state : RunState) : List Chunk :=
  if overtaken subject branches state then defaultBody branches else chosen subject branches state

variable (again : RunOptions → List Chunk → RunM Unit) (bound : Nat) (options : RunOptions)
  (subject : Value)

/-- The run of one body. That of an empty one does nothing. -/
def running (body : List Chunk) : RunM Unit := entering body (runChunks again bound options .closed body)

theorem running_nil (state : RunState) : running again bound options [] state = (.ok (), state) := by
  unfold running
  rw [runChunks_nil]
  rfl

/-- Once the value has been found, the next body is run. -/
theorem runBranches_matched (branches : List Chunk) (state : RunState) :
    runBranches again bound options subject true branches state =
      running again bound options (nextBody branches) state := by
  induction branches with
  | nil =>
    rw [nextBody, running_nil]
    unfold runBranches
    rfl
  | cons branch rest step =>
    cases branch with
    | whenBlock value body =>
      unfold runBranches
      cases body with
      | nil => exact step
      | cons => rfl
    | _ =>
      unfold runBranches
      exact step

/-- A branch is asked for its value before it is known whether it is chosen. -/
theorem runBranches_when (value : Expr) (body rest : List Chunk) (state : RunState) :
    runBranches again bound options subject false (.whenBlock value body :: rest) state =
      let (found, after) := ask value state
      if found.eq subject then running again bound options (nextBody (.whenBlock value body :: rest)) after
      else runBranches again bound options subject false rest after := by
  rw [runBranches]
  change (if (ask value state).1.eq subject && !body.isEmpty then
      running again bound options body
    else runBranches again bound options subject ((ask value state).1.eq subject) rest)
    (ask value state).2 = _
  cases fits : (ask value state).1.eq subject with
  | false => simp only [fits, Bool.false_and, Bool.false_eq_true, if_false]
  | true =>
    simp only [fits, Bool.true_and, if_true]
    cases body with
    | nil => exact runBranches_matched again bound options subject rest _
    | cons => rfl

variable {subject}

theorem taken_when (value : Expr) (body rest : List Chunk) (state : RunState) :
    taken subject (.whenBlock value body :: rest) state =
      let (found, after) := ask value state
      if found.eq subject then nextBody (.whenBlock value body :: rest) else taken subject rest after := by
  unfold taken overtaken chosen
  change (if (search subject (.whenBlock value body :: leading rest) state).1.isNone && _ then _ else _) = _
  simp only [search, defaultBody]
  split <;> rfl

/-- A default is taken where it stands, whether or not a branch for the value follows it. -/
theorem taken_default (body rest : List Chunk) (state : RunState) :
    taken subject (.defaultBlock body :: rest) state = body := by
  unfold taken overtaken chosen
  change (if (search subject rest state).1.isSome then body else _) = body
  split
  · rfl
  · rename_i none
    change ((search subject rest state).1.map nextBody).getD body = body
    rw [Option.not_isSome_iff_eq_none.mp none]
    rfl

/-- In a choice by value exactly one body is run, or none: the one that is chosen by the value, unless a
default stands before the branches for the value. Then it is that of the default. -/
theorem runBranches_taken (branches : List Chunk) (state : RunState) :
    runBranches again bound options subject false branches state =
      running again bound options (taken subject branches state)
        (search subject (leading branches) state).2 := by
  induction branches generalizing state with
  | nil =>
    unfold runBranches
    exact (running_nil again bound options state).symm
  | cons branch rest step =>
    cases branch with
    | whenBlock value body =>
      rw [runBranches_when, taken_when]
      change _ = running again bound options _ (search subject (.whenBlock value body :: leading rest) state).2
      unfold search
      dsimp only
      split
      · rfl
      · exact step _
    | defaultBlock body =>
      unfold runBranches
      exact congrArg (running again bound options · state) (taken_default body rest state).symm
    | _ =>
      unfold runBranches
      exact step state

/-- A choice by value runs one body in the scope of its subject, after asking the branches up to the one
that decides. -/
theorem case_taken (subject : Expr) (branches : List Chunk) (state : RunState) :
    runChunk again bound options (.caseBlock subject branches) state =
      inScope (fun opened =>
        let (value, context) := opened.context.execValue subject
        let asked := { opened with context }
        running again bound options (taken value branches asked)
          (search value (leading branches) asked).2) state := by
  unfold runChunk
  refine congrFun (congrArg inScope (funext fun opened => ?_)) state
  exact runBranches_taken again bound options branches _

/-- A choice with the default before the branch for its value. -/
def early : List Char := "case 1\n  default\n    | early\n  when 1\n    | one".toList

def earlyBranches : List Chunk :=
  [.defaultBlock [.text "early"], .whenBlock (.literal (.int 1)) [.text "one"]]

/-- Whether a body is one text. -/
def isText (text : String) : List Chunk → Bool
  | [.text written] => written == text
  | _ => false

theorem of_isText {text : String} {chunks : List Chunk} (is : isText text chunks = true) :
    chunks = [.text text] := by
  unfold isText at is
  split at is
  · rw [beq_iff_eq.mp is]
  · cases is

def isEarly : List Chunk → Bool
  | [.caseBlock (.literal (.int 1)) [.defaultBlock [.text "early"], .whenBlock (.literal (.int 1)) [.text "one"]]] =>
    true
  | _ => false

theorem chunks_of_isEarly {chunks : List Chunk} (is : isEarly chunks = true) :
    chunks = [.caseBlock (.literal (.int 1)) earlyBranches] := by
  unfold isEarly at is
  split at is
  · rfl
  · cases is

theorem early_evaluated :
    (Template.ofSource { pretty := false, stopOnError := false } early).toOption.any
        (fun template => isEarly template.chunks) = true ∧
      isText "one" (chosen (.int 1) earlyBranches { context := .new, sink := .unlimited }) = true ∧
      (Template.ofSource { pretty := false, stopOnError := false } early).toOption.map
        (fun template => (template.run 1 .new .unlimited).2.sink.text) = some "early" := by
  unfold early
  rw [String.toList_ofList]
  decide +kernel

/-- By its value the branch is chosen, but the default is run. -/
theorem early_default_runs : ∃ template,
    Template.ofSource { pretty := false, stopOnError := false } early = .ok template ∧
      template.chunks = [.caseBlock (.literal (.int 1)) earlyBranches] ∧
      chosen (.int 1) earlyBranches { context := .new, sink := .unlimited } = [.text "one"] ∧
      (template.run 1 .new .unlimited).2.sink.text = "early" := by
  obtain ⟨chunks, chooses, writes⟩ := early_evaluated
  cases compiled : Template.ofSource { pretty := false, stopOnError := false } early with
  | error error =>
    rw [compiled] at chunks
    cases chunks
  | ok template =>
    rw [compiled] at chunks
    rw [compiled] at writes
    exact ⟨template, rfl, chunks_of_isEarly chunks, of_isText chooses, Option.some.inj writes⟩

end Choosing

end HtmlTemplate
