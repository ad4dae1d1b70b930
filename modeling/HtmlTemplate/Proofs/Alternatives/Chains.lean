import HtmlTemplate.Proofs.Alternatives.Strays
import HtmlTemplate.Proofs.Choosing.Branches

/-! What a chain of conditions does: its guards are asked one after the other up to the first that decides,
and the body of that one is run, or the one that is there for all other cases. -/

namespace HtmlTemplate.Alternatives

open Choosing Chunk Render Rules

/-- A guard of an alternative, and the body that it decides on. -/
abbrev Arm := Expr × List Chunk

/-- The chunks of some alternatives with guards. -/
def elseIfs (arms : List Arm) : List Chunk := arms.map fun arm => .elseIfBlock arm.1 arm.2

/-- The chunk of the body for all other cases, if there is one. -/
def elses (otherwise : Option (List Chunk)) : List Chunk := (otherwise.map Chunk.elseBlock).toList

/-- Asks a guard in a new scope, which the body would share: whether it holds, and the state after. -/
def askGuard (guard : Expr) (state : RunState) : Bool × RunState :=
  let (held, context) := state.context.pushScope.holds guard
  (held, { state with context })

/-- The scope of a guard that does not decide is closed. -/
def shut (state : RunState) : RunState := { state with context := state.context.popScope }

/-- Asks the guards of alternatives from left to right, up to the first that holds: the body it decides on,
if there is one. Its scope is open then. -/
def searchArms : List Arm → RunState → Option (List Chunk) × RunState
  | [], state => (none, state)
  | (guard, body) :: rest, state =>
    let (held, after) := askGuard guard (state.remember .entered)
    if held then (some body, after) else searchArms rest (shut after)

/-- The same for a condition and its alternatives. -/
def searchChain (guard : Expr) (body : List Chunk) (arms : List Arm) (state : RunState) :
    Option (List Chunk) × RunState :=
  let (held, after) := askGuard guard state
  if held then (some body, after) else searchArms arms (shut after)

section

variable (again : RunOptions → List Chunk → RunM Unit) (bound : Nat) (options : RunOptions)

/-- The body that has been decided on is run in the scope of its guard, and the one for all other cases in
a scope of its own. -/
def runDecided (otherwise : Option (List Chunk)) : Option (List Chunk) → RunM Unit
  | some body => closing (running again bound options body)
  | none => otherwise.elim (pure ()) fun body => inScope (running again bound options body)

/-- The rest of a body comes after the reports of a chain. -/
def afterwards (rest : List Chunk) : RunM Unit := do
  flushReports options
  runChunks again bound options .closed rest

/-- A chain has come to its end where no alternative follows. -/
def Ends (otherwise : Option (List Chunk)) (rest : List Chunk) : Prop :=
  otherwise = none → rest.head?.any isAlternative = false

theorem branch_eq (guard : Expr) (negate : Bool) (part : RunM Unit) (state : RunState) :
    branch guard negate part state =
      let (held, after) := askGuard guard state
      if held != negate then closing (do
          part
          return true) after
      else (.ok false, shut after) := by
  change closing (do
    if (askGuard guard state).1 != negate then part
    return (askGuard guard state).1 != negate) (askGuard guard state).2 = _
  dsimp only
  cases (askGuard guard state).1 != negate with
  | true => rfl
  | false => rfl

/-- After a chain that no alternative follows, its reports are written. -/
theorem runChunks_ended {chain : Chain} (isOpen : chain.isOpen = true) {rest : List Chunk}
    (ends : rest.head?.any isAlternative = false) :
    runChunks again bound options chain rest = afterwards again bound options rest := by
  have flushing {α : Type} (part : RunM α) :
      afterChain options chain part = (do
        flushReports options
        afterChain options .closed part) := by
    unfold afterChain
    rw [isOpen]
    rfl
  unfold afterwards
  cases rest with
  | nil =>
    rw [runChunks_nil, runChunks_nil, isOpen]
    exact (bind_pure _).symm
  | cons chunk rest =>
    have untaken (chain : Chain) : chain.takes chunk = false := by
      cases chunk <;> first | (cases chain <;> rfl) | cases ends
    cases closes : chunk.opensChain with
    | false =>
      rw [runChunks_alone again bound options (untaken chain) closes,
        runChunks_alone again bound options (untaken .closed) closes, flushing]
    | true =>
      cases chunk with
      | ifBlock => rw [runChunks_if, runChunks_if, flushing]
      | unlessBlock => rw [runChunks_unless, runChunks_unless, flushing]
      | eachBlock => rw [runChunks_each, runChunks_each, flushing]
      | _ => cases closes

/-- The body for all other cases is run if nothing has been decided. -/
theorem runChunks_last {chain : Chain} (isOpen : chain.isOpen = true) {otherwise : Option (List Chunk)}
    {rest : List Chunk} (ends : Ends otherwise rest) :
    runChunks again bound options chain (elses otherwise ++ rest) =
      if chain.isDone then afterwards again bound options rest
      else runDecided again bound options otherwise none >>= fun _ => afterwards again bound options rest := by
  cases otherwise with
  | none =>
    have ended := runChunks_ended again bound options isOpen (ends rfl)
    split
    · exact ended
    · exact ended
  | some body =>
    have last := runChunks_else again bound options isOpen body rest
    split
    · rename_i done
      rw [done] at last
      exact last
    · rename_i undone
      rw [Bool.eq_false_iff.mpr undone] at last
      exact last

/-- Once a body has been decided on, the alternatives after it are passed over. -/
theorem runChunks_decided (arms : List Arm) {otherwise : Option (List Chunk)} {rest : List Chunk}
    (ends : Ends otherwise rest) :
    runChunks again bound options (.conditions true) (elseIfs arms ++ (elses otherwise ++ rest)) =
      afterwards again bound options rest := by
  induction arms with
  | nil => exact runChunks_last again bound options rfl ends
  | cons arm arms step => exact (runChunks_elseIf again bound options true arm.1 arm.2 _).trans step

/-- A guard decides whether its body is run, and the rest is told. -/
theorem bind_branch (guard : Expr) (negate : Bool) (part : RunM Unit) (next : Bool → RunM Unit)
    (state : RunState) :
    (branch guard negate part >>= next) state =
      let (held, after) := askGuard guard state
      if held != negate then (closing part >>= fun _ => next true) after else next false (shut after) := by
  rw [bind_eq, branch_eq]
  dsimp only
  cases (askGuard guard state).1 != negate with
  | false => rfl
  | true =>
    simp only [if_true]
    rw [bind_eq]
    unfold closing
    rw [bind_eq]
    cases part (askGuard guard state).2 with
    | mk result after => cases result <;> rfl

/-- Before anything has been decided the guards are asked in their order. -/
theorem runChunks_undecided (arms : List Arm) {otherwise : Option (List Chunk)} {rest : List Chunk}
    (ends : Ends otherwise rest) (state : RunState) :
    runChunks again bound options (.conditions false) (elseIfs arms ++ (elses otherwise ++ rest)) state =
      (runDecided again bound options otherwise (searchArms arms state).1 >>= fun _ =>
        afterwards again bound options rest) (searchArms arms state).2 := by
  induction arms generalizing state with
  | nil => exact congrFun (runChunks_last again bound options rfl ends) state
  | cons arm arms step =>
    obtain ⟨guard, body⟩ := arm
    have passed := runChunks_decided again bound options arms ends
    change runChunks again bound options (.conditions false)
      (.elseIfBlock guard body :: (elseIfs arms ++ (elses otherwise ++ rest))) state = _
    rw [runChunks_elseIf]
    change (branch guard false (running again bound options body) >>= fun chosen =>
      runChunks again bound options (.conditions chosen) _) (state.remember .entered) = _
    rw [bind_branch, searchArms]
    dsimp only
    cases (askGuard guard (state.remember .entered)).1 with
    | true => exact congrFun (congrArg (_ >>= fun _ => ·) passed) _
    | false => exact step _

/-- A condition and its alternatives: the guards are asked from left to right up to the first that holds,
and its body is run; the body for all other cases is run if none does. -/
theorem runChunks_chain (chain : Chain) (guard : Expr) (body : List Chunk) (arms : List Arm)
    {otherwise : Option (List Chunk)} {rest : List Chunk} (ends : Ends otherwise rest) :
    runChunks again bound options chain
        (.ifBlock guard body :: (elseIfs arms ++ (elses otherwise ++ rest))) =
      afterChain options chain fun state =>
        (runDecided again bound options otherwise (searchChain guard body arms state).1 >>= fun _ =>
          afterwards again bound options rest) (searchChain guard body arms state).2 := by
  rw [runChunks_if]
  refine congrArg (afterChain options chain) (funext fun state => ?_)
  change (branch guard false (running again bound options body) >>= fun chosen =>
    runChunks again bound options (.conditions chosen) _) state = _
  rw [bind_branch, searchChain]
  dsimp only
  cases (askGuard guard state).1 with
  | true => exact congrFun (congrArg (_ >>= fun _ => ·) (runChunks_decided again bound options arms ends)) _
  | false => exact runChunks_undecided again bound options arms ends _

/-- A negated condition runs its body if the guard does not hold, and the one for all other cases if it
does. -/
theorem runChunks_negated (chain : Chain) (guard : Expr) (body : List Chunk)
    {otherwise : Option (List Chunk)} {rest : List Chunk} (ends : Ends otherwise rest) :
    runChunks again bound options chain (.unlessBlock guard body :: (elses otherwise ++ rest)) =
      afterChain options chain fun state =>
        let (held, after) := askGuard guard state
        let (decided, later) := if held then (none, shut after) else (some body, after)
        (runDecided again bound options otherwise decided >>= fun _ =>
          afterwards again bound options rest) later := by
  have last (done : Bool) := @runChunks_last again bound options (.single done) rfl _ _ ends
  rw [runChunks_unless]
  refine congrArg (afterChain options chain) (funext fun state => ?_)
  change (branch guard true (running again bound options body) >>= fun chosen =>
    runChunks again bound options (.single chosen) _) state = _
  rw [bind_branch]
  dsimp only
  cases (askGuard guard state).1 with
  | true => exact congrFun (last false) _
  | false => exact congrFun (congrArg (_ >>= fun _ => ·) (last true)) _

end

/-- A guard that fails does not hold. -/
theorem askGuard_failed {guard : Expr} {state : RunState} {fault : EvalFault}
    (fails : (Eval.eval .guard guard state.context.pushScope).1 = .error fault) :
    (askGuard guard state).1 = false := by
  unfold askGuard Context.holds Context.probe Context.evaluate
  generalize Eval.eval .guard guard state.context.pushScope = ended at fails
  obtain ⟨result, after⟩ := ended
  dsimp only at fails
  subst fails
  rfl

/-- In a compiled template the alternatives and branches are where they belong, and so no run comes to one
of them by itself: whatever were to be done there, the run would be the same. In every chain the guards
are asked from left to right up to the first that decides, and one body at most is run. -/
theorem alternatives_run {fold : Expr → Option Value} {compiling : TemplateOptions} {source : List Char}
    {template : Template} (compiled : Template.ofSourceWith fold compiling source = .ok template) :
    placed none template.chunks = true ∧
    (∀ bound context sink, Fitting context →
      (∀ stray, walk stray bound template.runOptions template.chunks
          { context := context.forgetLast, sink } = template.run bound context sink) ∧
        Fitting (template.run bound context sink).2.context) ∧
    (∀ bound options chunks, walk (fun _ => pure ()) bound options chunks = run bound options chunks) ∧
    (∀ again bound options chain guard body arms otherwise rest, Ends otherwise rest →
      runChunks again bound options chain
          (.ifBlock guard body :: (elseIfs arms ++ (elses otherwise ++ rest))) =
        afterChain options chain fun state =>
          let (decided, after) := searchChain guard body arms state
          (runDecided again bound options otherwise decided >>= fun _ =>
            afterwards again bound options rest) after) ∧
    (∀ again bound options chain guard body otherwise rest, Ends otherwise rest →
      runChunks again bound options chain (.unlessBlock guard body :: (elses otherwise ++ rest)) =
        afterChain options chain fun state =>
          let (held, after) := askGuard guard state
          let (decided, later) := if held then (none, shut after) else (some body, after)
          (runDecided again bound options otherwise decided >>= fun _ =>
            afterwards again bound options rest) later) ∧
    ∀ guard state fault, (Eval.eval .guard guard state.context.pushScope).1 = .error fault →
      (askGuard guard state).1 = false := by
  have placing := template_placed compiled
  refine ⟨placing, fun bound context sink fitting => ?_, walk_silent, ?_, ?_, fun _ _ _ => askGuard_failed⟩
  · have ready : Fitting context.forgetLast := ⟨fitting.mixins, fitting.loaded⟩
    have agrees (stray : Chunk → RunM Unit) :=
      walk_agrees stray bound template.runOptions placing { context := context.forgetLast, sink } ready
    exact ⟨fun stray => (agrees stray).1, (agrees fun _ => pure ()).2.1⟩
  · exact fun again bound options chain guard body arms _ _ ends =>
      runChunks_chain again bound options chain guard body arms ends
  · exact fun again bound options chain guard body _ _ ends =>
      runChunks_negated again bound options chain guard body ends

/-! Conditions in a mixin, in a template that is included and outside of them, a loop over nothing and a
choice by value. -/

def plain : TemplateOptions := { pretty := false, stopOnError := false }

def part : List Char := "unless 0\n  | d\nelse\n  | e".toList

def decisions : List Char :=
  ("mixin m(x)\n  if x\n    | yes\n  else\n    | no\n+m(1)\n" ++
    "if a\n  | a\nelseif 1\n  | b\nelse\n  | c\ninclude part\n" ++
    "each v in []\n  | f\nelse\n  | g\ncase 1\n  when 1\n    | one\n  default\n    | other").toList

/-- A host that has one template, whatever its name. -/
def hosting : Context :=
  { Context.new with loader := fun _ => (Template.ofSource plain part).toOption.elim .missing .template }

theorem fitting_hosting : Fitting hosting := by
  refine Fitting.load (fitting_new) fun name template found => ?_
  cases compiled : Template.ofSource plain part with
  | error error =>
    rw [compiled] at found
    cases found
  | ok template =>
    rw [compiled] at found
    cases found
    exact ⟨_, _, _, compiled⟩

theorem decisions_output :
    (Template.ofSource plain decisions).toOption.map
      (fun template => (template.run 20 hosting .unlimited).2.sink.text) = some "yesbdgone" := by
  unfold decisions
  rw [String.toList_append, String.toList_append, String.toList_ofList, String.toList_ofList, String.toList_ofList]
  unfold hosting part
  rw [String.toList_ofList]
  decide +kernel

/-- Also if a run were to end where it comes to an alternative by itself, this one would not. -/
theorem decisions_walked : ∃ template, Template.ofSource plain decisions = .ok template ∧
    placed none template.chunks = true ∧ Fitting hosting ∧
    (walk (fun _ => throw .output) 20 template.runOptions template.chunks
      { context := hosting.forgetLast, sink := .unlimited }).2.sink.text = "yesbdgone" := by
  have output := decisions_output
  cases compiled : Template.ofSource plain decisions with
  | error error =>
    rw [compiled] at output
    cases output
  | ok template =>
    rw [compiled] at output
    obtain ⟨placing, runs, -⟩ := alternatives_run compiled
    refine ⟨template, rfl, placing, fitting_hosting, ?_⟩
    rw [(runs 20 hosting .unlimited fitting_hosting).1]
    exact Option.some.inj output

end HtmlTemplate.Alternatives
