import HtmlTemplate.Proofs.Rules.Basic
import HtmlTemplate.Render.Run

/-! What running a list of chunks does, by its first chunk: one that goes with those before it,
one that alternatives may follow, or one that stands alone. -/

namespace HtmlTemplate

namespace Render

theorem write_eq (text : String) (state : RunState) :
    write text state =
      if (state.sink.write text).1 then
        (.ok (), { state with sink := (state.sink.write text).2 }.remember (.wrote text))
      else (.error .output, { state with sink := (state.sink.write text).2 }) := by
  unfold write
  rw [Rules.bind_eq]
  change (if (state.sink.write text).1 = true then _ else _ : RunM Unit) _ = _
  split <;> rfl

theorem inContext_eq {α : Type} (action : Context → α × Context) (state : RunState) :
    inContext action state =
      (.ok (action state.context).1, { state with context := (action state.context).2 }) :=
  rfl

theorem getContext_eq (state : RunState) : getContext state = (.ok state.context, state) := rfl

/-- A template that is not there is not run. -/
theorem included_missing (again : RunOptions → List Chunk → RunM Unit) {name : String}
    {state : RunState} (missing : state.context.loader name = .missing) :
    included again name state = (.ok false, state) := by
  unfold included
  rw [Rules.bind_eq, getContext_eq]
  dsimp only
  rw [missing]
  rfl

/-- What is written in the place of a template that is not there: a comment, after nothing if it is
indented. -/
def missed (options : RunOptions) (name : String) (depth : Nat) : RunM Unit := do
  if options.pretty && 0 < depth then write ""
  write (comment ("fail to include " ++ name))

theorem runInclude_missing (again : RunOptions → List Chunk → RunM Unit) (options : RunOptions)
    {name : String} (depth : Nat) {state : RunState} (missing : state.context.loader name = .missing) :
    runInclude again options name depth state = missed options name depth state := by
  have caught : captured (included again name) state = (.ok (false, ""), state) := by
    have diverted : included again name { state with sink := .unlimited } = (.ok false, _) :=
      included_missing again missing
    unfold captured
    rw [diverted]
    rfl
  unfold runInclude missed
  dsimp only
  cases options.pretty && decide (0 < depth) with
  | true =>
    rw [if_pos rfl, if_pos rfl, Rules.bind_eq, caught]
    rfl
  | false =>
    rw [if_neg Bool.false_ne_true, if_neg Bool.false_ne_true, Rules.bind_eq, included_missing again missing]
    rfl

/-- One pass of a loop by a guard, in the scope that has been opened for it: whether another one may
follow. -/
def guardedPass (guard : Expr) (body : RunM Unit) : RunM Bool := do
  if ← inContext (Context.holds guard) then
    if ← inContext Context.step then
      stepping body
      return true
  return false

/-- A mixin that has been found gives its body, unless there is no step left or an argument is missing. -/
def callMixin (mixin : Mixin) (arguments : List Value) : RunM (Option (List Chunk)) := do
  if ← inContext Context.step then
    if ← inContext (mixin.enter arguments) then return some mixin.body
  return none

/-- What a call does once it is known which mixin the name has. -/
def answerCall (name : String) (arguments : Option Expr) :
    Option Mixin → RunM (Option (List Chunk))
  | none => do
    modifyContext (·.reportFault (.mixinNotFound name))
    return none
  | some mixin => do
    let values ← match arguments with
      | some arguments => inContext (Context.execArguments arguments)
      | none => pure (some [])
    match values with
    | none => return none
    | some values => callMixin mixin values

theorem enterCall_eq (name : String) (arguments : Option Expr) :
    enterCall name arguments = (do answerCall name arguments ((← getContext).mixin? name)) :=
  rfl

/-- Whether a chunk goes with those before it. -/
def Chain.takes : Chain → Chunk → Bool
  | conditions _, .elseIfBlock _ _ | conditions _, .elseBlock _ | single _, .elseBlock _ => true
  | _, _ => false

end Render

namespace Chunk

/-- Whether alternatives may follow a chunk. -/
def opensChain : Chunk → Bool
  | ifBlock _ _ | unlessBlock _ _ | eachBlock _ _ _ _ => true
  | _ => false

end Chunk

namespace Render

variable (again : RunOptions → List Chunk → RunM Unit) (bound : Nat) (options : RunOptions)

/-- The reports of the chunks before are written once no alternative to them has followed. -/
def afterChain {α : Type} (options : RunOptions) (chain : Chain) (part : RunM α) : RunM α := do
  if chain.isOpen then flushReports options
  note .began
  part

theorem runChunks_nil (chain : Chain) :
    runChunks again bound options chain [] =
      if chain.isOpen then flushReports options else pure () := by
  cases chain <;> rfl

theorem runChunks_if (chain : Chain) (guard : Expr) (body rest : List Chunk) :
    runChunks again bound options chain (.ifBlock guard body :: rest) =
      afterChain options chain (do
        let chosen ←
          branch guard false (entering body (runChunks again bound options .closed body))
        runChunks again bound options (.conditions chosen) rest) := by
  cases chain <;> rfl

theorem runChunks_unless (chain : Chain) (guard : Expr) (body rest : List Chunk) :
    runChunks again bound options chain (.unlessBlock guard body :: rest) =
      afterChain options chain (do
        let chosen ←
          branch guard true (entering body (runChunks again bound options .closed body))
        runChunks again bound options (.single chosen) rest) := by
  cases chain <;> rfl

theorem runChunks_each (chain : Chain) (item : String) (key : Option String) (source : Expr)
    (body rest : List Chunk) :
    runChunks again bound options chain (.eachBlock item key source body :: rest) =
      afterChain options chain (do
        let iterated ← inScope (loop item key source (rest.head?.any Chunk.isElse)
          (entering body (runChunks again bound options .closed body)))
        runChunks again bound options (.single iterated) rest) := by
  cases chain <;> rfl

theorem runChunks_elseIf (done : Bool) (guard : Expr) (body rest : List Chunk) :
    runChunks again bound options (.conditions done) (.elseIfBlock guard body :: rest) = (do
      let chosen ← if done then pure true
        else do
          note .entered
          branch guard false (entering body (runChunks again bound options .closed body))
      runChunks again bound options (.conditions chosen) rest) := by
  cases done <;> rfl

theorem runChunks_else {chain : Chain} (isOpen : chain.isOpen = true) (body rest : List Chunk) :
    runChunks again bound options chain (.elseBlock body :: rest) = (do
      if !chain.isDone then
        inScope (entering body (runChunks again bound options .closed body))
      flushReports options
      runChunks again bound options .closed rest) := by
  cases chain with
  | closed => cases isOpen
  | conditions done => rfl
  | single done => rfl

theorem runChunks_alone {chain : Chain} {chunk : Chunk} (untaken : chain.takes chunk = false)
    (closes : chunk.opensChain = false) (rest : List Chunk) :
    runChunks again bound options chain (chunk :: rest) = afterChain options chain (do
      runChunk again bound options chunk
      flushReports options
      runChunks again bound options .closed rest) := by
  cases chunk with
  | ifBlock => cases closes
  | unlessBlock => cases closes
  | eachBlock => cases closes
  | elseIfBlock =>
    cases chain with
    | conditions => cases untaken
    | _ => rfl
  | elseBlock =>
    cases chain with
    | closed => rfl
    | _ => cases untaken
  | _ => cases chain <;> rfl

end Render

end HtmlTemplate
