import HtmlTemplate.Eval.Mixin
import HtmlTemplate.Value.Printing

/-! Where the output of a template goes. A sink may have room for a limited number of bytes, or
take a limited number of writes; the first write that it does not take breaks it, and from then
on it refuses every write. -/

namespace HtmlTemplate

namespace Sink

/-- Up to where a sink takes what is written. -/
inductive Limit where
  /-- There is room for some bytes. -/
  | bytes (room : Nat)
  /-- Some writes are taken, and of the next one only its first characters. -/
  | writes (left : Nat) (part : Nat)
  deriving DecidableEq

/-- A number alone is one of bytes. -/
instance (room : Nat) : OfNat Limit room := ⟨.bytes room⟩

/-- What is left after a write. -/
def Limit.spent : Limit → Limit
  | bytes room => bytes room
  | writes left part => writes (left - 1) part

end Sink

structure Sink where
  /-- What has been accepted. -/
  text : String
  limit : Option Sink.Limit
  broken : Bool
  deriving DecidableEq

namespace Sink

def unlimited : Sink := { text := "", limit := none, broken := false }

/-- A sink that has room for a number of bytes. -/
def ofLimit (limit : Option Nat) : Sink := { text := "", limit := limit.map .bytes, broken := false }

/-- Whether a text is taken. -/
def accepts (sink : Sink) (text : String) : Bool :=
  !sink.broken && sink.limit.all fun
    | .bytes room => sink.text.utf8ByteSize + text.utf8ByteSize ≤ room
    | .writes left _ => 0 < left

/-- What is taken of a text that is refused. -/
def remnant (sink : Sink) (text : String) : String :=
  match sink.broken, sink.limit with
  | false, some (.writes _ part) => String.ofList (text.toList.take part)
  | _, _ => ""

/-- Tells whether the text has been accepted. -/
def write (sink : Sink) (text : String) : Bool × Sink :=
  if sink.accepts text then
    (true, { sink with text := sink.text ++ text, limit := sink.limit.map Limit.spent })
  else (false, { sink with text := sink.text ++ sink.remnant text, broken := true })

end Sink

/-! What a run of a template is made of: writing, reports, scopes and the counting of loop
passes. A scope that a part opens is closed again however the part ends. -/

/-- Why a run ended early. -/
inductive Halt where
  /-- An error was reported and the template stops at errors. -/
  | stopped (message : String)
  /-- The output was refused. -/
  | output
  /-- The bound on loops and calls was reached, so it is not known how the run goes on. -/
  | exhausted
  deriving DecidableEq

/-- What a run does, for those who ask when it did it. -/
inductive Event where
  /-- A chunk is run. -/
  | began
  /-- A body that is not empty is run, or it is asked whether an alternative is to be run. -/
  | entered
  /-- The body of a loop or of a mixin is run. -/
  | stepped
  /-- A template that was included has come to its end, whatever that was. -/
  | left
  | wrote (text : String)
  deriving DecidableEq

structure RunState where
  context : Context
  sink : Sink
  /-- What has been done, the last thing first, each with the number of reports before it. -/
  past : List (Nat × Event) := []

namespace RunState

def remember (state : RunState) (event : Event) : RunState :=
  { state with past := (state.context.reports.made, event) :: state.past }

end RunState

abbrev RunM := ExceptT Halt (StateM RunState)

/-- The options of a template that matter in a run. -/
structure RunOptions where
  pretty : Bool
  stopOnError : Bool
  deriving DecidableEq

namespace Template

def runOptions (template : Template) : RunOptions :=
  { pretty := template.pretty, stopOnError := template.stopOnError }

end Template

namespace Render

def getContext : RunM Context := return (← get).context

def modifyContext (change : Context → Context) : RunM Unit :=
  modify fun state => { state with context := change state.context }

/-- Lets the context go on and gives the result. -/
def inContext {α : Type} (action : Context → α × Context) : RunM α := do
  let state ← get
  let (result, context) := action state.context
  set { state with context }
  return result

def note (event : Event) : RunM Unit := modify (·.remember event)

def write (text : String) : RunM Unit := do
  let state ← get
  let (accepted, sink) := state.sink.write text
  set { state with sink }
  if accepted then note (.wrote text) else throw .output

/-- Runs a body of some chunks. -/
def entering (chunks : List Chunk) (body : RunM Unit) : RunM Unit := do
  if !chunks.isEmpty then note .entered
  body

/-- Runs the body of a loop or of a mixin. -/
def stepping (body : RunM Unit) : RunM Unit := do
  note .stepped
  body

/-- Runs a part and closes the innermost scope after it, also if the part ended early. -/
def closing {α : Type} (part : RunM α) : RunM α := fun state =>
  let (result, after) := part state
  (result, { after with context := after.context.popScope })

/-- Runs a part in a scope of its own. -/
def inScope {α : Type} (part : RunM α) : RunM α := do
  modifyContext Context.pushScope
  closing part

/-- A report as a comment. -/
def comment (message : String) : String := "<!-- " ++ message ++ " -->"

/-- Writes the reports that wait, and ends the run at an error if it has to. -/
def flushReports (options : RunOptions) : RunM Unit := do
  let messages ← inContext Context.takePending
  messages.forM fun message => write (comment message)
  if options.stopOnError then
    match (← getContext).reports.last with
    | none => return
    | some message =>
      modifyContext Context.forgetLast
      throw (.stopped message)

/-- Runs a body once for each item while there are steps left, each time in a scope that the
item has been entered in. -/
def eachStep {α : Type} (enter : α → Context → Context) (body : RunM Unit) : List α → RunM Unit
  | [] => return
  | item :: rest => do
    if ← inContext Context.step then
      inScope do
        modifyContext (enter item)
        stepping body
      eachStep enter body rest

/-- Runs a body as long as a guard holds and there are steps left, at most some number of
times. Guard and body share a scope. -/
def whileStep (guard : Expr) (body : RunM Unit) : Nat → RunM Unit
  | 0 => throw .exhausted
  | bound + 1 => do
    let again ← inScope do
      if ← inContext (Context.holds guard) then
        if ← inContext Context.step then
          stepping body
          return true
      return false
    if again then whileStep guard body bound

/-- Runs a body if a guard holds or, with `negate`, if it does not, and tells whether it has.
Guard and body share a scope. -/
def branch (guard : Expr) (negate : Bool) (body : RunM Unit) : RunM Bool :=
  inScope do
    let chosen := (← inContext (Context.holds guard)) != negate
    if chosen then body
    return chosen

/-- Binds the variables of a loop to a value that is no container. -/
def enterScalar (item : String) (key : Option String) (value : Value) (_ : Unit)
    (context : Context) : Context :=
  let context := context.set item value
  key.elim context fun key => context.set key (.ofNat 0)

/-- Binds the variables of a loop to an element of an array. -/
def enterElement (item : String) (key : Option String) (place : Place) (mutable : Bool)
    (position : Nat) (context : Context) : Context :=
  let context := context.bindAlias item (place.child (.index position)) mutable
  key.elim context fun key => context.set key (.ofNat position)

/-- Binds the variables of a loop to an entry of a dictionary. -/
def enterEntry (item : String) (key : Option String) (place : Place) (mutable : Bool)
    (name : String) (context : Context) : Context :=
  let context := key.elim context fun key => context.set key (.text name)
  context.bindAlias item (place.child (.key name)) mutable

/-- Runs the body of a loop for each element of its source, and tells whether the source had
any. A value that is no container counts as one element, unless there is an alternative. -/
def loop (item : String) (key : Option String) (source : Expr) (hasElse : Bool)
    (body : RunM Unit) : RunM Bool := do
  let handle ← inContext (Context.exec source)
  match ← inContext (Context.loopSource handle) with
  | .empty => return false
  | .scalar value =>
    if hasElse then return false
    else
      eachStep (enterScalar item key value) body [()]
      return true
  | .array place length mutable =>
    eachStep (enterElement item key place mutable) body (List.range length)
    return true
  | .dict place keys mutable =>
    eachStep (enterEntry item key place mutable) body keys
    return true

/-- Defines a mixin in the innermost scope. -/
def define (name : String) (signature : Expr) (body : List Chunk) (context : Context) : Context :=
  match Mixin.ofDefinition name signature body >>= context.defineMixin with
  | .ok defined => defined
  | .error fault => context.reportFault fault

/-- Opens the scope for a call of a mixin and gives its body, unless the call fails. -/
def enterCall (name : String) (arguments : Option Expr) : RunM (Option (List Chunk)) := do
  match (← getContext).mixin? name with
  | none =>
    modifyContext (·.reportFault (.mixinNotFound name))
    return none
  | some mixin =>
    let values ← match arguments with
      | some arguments => inContext (Context.execArguments arguments)
      | none => pure (some [])
    match values with
    | none => return none
    | some values =>
      if ← inContext Context.step then
        if ← inContext (mixin.enter values) then return some mixin.body
      return none

/-- Runs a part with an output of its own, and gives what was written. -/
def captured {α : Type} (part : RunM α) : RunM (α × String) := fun state =>
  let (result, after) := part { state with sink := .unlimited }
  (result.map fun value => (value, after.sink.text), { after with sink := state.sink })

/-- Runs a part that belongs to another template, and tells whether it came to its end. -/
def attempted (part : RunM Unit) : RunM Bool := fun state =>
  match part state with
  | (.ok (), after) => (.ok true, after)
  | (.error .exhausted, after) => (.error .exhausted, after)
  | (.error _, after) => (.ok false, after)

/-- Runs a template that is included. -/
def leaving {α : Type} (part : RunM α) : RunM α := fun state =>
  let (result, after) := part state
  (result, after.remember .left)

/-- Indents all lines of a text but the first. -/
def indentLines (depth : Nat) (text : String) : String :=
  let lineBreak := '\n' :: List.replicate depth '\t'
  String.ofList (text.toList.flatMap fun char => if char = '\n' then lineBreak else [char])

end Render

end HtmlTemplate
