import HtmlTemplate.Render.Basic

/-! Running the chunks of a template. The chunks of a body are run one after the other, and
the reports are written after each of them; conditions and loops count as one with the
alternatives that follow them. -/

namespace HtmlTemplate

namespace Render

/-- What the chunks before may still have to say about an alternative that follows. -/
inductive Chain where
  | closed
  /-- After conditions: whether one of them has held. -/
  | conditions (done : Bool)
  /-- After a loop or a negated condition: whether a body has been run. -/
  | single (done : Bool)
  deriving DecidableEq

namespace Chain

def isOpen : Chain → Bool
  | closed => false
  | _ => true

/-- Whether an alternative to what came before is left out. -/
def isDone : Chain → Bool
  | closed => true
  | conditions done | single done => done

end Chain

/-- Writes the value of an expression, if it has one. -/
def writeValue (expr : Expr) (text : Value → String) : RunM Unit := do
  match ← inContext (Context.execValue? expr) with
  | some value => write (text value)
  | none => return

/-- Runs a template by its name, and tells whether there is one and it came to its end. `again`
runs the chunks of a template. -/
def included (again : RunOptions → List Chunk → RunM Unit) (name : String) : RunM Bool := do
  match (← getContext).loader name with
  | .missing => return false
  | .failed note =>
    modifyContext (·.notify note)
    return false
  | .template template =>
    modifyContext Context.forgetLast
    attempted (leaving (again template.runOptions template.chunks))

/-- Runs a template in the place of its name. The lines of one that is included inside of tags
are indented in pretty output. -/
def runInclude (again : RunOptions → List Chunk → RunM Unit) (options : RunOptions)
    (name : String) (depth : Nat) : RunM Unit := do
  let complete ← if options.pretty && 0 < depth then do
      let (complete, text) ← captured (included again name)
      write (indentLines depth text)
      pure complete
    else included again name
  if !complete then write (comment ("fail to include " ++ name))

mutual

/-- Runs some chunks. `bound` is how often a loop may be run, and `again` runs bodies that are
found by their names. -/
def runChunks (again : RunOptions → List Chunk → RunM Unit) (bound : Nat) (options : RunOptions)
    (chain : Chain) (chunks : List Chunk) : RunM Unit :=
  match chunks with
  | [] => if chain.isOpen then flushReports options else return
  | chunk :: rest =>
    match chain, chunk with
    | .conditions done, .elseIfBlock guard body => do
      let chosen ← if done then pure true
        else do
          note .entered
          branch guard false (entering body (runChunks again bound options .closed body))
      runChunks again bound options (.conditions chosen) rest
    | .conditions done, .elseBlock body | .single done, .elseBlock body => do
      if !done then inScope (entering body (runChunks again bound options .closed body))
      flushReports options
      runChunks again bound options .closed rest
    | chain, .ifBlock guard body => do
      if chain.isOpen then flushReports options
      note .began
      let chosen ←
        branch guard false (entering body (runChunks again bound options .closed body))
      runChunks again bound options (.conditions chosen) rest
    | chain, .unlessBlock guard body => do
      if chain.isOpen then flushReports options
      note .began
      let chosen ←
        branch guard true (entering body (runChunks again bound options .closed body))
      runChunks again bound options (.single chosen) rest
    | chain, .eachBlock item key source body => do
      if chain.isOpen then flushReports options
      note .began
      let hasElse := rest.head?.any Chunk.isElse
      let iterated ← inScope
        (loop item key source hasElse
          (entering body (runChunks again bound options .closed body)))
      runChunks again bound options (.single iterated) rest
    | chain, chunk => do
      if chain.isOpen then flushReports options
      note .began
      runChunk again bound options chunk
      flushReports options
      runChunks again bound options .closed rest

/-- Runs a chunk that no alternative goes with. -/
def runChunk (again : RunOptions → List Chunk → RunM Unit) (bound : Nat) (options : RunOptions)
    (chunk : Chunk) : RunM Unit :=
  match chunk with
  | .text content => write content
  | .output escape expr => do
    let escapes := escape && (← getContext).escapeOutput
    writeValue expr (·.output escapes)
  | .escapable content => do
    write (Value.escapeIf (← getContext).escapeOutput content)
  | .attr escape name expr => writeValue expr (·.attributeMarkup name escape)
  | .attrs expr => writeValue expr Value.attributesMarkup
  | .code expr => do
    let _ ← inContext (Context.exec expr)
  | .caseBlock subject branches => inScope do
    let value ← inContext (Context.execValue subject)
    runBranches again bound options value false branches
  | .whileBlock guard body =>
    whileStep guard (entering body (runChunks again bound options .closed body)) bound
  | .includeTemplate name depth => runInclude again options name depth
  | .mixin name signature body => modifyContext (define name signature body)
  | .mixinCall name arguments => do
    match ← enterCall name arguments with
    | some body => closing do
      note .entered
      stepping (again options body)
    | none => return
  | .ifBlock _ _ | .unlessBlock _ _ | .elseIfBlock _ _ | .elseBlock _ | .whenBlock _ _
  | .defaultBlock _ | .eachBlock _ _ _ _ => return

/-- Runs the first branch that fits a value. A branch for a value that has no body leads to
the next one that has. `matched` tells that the value has been found. -/
def runBranches (again : RunOptions → List Chunk → RunM Unit) (bound : Nat)
    (options : RunOptions) (subject : Value) (matched : Bool) (branches : List Chunk) :
    RunM Unit :=
  match branches with
  | [] => return
  | .whenBlock value body :: rest => do
    let matched ← if matched then pure true
      else do
        note .entered
        pure ((← inContext (Context.execValue value)).eq subject)
    if matched && !body.isEmpty then entering body (runChunks again bound options .closed body)
    else runBranches again bound options subject matched rest
  | .defaultBlock body :: rest =>
    if matched then runBranches again bound options subject matched rest
    else entering body (runChunks again bound options .closed body)
  | _ :: rest => runBranches again bound options subject matched rest

end

/-- Runs chunks. The bound limits the depth of mixin calls and included templates, and the
number of times that a loop by a guard is run. -/
def run : Nat → RunOptions → List Chunk → RunM Unit
  | 0, _, _ => throw .exhausted
  | bound + 1, options, chunks => runChunks (run bound) bound options .closed chunks

end Render

namespace Context

/-- Runs a template by its name, and tells whether there is one and it came to its end. -/
def runIncluded (context : Context) (bound : Nat) (name : String) (sink : Sink) :
    Except Halt Bool × RunState :=
  Render.included (Render.run bound) name { context, sink }

end Context

namespace Template

/-- Runs a template with some output before it. -/
def run (template : Template) (bound : Nat) (context : Context) (sink : Sink) :
    Except Halt Unit × RunState :=
  Render.run bound template.runOptions template.chunks
    { context := context.forgetLast, sink }

end Template

end HtmlTemplate
