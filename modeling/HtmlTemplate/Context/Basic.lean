import HtmlTemplate.Diagnostic.Report
import HtmlTemplate.Eval.Fault
import HtmlTemplate.Template.Chunk
import HtmlTemplate.Value.Basic

/-! Places: where in the variables of a template a value is. -/

namespace HtmlTemplate

/-- Where a place begins: a named slot of a scope, or a value that the scope keeps without a
name. Scopes are counted from the outermost one. -/
inductive Root where
  | slot (frame : Nat) (name : String)
  | temp (frame index : Nat)
  deriving DecidableEq, Repr

namespace Root

def frame : Root → Nat
  | slot frame _ | temp frame _ => frame

end Root

/-- A root, and the steps from there into its containers. -/
structure Place where
  root : Root
  path : List Value.Segment
  deriving DecidableEq, Repr

namespace Place

def ofRoot (root : Root) : Place := ⟨root, []⟩

def slot (frame : Nat) (name : String) : Place := ofRoot (.slot frame name)

/-- The place some steps further in. -/
def extend (place : Place) (path : List Value.Segment) : Place :=
  { place with path := place.path ++ path }

def child (place : Place) (segment : Value.Segment) : Place := place.extend [segment]

end Place

/-! What templates run in: scopes with variables and mixins, the data that the host has lent,
and the reports of what went wrong. -/

/-- A function of the host. It gets its receiver, if it is called as a member of a value, and
its arguments, and gives a value or the message of an error. -/
abbrev HostFunction := Option Value → List Value → Except String Value

/-- Functions under one name: those called on the class itself, and those called on values
that the host has bound with the class. -/
structure HostClass where
  name : String
  statics : Entries HostFunction
  members : Entries HostFunction

/-- Where the value of a variable is kept, and who may change it. -/
inductive Source where
  /-- In the variable itself. -/
  | owned (value : Value)
  /-- With the host, for reading only. -/
  | lent (value : Value)
  /-- With the host, for writing too: the number of the value there. -/
  | hosted (index : Nat)

/-- What a name stands for. -/
inductive Binding where
  /-- Declared and not assigned yet. -/
  | unset
  /-- A value, and the class that its member calls go to. -/
  | value (source : Source) (owner : Option HostClass)
  /-- Another place. -/
  | alias (place : Place) (mutable : Bool)
  | function (function : HostFunction)
  | hostClass (hostClass : HostClass)

namespace Binding

def ofValue (value : Value) : Binding := .value (.owned value) none

end Binding

/-- A part of a template under a name, to be run with arguments. -/
structure Mixin where
  name : String
  /-- The parameters, each with the default it has. -/
  parameters : List (String × Option Expr)
  /-- After a parameter with a default come no others. -/
  ordered : parameters.Pairwise fun earlier later => earlier.2.isSome → later.2.isSome
  body : List Chunk

/-- One scope. -/
structure Frame where
  bindings : Entries Binding
  mixins : Entries Mixin
  /-- Values that loop variables refer to. -/
  temps : List Value

namespace Frame

def empty : Frame := { bindings := [], mixins := [], temps := [] }

end Frame

/-- What has been reported. Reports wait to be written into the output, unless the host
takes them. -/
structure Reports where
  taken : Option (List String)
  pending : List String
  /-- The last report that nobody has asked for yet. -/
  last : Option String
  /-- What all the reports have been about, the last one first. -/
  faults : List EvalFault

namespace Reports

def none : Reports := { taken := .none, pending := [], last := .none, faults := [] }

/-- How many reports there have been. -/
def made (reports : Reports) : Nat := reports.faults.length

def add (reports : Reports) (fault : EvalFault) : Reports :=
  let message := (Diagnostic.plain .context fault.message).text
  match reports.taken with
  | some messages =>
    { reports with
      taken := some (messages ++ [message]), last := some message,
      faults := fault :: reports.faults }
  | .none =>
    { reports with
      pending := reports.pending ++ [message], last := some message,
      faults := fault :: reports.faults }

variable (reports : Reports) (fault : EvalFault)

theorem faults_add : (reports.add fault).faults = fault :: reports.faults := by
  unfold add
  dsimp only
  split <;> rfl

theorem made_add : (reports.add fault).made = reports.made + 1 := by
  rw [made, faults_add, List.length_cons, made]

theorem last_add : (reports.add fault).last = some (Diagnostic.plain .context fault.message).text := by
  unfold add
  dsimp only
  split <;> rfl

theorem taken_add : (reports.add fault).taken =
    reports.taken.map (· ++ [(Diagnostic.plain .context fault.message).text]) := by
  unfold add
  dsimp only
  split
  · rename_i messages taken
    rw [taken, Option.map_some]
  · rename_i untaken
    rw [untaken, Option.map_none]

theorem pending_add : (reports.add fault).pending = reports.pending ++
    if reports.taken.isSome then [] else [(Diagnostic.plain .context fault.message).text] := by
  unfold add
  dsimp only
  split
  · rename_i messages taken
    rw [taken, Option.isSome_some, if_pos rfl, List.append_nil]
  · rename_i untaken
    rw [untaken, Option.isSome_none, if_neg Bool.false_ne_true]

end Reports

/-- What comes of asking for a template by its name. -/
inductive Loaded where
  | missing
  /-- The template has an error, and a note for the host says which. -/
  | failed (note : Option String)
  | template (template : Template)

structure Context where
  /-- The open scopes, the outermost one first. -/
  frames : List Frame
  /-- The values that the host has lent for writing. -/
  hosted : List Value
  loader : String → Loaded
  escapeOutput : Bool
  /-- How many loop passes and mixin calls may be run. -/
  stepLimit : Option Nat
  steps : Nat
  reports : Reports

namespace Context

def new : Context :=
  { frames := [Frame.empty], hosted := [], loader := fun _ => .missing, escapeOutput := true,
    stepLimit := none, steps := 0, reports := .none }

/-- Number of open scopes. -/
def depth (context : Context) : Nat := context.frames.length

/-- The number of the innermost scope. -/
def current (context : Context) : Nat := context.depth - 1

def pushScope (context : Context) : Context :=
  { context with frames := context.frames ++ [Frame.empty] }

/-- Closes the innermost scope; the outermost one stays open. -/
def popScope (context : Context) : Context :=
  if 1 < context.depth then { context with frames := context.frames.dropLast } else context

def modifyFrame (context : Context) (index : Nat) (change : Frame → Frame) : Context :=
  { context with frames := context.frames.modify index change }

def binding? (context : Context) (frame : Nat) (name : String) : Option Binding :=
  context.frames[frame]? >>= fun frame => frame.bindings.lookup name

/-- Gives a name in an open scope a meaning. -/
def store (context : Context) (frame : Nat) (name : String) (binding : Binding) : Context :=
  context.modifyFrame frame fun frame =>
    { frame with bindings := frame.bindings.insert name binding }

/-- Gives a name in the innermost scope a meaning. -/
def bind (context : Context) (name : String) (binding : Binding) : Context :=
  context.store context.current name binding

/-- Number of the last one of some scopes that knows a name. -/
def findIn (name : String) : List Frame → Option Nat
  | [] => none
  | frame :: rest =>
    match findIn name rest with
    | some index => some (index + 1)
    | none => if frame.bindings.contains name then some 0 else none

/-- Number of the innermost scope that knows a name. -/
def find? (context : Context) (name : String) : Option Nat := findIn name context.frames

/-! What the host binds in the innermost scope. -/

def set (context : Context) (name : String) (value : Value) : Context :=
  context.bind name (.ofValue value)

/-- Lends a value for reading. -/
def lend (context : Context) (name : String) (value : Value) : Context :=
  context.bind name (.value (.lent value) none)

/-- Lends a value for writing too. -/
def share (context : Context) (name : String) (value : Value) : Context :=
  { context with hosted := context.hosted ++ [value] }.bind name
    (.value (.hosted context.hosted.length) none)

/-- A value whose member calls go to a class. -/
def setObject (context : Context) (name : String) (value : Value) (owner : HostClass) : Context :=
  context.bind name (.value (.owned value) (some owner))

def setFunction (context : Context) (name : String) (function : HostFunction) : Context :=
  context.bind name (.function function)

def setFunctions (context : Context) (functions : List (String × HostFunction)) : Context :=
  functions.foldl (fun context (name, function) => context.setFunction name function) context

def setClass (context : Context) (hostClass : HostClass) : Context :=
  context.bind hostClass.name (.hostClass hostClass)

def setStepLimit (context : Context) (limit : Option Nat) : Context :=
  { context with stepLimit := limit, steps := 0 }

/-! Reports. -/

def reportFault (context : Context) (fault : EvalFault) : Context :=
  { context with reports := context.reports.add fault }

/-- Reports an error of the host. -/
def report (context : Context) (message : String) : Context := context.reportFault (.host message)

/-- Tells the host something, if it takes reports. -/
def notify (context : Context) (note : Option String) : Context :=
  { context with reports := { context.reports with
      taken := context.reports.taken.map (· ++ note.toList) } }

/-- The reports that wait, which then wait no longer. -/
def takePending (context : Context) : List String × Context :=
  (context.reports.pending,
    { context with reports := { context.reports with pending := [] } })

/-- What the host has been told since it last asked. -/
def takeTold (context : Context) : List String × Context :=
  (context.reports.taken.getD [],
    { context with reports := { context.reports with
        taken := context.reports.taken.map fun _ => [] } })

/-- Forgets the last report. -/
def forgetLast (context : Context) : Context :=
  { context with reports := { context.reports with last := .none } }

/-- Counts one loop pass or mixin call. Past the limit there are none; the first one that is
refused is reported. -/
def step (context : Context) : Bool × Context :=
  let context := { context with steps := context.steps + 1 }
  match context.stepLimit with
  | some limit =>
    if limit < context.steps then
      (false, if context.steps = limit + 1 then context.reportFault .stepLimit else context)
    else (true, context)
  | none => (true, context)

/-! Mixins. -/

/-- Adds a mixin to the innermost scope, if the scope has none of that name. -/
def defineMixin (context : Context) (mixin : Mixin) : Except EvalFault Context :=
  if (context.frames[context.current]?).any fun frame => frame.mixins.contains mixin.name then
    .error (.mixinRedefined mixin.name)
  else .ok (context.modifyFrame context.current fun frame =>
    { frame with mixins := frame.mixins.insert mixin.name mixin })

/-- The mixin of a name that the innermost scope with one has. -/
def mixin? (context : Context) (name : String) : Option Mixin :=
  context.frames.reverse.findSome? fun frame => frame.mixins.lookup name

end Context

end HtmlTemplate
