import HtmlTemplate.Context.Access
import HtmlTemplate.Value.Coercion

/-! What an expression yields: a value of its own, or the way to one, which is looked at only
when the value is needed. -/

namespace HtmlTemplate

inductive Handle where
  /-- An expression that failed. -/
  | undefined
  /-- Something that is not there, which is no error. -/
  | absent
  | owned (value : Value)
  | reference (mutable : Bool) (place : Place)
  /-- A variable; an assignment gives the name a new meaning. -/
  | slot (frame : Nat) (name : String)
  /-- A key that a dictionary does not have yet. -/
  | vacant (container : Place) (key : String)
  | function (function : HostFunction) (receiver : Option Value)
  | hostClass (hostClass : HostClass)

namespace Handle

def isUndefined : Handle → Bool
  | undefined | absent => true
  | _ => false

def place? : Handle → Option Place
  | reference _ place => some place
  | slot frame name => some (.slot frame name)
  | _ => none

/-- A vacant key after something has been stored under it. -/
def settled : Handle → Handle
  | vacant container key => reference true (container.child (.key key))
  | handle => handle

end Handle

namespace Context

/-- The value that a handle leads to, if there is one. -/
def read? (context : Context) : Handle → Option Value
  | .owned value => some value
  | .reference _ place => context.resolve? place
  | .slot frame name => context.resolve? (.slot frame name)
  | _ => none

/-- The value that a handle leads to, or null. -/
def valueOf (context : Context) (handle : Handle) : Value := (context.read? handle).getD .null

def truthy (context : Context) (handle : Handle) : Bool := (context.valueOf handle).toBool

end Context

/-! Writing through handles. An assignment to a name gives the name a new meaning, one to a
member changes the container. -/

/-- Evaluation changes the variables, also when it ends in a fault. -/
abbrev EvalM := ExceptT EvalFault (StateM Context)

namespace Assignment

/-- What a variable gets when something is assigned to it. Functions and classes stay what
they are. A container is shared if it lives at least as long as the variable and is not the
variable itself; all other values are copied. -/
def bindingFor (context : Context) (frame : Nat) (name : String) (value : Handle) : Binding :=
  match value with
  | .function function none => .function function
  | .hostClass hostClass => .hostClass hostClass
  | value =>
    match value.place? with
    | some place =>
      let root := context.canonical place
      if (context.resolve? place).any Value.isContainer && root.root != .slot frame name &&
          root.root.frame ≤ frame then
        .alias root (context.isMutable place)
      else .ofValue (context.valueOf value)
    | none => .ofValue (context.valueOf value)

/-- Whether a name stands for data of the host that may be written. -/
def isHosted (context : Context) (frame : Nat) (name : String) : Bool :=
  match context.binding? frame name with
  | some (.value (.hosted _) _) => true
  | _ => false

/-- Puts a value at a place that may be changed. -/
def writeTo (place : Place) (value : Value) : EvalM Unit := do
  let context ← get
  match context.resolveMutable? place with
  | none => throw .readOnly
  | some _ => set ((context.write? place value).getD context)

/-- Stores a value under a key that a dictionary does not have yet. -/
def insertAt (container : Place) (key : String) (value : Value) : EvalM Unit := do
  let context ← get
  match context.resolveMutable? container with
  | none => throw .readOnly
  | some old =>
    match old.insert? key value with
    | none => throw .notAssignable
    | some changed => set ((context.write? container changed).getD context)

/-- An assignment; the value is looked up now. -/
def assign (target value : Handle) : EvalM Handle := do
  let context ← get
  match target with
  | .slot frame name =>
    if isHosted context frame name then writeTo (.slot frame name) (context.valueOf value)
    else set (context.store frame name (bindingFor context frame name value))
    return target
  | .reference true place =>
    writeTo place (context.valueOf value)
    return target
  | .vacant container key =>
    insertAt container key (context.valueOf value)
    return target.settled
  | .reference false _ => throw .readOnly
  | _ => throw .notAssignable

/-- Makes sure that a target holds a value: a declared variable without one gets null, and so
does a missing key. Gives the place of the value. -/
def prepare (target : Handle) : EvalM Place := do
  let context ← get
  match target with
  | .slot frame name =>
    if let some .unset := context.binding? frame name then
      set (context.store frame name (.ofValue .null))
    return .slot frame name
  | .reference true place => return place
  | .vacant container key =>
    insertAt container key .null
    return container.child (.key key)
  | .reference false _ => throw .readOnly
  | _ => throw .notAssignable

/-- Changes the value of a target. -/
def update (target : Handle) (change : Value → Except EvalFault Value) : EvalM Unit := do
  let place ← prepare target
  match (← get).resolveMutable? place with
  | none => throw .readOnly
  | some value => writeTo place (← change value)

end Assignment

/-! Members of values: the elements of containers, and the sizes that texts and containers
have as a member of their own. -/

/-- What is asked for: a name or a number. -/
inductive Member where
  | name (name : String)
  | index (number : Int64)
  deriving DecidableEq

namespace Member

/-- Integers and whole floats are numbers, everything else is a name. -/
def ofValue (value : Value) : Member :=
  match value with
  | .int number => index number
  | .float number =>
    if number.isFinite && number.floor == number then index number.toInt64
    else name value.toText
  | _ => name value.toText

/-- The key of a dictionary that a member stands for. -/
def key : Member → String
  | name word => word
  | index number => toString number.toInt

/-- What a value has as a member. -/
inductive Found where
  | element (segment : Value.Segment)
  | size (count : Nat)
  | nothing
  deriving DecidableEq

def find (container : Value) (member : Member) : Found :=
  match container, member with
  | .dict entries, _ =>
    if Entries.contains member.key entries then .element (.key member.key)
    else if member.key = "length" then .size entries.length
    else .nothing
  | .array items, index number =>
    if 0 ≤ number.toInt ∧ number.toInt < items.length then
      .element (.index number.toInt.toNat)
    else .nothing
  | .array items, name word => if word = "length" then .size items.length else .nothing
  | .text content, name word => if word = "length" then .size content.length else .nothing
  | _, _ => .nothing

/-- A member of a value that is not kept anywhere. -/
def ofOwned (value : Value) (member : Member) : Handle :=
  match find value member with
  | .element segment => .owned ((Value.step? segment value).getD .null)
  | .size count => .owned (.ofNat count)
  | .nothing => .absent

/-- A member of the value at a place. `target` tells that it is to be written, for which a
dictionary need not have it. -/
def atPlace (context : Context) (place : Place) (target : Bool) (member : Member) : Handle :=
  match context.resolve? place with
  | none => .absent
  | some container =>
    match find container member with
    | .element segment => .reference (context.isMutable place) (place.child segment)
    | .size count => .owned (.ofNat count)
    | .nothing => if target && container.isDict then .vacant place member.key else .absent

/-- The function that a class has for the values bound with it. -/
def method? (context : Context) (place : Place) : Member → Option HostFunction
  | name word => context.owner? place >>= fun owner => owner.members.lookup word
  | index _ => none

/-- A static function of a class. -/
def static? (hostClass : HostClass) : Member → Option HostFunction
  | name word => hostClass.statics.lookup word
  | index _ => none

def ofHandle (context : Context) (base : Handle) (target : Bool) (member : Member) : Handle :=
  match base with
  | .hostClass hostClass =>
    match static? hostClass member with
    | some function => .function function none
    | none => .absent
  | .owned value => ofOwned value member
  | base =>
    match base.place? with
    | none => .absent
    | some place =>
      match method? context place member with
      | some function => .function function (context.resolve? place)
      | none => atPlace context place target member

end Member

end HtmlTemplate
