import HtmlTemplate.Context.Basic

/-! Reading and writing places. A place that begins at an alias stands for the place that the
alias names; a write is refused as soon as one thing on the way is read-only. -/

namespace HtmlTemplate.Context

/-- More than any chain of different aliases can have. -/
def aliasBound (context : Context) : Nat :=
  context.frames.foldl (fun bound frame => bound + frame.bindings.length) 1

/-- The alias that a place begins at. -/
def alias? (context : Context) (place : Place) : Option (Place × Bool) :=
  match place.root with
  | .temp _ _ => none
  | .slot frame name =>
    match context.binding? frame name with
    | some (.alias target mutable) => some (target.extend place.path, mutable)
    | _ => none

/-- Follows at most some aliases: the place at their end, and whether all of them may be
written through. -/
def followAliases (context : Context) : Nat → Place → Place × Bool
  | 0, place => (place, true)
  | count + 1, place =>
    match context.alias? place with
    | none => (place, true)
    | some (target, mutable) =>
      let (stop, allMutable) := context.followAliases count target
      (stop, mutable && allMutable)

/-- The place that does not begin at an alias. -/
def canonical (context : Context) (place : Place) : Place :=
  (context.followAliases context.aliasBound place).1

/-- The value of a source. -/
def sourceValue? (context : Context) : Source → Option Value
  | .owned value | .lent value => some value
  | .hosted index => context.hosted[index]?

/-- The value at a root that is no alias. -/
def rootValue? (context : Context) : Root → Option Value
  | .slot frame name =>
    match context.binding? frame name with
    | some (.value source _) => context.sourceValue? source
    | _ => none
  | .temp frame index => context.frames[frame]? >>= fun frame => frame.temps[index]?

/-- Whether the value at a root that is no alias may be changed. -/
def isRootWritable (context : Context) : Root → Bool
  | .temp _ _ => true
  | .slot frame name =>
    match context.binding? frame name with
    | some (.value (.lent _) _) => false
    | some (.value _ _) => true
    | _ => false

/-- Puts a value at a root that holds one. -/
def setRoot (context : Context) (root : Root) (value : Value) : Context :=
  match root with
  | .temp frame index =>
    context.modifyFrame frame fun frame => { frame with temps := frame.temps.set index value }
  | .slot frame name =>
    match context.binding? frame name with
    | some (.value (.owned _) owner) => context.store frame name (.value (.owned value) owner)
    | some (.value (.hosted index) _) => { context with hosted := context.hosted.set index value }
    | _ => context

/-- The value at a place. -/
def resolve? (context : Context) (place : Place) : Option Value :=
  let place := context.canonical place
  context.rootValue? place.root >>= Value.follow? place.path

/-- Whether the value at a place may be changed. -/
def isMutable (context : Context) (place : Place) : Bool :=
  let (stop, allMutable) := context.followAliases context.aliasBound place
  allMutable && context.isRootWritable stop.root

/-- The value at a place, if it may be changed. -/
def resolveMutable? (context : Context) (place : Place) : Option Value :=
  if context.isMutable place then context.resolve? place else none

/-- Puts a value in the place of another one. -/
def write? (context : Context) (place : Place) (value : Value) : Option Context := do
  let place := context.canonical place
  let old ← context.rootValue? place.root
  let changed ← Value.replace? place.path old value
  return context.setRoot place.root changed

/-- The value of a name, looked up from the innermost scope outwards. -/
def get? (context : Context) (name : String) : Option Value :=
  context.find? name >>= fun frame => context.resolve? (.slot frame name)

/-- Makes a name in the innermost scope stand for a place. -/
def bindAlias (context : Context) (name : String) (place : Place) (mutable : Bool) : Context :=
  context.bind name (.alias (context.canonical place) mutable)

/-- Keeps a value as long as the innermost scope is open. -/
def pushTemp (context : Context) (value : Value) : Place × Context :=
  let index := ((context.frames[context.current]?).map (·.temps.length)).getD 0
  (.ofRoot (.temp context.current index),
    context.modifyFrame context.current fun frame => { frame with temps := frame.temps ++ [value] })

/-- The class that the member calls on a whole variable go to. -/
def owner? (context : Context) (place : Place) : Option HostClass :=
  match context.canonical place with
  | ⟨.slot frame name, []⟩ =>
    match context.binding? frame name with
    | some (.value _ owner) => owner
    | _ => none
  | _ => none

end HtmlTemplate.Context
