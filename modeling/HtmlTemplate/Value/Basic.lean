/-! Tables from names to values, kept in the order of the names. -/

namespace HtmlTemplate

/-- A list of named values in increasing order of the names. -/
abbrev Entries (α : Type) := List (String × α)

namespace Entries

variable {α : Type}

def lookup (name : String) : Entries α → Option α
  | [] => none
  | (first, value) :: rest => if first = name then some value else lookup name rest

def contains (name : String) (entries : Entries α) : Bool := (entries.lookup name).isSome

/-- Binds a name, in the place of an earlier binding or at its place in the order. -/
def insert (name : String) (value : α) : Entries α → Entries α
  | [] => [(name, value)]
  | (first, old) :: rest =>
    if first = name then (name, value) :: rest
    else if name < first then (name, value) :: (first, old) :: rest
    else (first, old) :: insert name value rest

def names (entries : Entries α) : List String := entries.map Prod.fst

/-- Binds every name of the second table; a name in both keeps the second value. -/
def union (entries more : Entries α) : Entries α :=
  more.foldl (fun table (name, value) => insert name value table) entries

def ofList (pairs : List (String × α)) : Entries α := union [] pairs

@[simp] theorem lookup_nil (name : String) : lookup name ([] : Entries α) = none := rfl

@[simp] theorem lookup_insert_self (name : String) (value : α) (entries : Entries α) :
    lookup name (insert name value entries) = some value := by
  induction entries with
  | nil => simp [insert, lookup]
  | cons entry rest step =>
    obtain ⟨first, old⟩ := entry
    unfold insert
    split
    · simp [lookup]
    · split
      · simp [lookup]
      · simp [lookup, *]

theorem lookup_insert_of_ne {name other : String} (different : other ≠ name) (value : α)
    (entries : Entries α) : lookup other (insert name value entries) = lookup other entries := by
  induction entries with
  | nil => simp [insert, lookup, different.symm]
  | cons entry rest step =>
    obtain ⟨first, old⟩ := entry
    unfold insert
    split
    · rename_i same
      subst same
      simp [lookup, different.symm]
    · split
      · simp [lookup, different.symm]
      · simp [lookup, step]

theorem mem_of_lookup {name : String} {value : α} {entries : Entries α}
    (known : entries.lookup name = some value) : (name, value) ∈ entries := by
  induction entries with
  | nil => cases known
  | cons entry rest step =>
    obtain ⟨first, other⟩ := entry
    unfold lookup at known
    split at known
    · rename_i same
      cases known
      rw [same]
      exact List.mem_cons_self ..
    · exact List.mem_cons_of_mem _ (step known)

theorem eq_or_mem_of_mem_insert {name : String} {value : α} {entries : Entries α} {entry : String × α}
    (member : entry ∈ insert name value entries) : entry = (name, value) ∨ entry ∈ entries := by
  induction entries with
  | nil => exact .inl (List.mem_singleton.mp member)
  | cons other rest step =>
    obtain ⟨first, old⟩ := other
    unfold insert at member
    split at member
    · rcases List.mem_cons.mp member with rfl | member
      · exact .inl rfl
      · exact .inr (List.mem_cons_of_mem _ member)
    · split at member
      · exact List.mem_cons.mp member
      · rcases List.mem_cons.mp member with rfl | member
        · exact .inr (List.mem_cons_self ..)
        · exact (step member).imp id (List.mem_cons_of_mem _)

end Entries

/-! The values that templates read, compute and write. -/

inductive Value where
  | null
  | bool (flag : Bool)
  | int (number : Int64)
  | float (number : Float)
  | text (content : String)
  | array (items : List Value)
  | dict (entries : List (String × Value))
  deriving Inhabited

namespace Value

def isNull : Value → Bool
  | null => true
  | _ => false

def isText : Value → Bool
  | text _ => true
  | _ => false

def isDict : Value → Bool
  | dict _ => true
  | _ => false

/-- Arrays and dictionaries. -/
def isContainer : Value → Bool
  | array _ | dict _ => true
  | _ => false

/-- Values that take part in arithmetic. -/
def isBasic : Value → Bool
  | bool _ | int _ | float _ | text _ => true
  | _ => false

/-- The word for the kind of a value in messages. -/
def kindName : Value → String
  | null => "null"
  | bool _ => "bool"
  | int _ => "integer"
  | float _ => "float"
  | text _ => "string"
  | array _ => "array"
  | dict _ => "dict"

/-- Number of elements of a container, zero for any other value. -/
def size : Value → Nat
  | array items => items.length
  | dict entries => entries.length
  | _ => 0

/-- A count as an integer value. -/
def ofNat (count : Nat) : Value := int (Int64.ofNat count)

def get? (key : String) : Value → Option Value
  | dict entries => Entries.lookup key entries
  | _ => none

def at? (index : Nat) : Value → Option Value
  | array items => items[index]?
  | _ => none

/-- Binds a key of a dictionary; other values have no keys. -/
def insert? (container : Value) (key : String) (element : Value) : Option Value :=
  match container with
  | dict entries => some (dict (Entries.insert key element entries))
  | _ => none

mutual

/-- Equality of templates: integers and floats compare by what they are worth, and what is
not a number differs from itself. -/
def eq : Value → Value → Bool
  | null, null => true
  | bool first, bool second => first == second
  | int first, int second => first == second
  | float first, float second => first == second
  | int first, float second => first.toFloat == second
  | float first, int second => second.toFloat == first
  | text first, text second => first == second
  | array first, array second => eqItems first second
  | dict first, dict second => eqEntries first second
  | _, _ => false

def eqItems : List Value → List Value → Bool
  | [], [] => true
  | first :: firsts, second :: seconds => eq first second && eqItems firsts seconds
  | _, _ => false

def eqEntries : List (String × Value) → List (String × Value) → Bool
  | [], [] => true
  | (name, first) :: firsts, (other, second) :: seconds =>
    name == other && eq first second && eqEntries firsts seconds
  | _, _ => false

end

/-- One step into a container. -/
inductive Segment where
  | key (name : String)
  | index (position : Nat)
  deriving DecidableEq, Repr

def step? : Segment → Value → Option Value
  | .key name, value => value.get? name
  | .index position, value => value.at? position

/-- The value at the end of a path. -/
def follow? : List Segment → Value → Option Value
  | [], value => some value
  | segment :: path, value => step? segment value >>= follow? path

/-- Puts a value in the place of the element that one step leads to, if there is one. -/
def setStep? (segment : Segment) (value element : Value) : Option Value :=
  match value, segment with
  | dict entries, .key name =>
    if Entries.contains name entries then some (dict (Entries.insert name element entries))
    else none
  | array items, .index position =>
    if position < items.length then some (array (items.set position element)) else none
  | _, _ => none

/-- Puts a value in the place of the one at the end of a path. -/
def replace? : List Segment → Value → Value → Option Value
  | [], _, replacement => some replacement
  | segment :: path, value, replacement => do
    let element ← step? segment value
    let changed ← replace? path element replacement
    setStep? segment value changed

end Value

end HtmlTemplate
