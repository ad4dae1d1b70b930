import HtmlTemplate.Expr.Operator

/-! What an expression may hold and where it ends. The same grammar is used in places that
end differently: an output ends with its line, an attribute value at a comma, and a
statement of a code block may go on in the next line of the block. -/

namespace HtmlTemplate

/-- The operators that may be used. -/
structure OperatorSet where
  contains : Op → Bool

namespace OperatorSet

def all : OperatorSet := ⟨fun _ => true⟩

def none : OperatorSet := ⟨fun _ => false⟩

def insert (set : OperatorSet) (op : Op) : OperatorSet :=
  ⟨fun other => other == op || set.contains other⟩

def erase (set : OperatorSet) (op : Op) : OperatorSet :=
  ⟨fun other => other != op && set.contains other⟩

def ofList (ops : List Op) : OperatorSet := ops.foldl insert none

end OperatorSet

/-- What ends an expression outside of brackets. -/
structure Stops where
  /-- Any line end, also inside of brackets. -/
  line : Bool
  colon : Bool
  comma : Bool
  semicolon : Bool
  /-- A line end, unless blank lines and the continuation text follow. -/
  unlessContinued : Bool
  deriving DecidableEq, Repr

namespace Stops

def nowhere : Stops :=
  { line := false, colon := false, comma := false, semicolon := false, unlessContinued := false }

/-- The characters that separate one expression from the next. -/
def separators : Stops := { nowhere with colon := true, comma := true, semicolon := true }

end Stops

structure ParseOptions where
  operators : OperatorSet
  stops : Stops
  /-- What starts a line that continues an expression, its line end included. -/
  continuation : List Char

namespace ParseOptions

/-- Expressions on a line of markup. -/
def inline : ParseOptions :=
  { operators := .all, stops := { Stops.separators with line := true }, continuation := [] }

/-- Expressions of their own, in which line ends are white space. -/
def script : ParseOptions :=
  { operators := .all, stops := .separators, continuation := [] }

/-- Expressions that end with their text alone. -/
def unbounded : ParseOptions := { operators := .all, stops := .nowhere, continuation := [] }

/-- Statements of a block whose lines all start with the given text. -/
def continuedBy (continuation : List Char) : ParseOptions :=
  { operators := .all, stops := { Stops.separators with unlessContinued := true }, continuation }

/-- Outputs keep their commas: each element is printed in turn. -/
def output : ParseOptions :=
  { inline with stops := { inline.stops with comma := false } }

end ParseOptions

end HtmlTemplate
