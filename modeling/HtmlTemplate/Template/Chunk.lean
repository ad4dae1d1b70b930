import HtmlTemplate.Expr.Basic

/-! Compiled templates. What does not depend on the data has become text; what is left are
outputs, attributes, code and the statements that choose, repeat and share parts. -/

namespace HtmlTemplate

inductive Chunk where
  | text (content : String)
  | output (escape : Bool) (expr : Expr)
  /-- Text of an output that escaping would change. -/
  | escapable (content : String)
  | attr (escape : Bool) (name : String) (expr : Expr)
  /-- One attribute for each entry of a dictionary. -/
  | attrs (expr : Expr)
  | code (expr : Expr)
  | ifBlock (guard : Expr) (body : List Chunk)
  | unlessBlock (guard : Expr) (body : List Chunk)
  /-- Goes with the condition or the alternative before it. -/
  | elseIfBlock (guard : Expr) (body : List Chunk)
  /-- Goes with the conditions or the loop before it. -/
  | elseBlock (body : List Chunk)
  | caseBlock (subject : Expr) (branches : List Chunk)
  | whenBlock (value : Expr) (body : List Chunk)
  | defaultBlock (body : List Chunk)
  | eachBlock (item : String) (key : Option String) (source : Expr) (body : List Chunk)
  | whileBlock (guard : Expr) (body : List Chunk)
  /-- The depth of tags around an included template indents its lines. -/
  | includeTemplate (name : String) (depth : Nat)
  | mixin (name : String) (signature : Expr) (body : List Chunk)
  | mixinCall (name : String) (arguments : Option Expr)

namespace Chunk

/-- The name of the kind of a chunk in dumps. -/
def label : Chunk → String
  | text _ => "Text"
  | output true _ | escapable _ => "OutputEscaped"
  | output false _ => "OutputUnescaped"
  | attr true _ _ => "AttributeEscaped"
  | attr false _ _ => "AttributeUnescaped"
  | attrs _ => "AttributeList"
  | code _ => "Code"
  | ifBlock _ _ => "ControlIf"
  | unlessBlock _ _ => "ControlUnless"
  | elseIfBlock _ _ => "ControlElseIf"
  | elseBlock _ => "ControlElse"
  | caseBlock _ _ => "ControlCase"
  | whenBlock _ _ => "ControlWhen"
  | defaultBlock _ => "ControlDefault"
  | eachBlock _ none _ _ => "ControlEach"
  | eachBlock _ (some _) _ _ => "ControlEachPair"
  | whileBlock _ _ => "ControlWhile"
  | includeTemplate _ _ => "Include"
  | mixin _ _ _ => "Mixin"
  | mixinCall _ _ => "MixinCall"

/-- The text or the name that a chunk holds. -/
def value : Chunk → String
  | text content | escapable content => content
  | attr _ name _ | includeTemplate name _ | mixin name _ _ | mixinCall name _ => name
  | eachBlock item key _ _ => key.elim item fun key => item ++ " " ++ key
  | _ => ""

def expr? : Chunk → Option Expr
  | output _ expr | attr _ _ expr | attrs expr | code expr | ifBlock expr _
  | unlessBlock expr _ | elseIfBlock expr _ | caseBlock expr _ | whenBlock expr _
  | eachBlock _ _ expr _ | whileBlock expr _ | mixin _ expr _ => some expr
  | mixinCall _ arguments => arguments
  | _ => none

def isText : Chunk → Bool
  | text _ => true
  | _ => false

def isElseIf : Chunk → Bool
  | elseIfBlock _ _ => true
  | _ => false

def isElse : Chunk → Bool
  | elseBlock _ => true
  | _ => false

/-- The row of a chunk in a dump. Without the texts, a dump shows the shape alone. -/
def row (withText : Bool) (depth : Nat) (chunk : Chunk) : String :=
  let indent := String.ofList (List.replicate (2 * depth) ' ')
  let value :=
    if chunk.value = "" ∨ (chunk.isText ∧ !withText) then "" else " " ++ Quoted.dump chunk.value
  indent ++ chunk.label ++ value ++ (chunk.expr?.elim "" fun expr => " " ++ expr.dump) ++ "\n"

mutual

/-- One row for a chunk and each chunk in it, indented by its depth. -/
def describeAt (withText : Bool) (depth : Nat) (chunk : Chunk) : String :=
  row withText depth chunk ++
    match chunk with
    | ifBlock _ body | unlessBlock _ body | elseIfBlock _ body | elseBlock body
    | caseBlock _ body | whenBlock _ body | defaultBlock body | eachBlock _ _ _ body
    | whileBlock _ body | mixin _ _ body => describeAll withText (depth + 1) body
    | _ => ""

def describeAll (withText : Bool) (depth : Nat) : List Chunk → String
  | [] => ""
  | chunk :: rest => describeAt withText depth chunk ++ describeAll withText depth rest

end

end Chunk

/-- A template that is ready to run. -/
structure Template where
  chunks : List Chunk
  /-- Names of the templates that this one includes, in the order of their first mention. -/
  includes : List String
  /-- Whether block tags and lines of text have lines of their own. -/
  pretty : Bool
  /-- Whether the first error ends a run. -/
  stopOnError : Bool

namespace Template

def describe (template : Template) (withText : Bool) : String :=
  "Block\n" ++ Chunk.describeAll withText 1 template.chunks

end Template

end HtmlTemplate
