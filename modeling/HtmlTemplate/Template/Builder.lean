import HtmlTemplate.Diagnostic.Report
import HtmlTemplate.Template.Chunk

/-! Lines that are well formed but cannot be where they are. -/

namespace HtmlTemplate

inductive StructureFault where
  | strayElseIf
  | strayElse
  | strayWhen
  | strayDefault
  | caseLine
  | nestedInVoid
  | mixinName
  deriving DecidableEq, Repr

namespace StructureFault

def message : StructureFault → String
  | strayElseIf => "'elseif' without 'if'"
  | strayElse => "'else' without 'if' or 'each'"
  | strayWhen => "'when' outside of 'case'"
  | strayDefault => "'default' outside of 'case'"
  | caseLine => "Only 'when' and 'default' can be nested in 'case'"
  | nestedInVoid => "Self-closing tag cannot have nested lines"
  | mixinName => "Invalid mixin name"

end StructureFault

/-- A fault and the offset it is reported at. -/
structure StructureError where
  fault : StructureFault
  offset : Nat
  deriving DecidableEq, Repr

namespace StructureError

def diagnostic (error : StructureError) (source : List Char) : Diagnostic :=
  .atOffset .compiler source error.offset error.fault.message

end StructureError

/-! Putting chunks together. Text is held back until a chunk of another kind follows, so that
neighbouring texts become one chunk. -/

structure Builder where
  /-- Text that is in no chunk yet. -/
  pending : String
  /-- The chunks of the innermost open body, the last one first. -/
  emitted : List Chunk
  /-- How many line breaks pretty output has had so far. -/
  breaks : Nat
  /-- Whether nothing has been put out. -/
  atStart : Bool
  includes : List String

/-- Where a part of a template is laid out. -/
structure Layout where
  pretty : Bool
  /-- Number of tags around. -/
  depth : Nat

abbrev BuildM := StateT Builder (Except StructureError)

namespace Builder

def empty : Builder :=
  { pending := "", emitted := [], breaks := 0, atStart := true, includes := [] }

/-- Adds to the text. -/
def push (text : String) : BuildM Unit :=
  if text = "" then return
  else modify fun builder =>
    { builder with pending := builder.pending ++ text, atStart := false }

/-- In pretty output, begins a line at the depth of the layout. -/
def newline (layout : Layout) : BuildM Unit :=
  if layout.pretty then
    modify fun builder =>
      let tabs := String.ofList (List.replicate layout.depth '\t')
      { builder with
        pending := if builder.atStart then builder.pending else builder.pending ++ "\n" ++ tabs
        atStart := false, breaks := builder.breaks + 1 }
  else return

/-- Makes the text a chunk. -/
def flush : BuildM Unit :=
  modify fun builder =>
    if builder.pending = "" then builder
    else { builder with
      pending := "", emitted := .text builder.pending :: builder.emitted }

/-- Adds a chunk after the text. -/
def emit (chunk : Chunk) : BuildM Unit := do
  flush
  modify fun builder => { builder with emitted := chunk :: builder.emitted, atStart := false }

/-- Collects the chunks of a body, which begins where a chunk of another kind stands. -/
def enclosed (body : BuildM Unit) : BuildM (List Chunk) := do
  flush
  let outer := (← get).emitted
  modify fun builder => { builder with emitted := [], atStart := false }
  body
  flush
  let inner := (← get).emitted.reverse
  modify fun builder => { builder with emitted := outer }
  return inner

def noteInclude (name : String) : BuildM Unit :=
  modify fun builder =>
    if builder.includes.contains name then builder
    else { builder with includes := builder.includes ++ [name] }

end Builder

end HtmlTemplate
