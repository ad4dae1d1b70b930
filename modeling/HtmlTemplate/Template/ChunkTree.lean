import HtmlTemplate.Template.Source

/-! The chunks of a template in one list, in which a chunk names those in it by place. Every chunk is put into
the one that is open when it is made; the first one of the list is the template itself. -/

namespace HtmlTemplate

inductive ChunkKind where
  /-- The template itself. -/
  | block
  | text
  | escapedOutput
  | rawOutput
  | escapedAttr
  | rawAttr
  | attrs
  | code
  | ifBlock
  | unlessBlock
  | elseIfBlock
  | elseBlock
  | caseBlock
  | whenBlock
  | defaultBlock
  | eachBlock
  | eachPairBlock
  | whileBlock
  | includeTemplate
  | mixin
  | mixinCall
  deriving DecidableEq, Repr

namespace ChunkKind

/-- Whether a statement that chooses or repeats what is in it. -/
def isControl : ChunkKind → Bool
  | ifBlock | unlessBlock | elseIfBlock | elseBlock | caseBlock | whenBlock | defaultBlock | eachBlock
  | eachPairBlock | whileBlock => true
  | _ => false

end ChunkKind

def Chunk.kind : Chunk → ChunkKind
  | text _ => .text
  | output true _ | escapable _ => .escapedOutput
  | output false _ => .rawOutput
  | attr true _ _ => .escapedAttr
  | attr false _ _ => .rawAttr
  | attrs _ => .attrs
  | code _ => .code
  | ifBlock _ _ => .ifBlock
  | unlessBlock _ _ => .unlessBlock
  | elseIfBlock _ _ => .elseIfBlock
  | elseBlock _ => .elseBlock
  | caseBlock _ _ => .caseBlock
  | whenBlock _ _ => .whenBlock
  | defaultBlock _ => .defaultBlock
  | eachBlock _ none _ _ => .eachBlock
  | eachBlock _ (some _) _ _ => .eachPairBlock
  | whileBlock _ _ => .whileBlock
  | includeTemplate _ _ => .includeTemplate
  | mixin _ _ _ => .mixin
  | mixinCall _ _ => .mixinCall

/-- A chunk in a list. -/
structure Cell where
  kind : ChunkKind
  /-- The text or the name that it holds. -/
  value : String
  expr : Option Expr
  /-- Number of tags around it, where this is kept. -/
  depth : Nat
  /-- The places of the chunks in it. -/
  children : List Nat

namespace Cell

/-- A chunk with nothing in it yet. -/
def ofChunk (depth : Nat) (chunk : Chunk) : Cell :=
  { kind := chunk.kind, value := chunk.value, expr := chunk.expr?, depth, children := [] }

/-- The template itself. -/
def block : Cell := { kind := .block, value := "", expr := none, depth := 0, children := [] }

/-- A chunk with some more in it. -/
def holding (places : List Nat) (cell : Cell) : Cell := { cell with children := cell.children ++ places }

end Cell

/-- Chunks by place. There is no bound on places. -/
structure ChunkTree where
  cells : List Cell
  /-- Names of the included templates, in the order of their first mention. -/
  includes : List String

/-! Putting chunks into the list. -/

structure Placing where
  cells : List Cell
  /-- The place of the open chunk. -/
  current : Nat
  /-- Text that is in no chunk yet. -/
  pending : String
  /-- How many line breaks pretty output has had so far. -/
  breaks : Nat
  /-- Whether nothing has been put out. -/
  atStart : Bool
  includes : List String

abbrev PlaceM := StateT Placing (Except StructureError)

namespace Placing

def start : Placing :=
  { cells := [.block], current := 0, pending := "", breaks := 0, atStart := true, includes := [] }

/-- Puts a chunk into the open one, after those that are in it. -/
def put (cell : Cell) (placing : Placing) : Placing :=
  { placing with cells :=
      (placing.cells ++ [cell]).modify placing.current (Cell.holding [placing.cells.length]) }

/-- Makes the text a chunk. -/
def flushed (placing : Placing) : Placing :=
  if placing.pending = "" then placing
  else { placing with pending := "" }.put (.ofChunk 0 (.text placing.pending))

def flush : PlaceM Unit := modify flushed

/-- Adds to the text. -/
def push (text : String) : PlaceM Unit :=
  if text = "" then return
  else modify fun placing => { placing with pending := placing.pending ++ text, atStart := false }

/-- In pretty output, begins a line at the depth of the layout. -/
def newline (layout : Layout) : PlaceM Unit :=
  if layout.pretty then
    modify fun placing =>
      let tabs := String.ofList (List.replicate layout.depth '\t')
      { placing with
        pending := if placing.atStart then placing.pending else placing.pending ++ "\n" ++ tabs
        atStart := false, breaks := placing.breaks + 1 }
  else return

/-- Adds a chunk after the text. Gives its place. -/
def emit (cell : Cell) : PlaceM Nat := fun placing =>
  let placing := placing.flushed
  .ok (placing.cells.length, { placing.put cell with atStart := false })

/-- Adds a chunk that nothing will be put into. -/
def leaf (depth : Nat) (chunk : Chunk) : PlaceM Unit := do
  let _ ← emit (.ofChunk depth chunk)

/-- Opens a chunk for its body. The text at the end of the body is put into it, and the chunk that was open
before is open again. -/
def within (place : Nat) (body : PlaceM Unit) : PlaceM Unit := do
  let outer := (← get).current
  modify fun placing => { placing with current := place }
  body
  flush
  modify fun placing => { placing with current := outer }

def noteInclude (name : String) : PlaceM Unit :=
  modify fun placing =>
    if placing.includes.contains name then placing
    else { placing with includes := placing.includes ++ [name] }

end Placing

/-! From the parts of a template to the list of its chunks. -/

namespace Placing

open Compilation (tagName shorthand isTextLine misplaced? control? nestedLines)

variable (fold : Expr → Option Value)

/-- One element of an output. -/
def outputItem (escape : Bool) (expr : Expr) : PlaceM Unit :=
  match fold expr with
  | none => leaf 0 (.output escape expr)
  | some value =>
    if escape && value.output true != value.printed then leaf 0 (.escapable value.printed)
    else push value.printed

/-- The outputs among some parts. -/
def outputs (parts : List Token) : PlaceM Unit :=
  parts.forM fun part => (part.expr).forM fun expr =>
    expr.sequence.forM (outputItem fold (part.kind == .escapedOutput))

def code (expr : Expr) : PlaceM Unit := if (fold expr).isNone then leaf 0 (.code expr) else return

def statements (parts : List Token) : PlaceM Unit :=
  parts.forM fun part => (part.expr).forM (code fold)

def attr (escape : Bool) (name : String) (value : Option Expr) : PlaceM Unit :=
  match value with
  | none => do
    push " "
    push name
  | some expr =>
    match fold expr with
    | some value => push (value.attributeMarkup name escape)
    | none => leaf 0 (.attr escape name expr)

/-- A pair of an attribute list. -/
def pair (token : Token) : PlaceM Unit :=
  let name := (token.children.head?.map fun name => String.join (name.children.map Token.text)).getD ""
  attr fold (token.kind == .escapedPair) name (token.children[1]? >>= Token.expr)

/-- The attributes that a part of a tag gives. -/
def attributes (part : Token) : PlaceM Unit :=
  match part.kind with
  | .attributeList => part.children.forM (pair fold)
  | .attributeExpr => (part.expr).forM fun expr => leaf 0 (.attrs expr)
  | _ => return

/-- What separates a line of text from the line before it. -/
def parting (layout : Layout) (afterText : Bool) : PlaceM Unit :=
  if layout.pretty then newline layout else if afterText then push "\n" else return

/-- A statement, which is made and put out before its body. -/
def control (layout : Layout) (head : Chunk) (body : PlaceM Unit) : PlaceM Unit := do
  within (← emit (.ofChunk layout.depth head)) body

mutual

/-- Some lines one after the other. `previous` is the kind of the line before them, and
`afterText` tells whether that line was text, to which text is joined with a line break. -/
def block (layout : Layout) (afterText : Bool) (previous : Option TokenKind) (lines : List Token) :
    PlaceM Unit :=
  match lines with
  | [] => return
  | token :: rest =>
    match misplaced? previous token.kind with
    | some fault => throw ⟨fault, token.span.start⟩
    | none => do
      if isTextLine token then parting layout afterText
      statement layout token
      block layout (isTextLine token) (some token.kind) rest
termination_by 2 * sizeOf lines + 1
decreasing_by all_goals simp <;> omega

def statement (layout : Layout) (token : Token) : PlaceM Unit :=
  match token with
  | ⟨.line, _, _, _, data :: nested⟩ => line layout data nested
  | ⟨.includeTarget, _, text, _, _⟩ => do
    let name := Blank.trim text
    noteInclude name
    newline layout
    leaf layout.depth (.includeTemplate name layout.depth)
  | ⟨.doctype, _, text, _, _⟩ => push (Markup.doctype (Blank.trim text))
  | ⟨.mixinControl, span, _, some signature, body⟩ =>
    match signature.definedName? with
    | none => throw ⟨.mixinName, span.start⟩
    | some name => control layout (.mixin name signature []) (block layout false none body)
  | ⟨.caseControl, _, _, some subject, body⟩ =>
    control layout (.caseBlock subject []) (branches layout body)
  | ⟨kind, span, text, expr, body⟩ =>
    match control? ⟨kind, span, text, expr, body⟩ with
    | none => return
    | some chunk => control layout (chunk []) (block layout false none (nestedLines body))
termination_by 2 * sizeOf token
decreasing_by
  · simp
    omega
  · simp
    omega
  · simp
    omega
  · have := Compilation.sizeOf_nestedLines_le body
    simp only [Token.mk.sizeOf_spec]
    omega

/-- The branches of a choice by value. -/
def branches (layout : Layout) (lines : List Token) : PlaceM Unit :=
  match lines with
  | [] => return
  | token :: rest => do
    if token.kind = .whenControl ∨ token.kind = .defaultControl then statement layout token
    else throw ⟨.caseLine, token.span.start⟩
    branches layout rest
termination_by 2 * sizeOf lines + 1
decreasing_by all_goals simp <;> omega

/-- A line of markup and the lines nested in it. -/
def line (layout : Layout) (data : Token) (nested : List Token) : PlaceM Unit :=
  match data with
  | ⟨.tagLine, span, _, _, parts⟩ => tag layout true span.start parts nested
  | ⟨.textLine, _, text, _, []⟩ => do
    push text
    block layout true none nested
  | ⟨.textLine, _, _, _, parts⟩ | ⟨.pipedLine, _, _, _, parts⟩ => do
    pieces layout parts
    block layout true none nested
  | ⟨.commentLine, _, _, _, mark :: parts⟩ =>
    if mark.kind = .templateComment then return
    else do
      newline layout
      push "<!--"
      pieces layout parts
      block { layout with pretty := false } true none nested
      push "-->"
  | ⟨.dotLine, _, _, _, _⟩ => block layout false none nested
  | ⟨.outputLine, _, _, _, parts⟩ => do
    outputs fold parts
    block layout false none nested
  | ⟨.codeLine, _, _, _, parts⟩ | ⟨.codeBlock, _, _, _, parts⟩ => do
    statements fold parts
    block layout false none nested
  | ⟨.mixinCall, _, name, _, parts⟩ => do
    leaf layout.depth (.mixinCall name (parts.findSome? Token.expr))
    block layout false none nested
  | _ => return
termination_by 2 * (sizeOf data + sizeOf nested) + 1
decreasing_by all_goals simp <;> omega

/-- Text with outputs and tags in it. -/
def pieces (layout : Layout) (parts : List Token) : PlaceM Unit :=
  match parts with
  | [] => return
  | ⟨.plainText, _, text, _, _⟩ :: rest => do
    push text
    pieces layout rest
  | ⟨.tagLine, span, _, _, inner⟩ :: rest => do
    tag layout false span.start inner []
    pieces layout rest
  | part :: rest => do
    if part.kind = .escapedOutput ∨ part.kind = .rawOutput then outputs fold [part]
    pieces layout rest
termination_by 2 * sizeOf parts + 1
decreasing_by all_goals simp <;> omega

/-- A tag: its name and its other parts, and what is nested in it. A tag inside of text does
not begin a line. -/
def tag (layout : Layout) (ownLine : Bool) (offset : Nat) (parts nested : List Token) : PlaceM Unit := do
  let name := tagName parts
  let breaks := ownLine && layout.pretty && !Markup.isInline name
  if breaks then newline layout
  push ("<" ++ name)
  push (shorthand parts)
  parts.forM (attributes fold)
  if Markup.isVoid name || parts.any (·.kind == .trailingSlash) then
    push "/>"
    if !nested.isEmpty then throw ⟨.nestedInVoid, offset⟩
  else
    push ">"
    pieces layout parts.tail
    let before := (← get).breaks
    block { layout with depth := layout.depth + 1 } false none nested
    if breaks && before < (← get).breaks then newline layout
    push ("</" ++ name ++ ">")
termination_by 2 * (sizeOf parts + sizeOf nested) + 1
decreasing_by
  all_goals
    have := Compilation.sizeOf_tail_le parts
    have := Compilation.sizeOf_lines_pos parts
    have := Compilation.sizeOf_lines_pos nested
    omega

end

end Placing

namespace ChunkTree

/-- The list of the chunks of a template. -/
def compile (fold : Expr → Option Value) (pretty : Bool) (root : Token) : Except StructureError ChunkTree := do
  let walk := do
    Placing.block fold { pretty, depth := 0 } false none root.children
    Placing.flush
  let (_, placing) ← walk.run Placing.start
  return { cells := placing.cells, includes := placing.includes }

/-- The list of the chunks of the template of a source, with all constants folded. -/
def ofSource (options : TemplateOptions) (source : List Char) : Except TemplateError ChunkTree :=
  match Token.ofSource source with
  | .error error => .error (.lexical error)
  | .ok root =>
    match compile Expr.constant? options.pretty root with
    | .error error => .error (.structural error)
    | .ok tree => .ok tree

end ChunkTree

end HtmlTemplate
