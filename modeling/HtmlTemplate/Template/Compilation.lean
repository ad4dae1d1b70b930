import HtmlTemplate.Template.Builder
import HtmlTemplate.Text.CharClass
import HtmlTemplate.Token.Basic
import HtmlTemplate.Value.Printing

/-! From the parts of a template to its chunks. Values of expressions that are known already become text, and
what is written anyway is put together from the tables of the markup. -/

namespace HtmlTemplate

/-! Tables. -/

namespace Markup

/-- Elements that have no content. -/
def voidTags : List String :=
  ["area", "base", "br", "col", "command", "embed", "hr", "img", "input", "keygen", "link",
    "meta", "param", "source", "track", "wbr"]

/-- Elements that have no line of their own in pretty output. -/
def inlineTags : List String :=
  ["a", "abbr", "acronym", "b", "br", "code", "em", "font", "i", "img", "ins", "kbd", "map",
    "samp", "small", "span", "strong", "sub", "sup"]

def isVoid (name : String) : Bool := voidTags.contains name

def isInline (name : String) : Bool := inlineTags.contains name

/-- Document types that are known by a short name. -/
def doctypes : List (String × String) :=
  [("", "<!DOCTYPE html>"), ("html", "<!DOCTYPE html>"), ("5", "<!DOCTYPE html>"),
    ("xml", "<?xml version=\"1.0\" encoding=\"utf-8\" ?>"),
    ("transitional", "<!DOCTYPE html PUBLIC \"-//W3C//DTD XHTML 1.0 Transitional//EN\" \"http://www.w3.org/TR/xhtml1/DTD/xhtml1-transitional.dtd\">"),
    ("strict", "<!DOCTYPE html PUBLIC \"-//W3C//DTD XHTML 1.0 Strict//EN\" \"http://www.w3.org/TR/xhtml1/DTD/xhtml1-strict.dtd\">"),
    ("frameset", "<!DOCTYPE html PUBLIC \"-//W3C//DTD XHTML 1.0 Frameset//EN\" \"http://www.w3.org/TR/xhtml1/DTD/xhtml1-frameset.dtd\">"),
    ("1.1", "<!DOCTYPE html PUBLIC \"-//W3C//DTD XHTML 1.1//EN\" \"http://www.w3.org/TR/xhtml11/DTD/xhtml11.dtd\">"),
    ("basic", "<!DOCTYPE html PUBLIC \"-//W3C//DTD XHTML Basic 1.1//EN\" \"http://www.w3.org/TR/xhtml-basic/xhtml-basic11.dtd\">"),
    ("mobile", "<!DOCTYPE html PUBLIC \"-//WAPFORUM//DTD XHTML Mobile 1.2//EN\" \"http://www.openmobilealliance.org/tech/DTD/xhtml-mobile12.dtd\">"),
    ("plist", "<!DOCTYPE plist PUBLIC \"-//Apple//DTD PLIST 1.0//EN\" \"http://www.apple.com/DTDs/PropertyList-1.0.dtd\">")]

/-- A document type, by its short name or as it is written. -/
def doctype (name : String) : String :=
  (doctypes.lookup name).getD ("<!DOCTYPE " ++ name ++ ">")

end Markup

/-! Building chunks. -/

namespace Compilation

open Builder

variable (fold : Expr → Option Value)

/-- One element of an output. Whether a known text is escaped is decided in a run, so it is
kept apart if escaping would change it. -/
def outputItem (escape : Bool) (expr : Expr) : BuildM Unit :=
  match fold expr with
  | none => emit (.output escape expr)
  | some value =>
    if escape && value.output true != value.printed then emit (.escapable value.printed)
    else push value.printed

/-- An output prints the elements of its expression one after the other. -/
def output (escape : Bool) (expr : Expr) : BuildM Unit :=
  expr.sequence.forM (outputItem fold escape)

/-- The outputs among some parts. -/
def outputs (parts : List Token) : BuildM Unit :=
  parts.forM fun part => (part.expr).forM (output fold (part.kind == .escapedOutput))

/-- A statement of code; the value of one that has a value already is not needed. -/
def code (expr : Expr) : BuildM Unit :=
  if (fold expr).isNone then emit (.code expr) else return

def statements (parts : List Token) : BuildM Unit :=
  parts.forM fun part => (part.expr).forM (code fold)

def attr (escape : Bool) (name : String) (value : Option Expr) : BuildM Unit :=
  match value with
  | none => do
    push " "
    push name
  | some expr =>
    match fold expr with
    | some value => push (value.attributeMarkup name escape)
    | none => emit (.attr escape name expr)

/-- A pair of an attribute list. The name may be written in several pieces. -/
def pair (token : Token) : BuildM Unit :=
  let name := (token.children.head?.map fun name =>
    String.join (name.children.map Token.text)).getD ""
  attr fold (token.kind == .escapedPair) name (token.children[1]? >>= Token.expr)

/-- The attributes that a part of a tag gives. -/
def attributes (part : Token) : BuildM Unit :=
  match part.kind with
  | .attributeList => part.children.forM (pair fold)
  | .attributeExpr => (part.expr).forM fun expr => emit (.attrs expr)
  | _ => return

/-- The id and the classes that are written as notes: the last id, and all classes. -/
def shorthand (parts : List Token) : String :=
  let texts (kind : TokenKind) := (parts.filter (·.kind == kind)).map Token.text
  let id := ((texts .idNote).getLast?.map fun id => " id=\"" ++ Entities.escape id ++ "\"").getD ""
  let classes := texts .classNote
  if classes.isEmpty then id
  else id ++ " class=\"" ++ Entities.escape (" ".intercalate classes) ++ "\""

/-- The name of a tag, or the name that tags without one have. -/
def tagName (parts : List Token) : String :=
  match parts.head?.map Token.text with
  | none | some "" => "div"
  | some name => name

/-- Whether a line is text. -/
def isTextLine (token : Token) : Bool :=
  token.kind == .line &&
    token.children.head?.any fun data => data.kind == .textLine || data.kind == .pipedLine

/-- A line that goes with the line before it must come after one that it can go with. -/
def misplaced? (previous : Option TokenKind) (kind : TokenKind) : Option StructureFault :=
  let follows (kinds : List TokenKind) : Bool := previous.any kinds.contains
  match kind with
  | .elseIfControl => if follows [.ifControl, .elseIfControl] then none else some .strayElseIf
  | .elseControl =>
    if follows [.ifControl, .unlessControl, .elseIfControl, .eachControl, .eachPairControl] then
      none
    else some .strayElse
  | .whenControl => some .strayWhen
  | .defaultControl => some .strayDefault
  | _ => none

/-- The lines nested in a statement, without the variables of a loop. -/
def nestedLines (children : List Token) : List Token :=
  children.dropWhile (·.kind == .eachVariable)

/-- The variables of a loop. -/
def loopNames (children : List Token) : List String :=
  (children.takeWhile (·.kind == .eachVariable)).map Token.text

/-- How the chunk of a statement is made from its body. -/
def control? (token : Token) : Option (List Chunk → Chunk) :=
  match token.kind, token.expr with
  | .ifControl, some guard => some (.ifBlock guard)
  | .unlessControl, some guard => some (.unlessBlock guard)
  | .elseIfControl, some guard => some (.elseIfBlock guard)
  | .elseControl, _ => some .elseBlock
  | .whenControl, some value => some (.whenBlock value)
  | .defaultControl, _ => some .defaultBlock
  | .eachControl, some source | .eachPairControl, some source =>
    let names := loopNames token.children
    some (.eachBlock (names.head?.getD "") names[1]? source)
  | .whileControl, some guard => some (.whileBlock guard)
  | _, _ => none

theorem sizeOf_nestedLines_le (children : List Token) :
    sizeOf (nestedLines children) ≤ sizeOf children := by
  induction children with
  | nil => simp [nestedLines]
  | cons first rest step =>
    simp only [nestedLines, List.dropWhile] at *
    split
    · simp only [List.cons.sizeOf_spec]
      omega
    · simp

theorem sizeOf_lines_pos (lines : List Token) : 0 < sizeOf lines :=
  Nat.pos_of_ne_zero (by cases lines <;> simp)

theorem sizeOf_tail_le (lines : List Token) : sizeOf lines.tail ≤ sizeOf lines := by
  cases lines <;> simp

mutual

/-- Some lines one after the other. `previous` is the kind of the line before them, and
`afterText` tells whether that line was text, to which text is joined with a line break. -/
def block (layout : Layout) (afterText : Bool) (previous : Option TokenKind)
    (lines : List Token) : BuildM Unit :=
  match lines with
  | [] => return
  | token :: rest => do
    match misplaced? previous token.kind with
    | some fault => throw ⟨fault, token.span.start⟩
    | none => pure ()
    let isText := isTextLine token
    if isText then
      if layout.pretty then newline layout else if afterText then push "\n"
    statement layout token
    block layout isText (some token.kind) rest
termination_by 2 * sizeOf lines + 1
decreasing_by all_goals simp <;> omega

def statement (layout : Layout) (token : Token) : BuildM Unit :=
  match token with
  | ⟨.line, _, _, _, data :: nested⟩ => line layout data nested
  | ⟨.includeTarget, _, text, _, _⟩ => do
    let name := Blank.trim text
    noteInclude name
    newline layout
    emit (.includeTemplate name layout.depth)
  | ⟨.doctype, _, text, _, _⟩ => push (Markup.doctype (Blank.trim text))
  | ⟨.mixinControl, span, _, some signature, body⟩ =>
    match signature.definedName? with
    | none => throw ⟨.mixinName, span.start⟩
    | some name => do emit (.mixin name signature (← enclosed (block layout false none body)))
  | ⟨.caseControl, _, _, some subject, body⟩ => do
    emit (.caseBlock subject (← enclosed (branches layout body)))
  | ⟨kind, span, text, expr, body⟩ =>
    match control? ⟨kind, span, text, expr, body⟩ with
    | none => return
    | some chunk => do
      emit (chunk (← enclosed (block layout false none (nestedLines body))))
termination_by 2 * sizeOf token
decreasing_by
  · simp
    omega
  · simp
    omega
  · simp
    omega
  · have := sizeOf_nestedLines_le body
    simp only [Token.mk.sizeOf_spec]
    omega

/-- The branches of a choice by value. -/
def branches (layout : Layout) (lines : List Token) : BuildM Unit :=
  match lines with
  | [] => return
  | token :: rest => do
    if token.kind = .whenControl ∨ token.kind = .defaultControl then statement layout token
    else throw ⟨.caseLine, token.span.start⟩
    branches layout rest
termination_by 2 * sizeOf lines + 1
decreasing_by all_goals simp <;> omega

/-- A line of markup and the lines nested in it. -/
def line (layout : Layout) (data : Token) (nested : List Token) : BuildM Unit :=
  match data with
  | ⟨.tagLine, span, _, _, parts⟩ => tag layout true span.start parts nested
  | ⟨.textLine, _, text, _, []⟩ => do
    push text
    block layout true none nested
  | ⟨.textLine, _, _, _, parts⟩ | ⟨.pipedLine, _, _, _, parts⟩ => do
    pieces layout parts
    block layout true none nested
  | ⟨.commentLine, _, _, _, mark :: parts⟩ =>
    if mark.kind = .templateComment then return
    else do
      newline layout
      push "<!--"
      pieces layout parts
      block { layout with pretty := false } true none nested
      push "-->"
  | ⟨.dotLine, _, _, _, _⟩ => block layout false none nested
  | ⟨.outputLine, _, _, _, parts⟩ => do
    outputs fold parts
    block layout false none nested
  | ⟨.codeLine, _, _, _, parts⟩ | ⟨.codeBlock, _, _, _, parts⟩ => do
    statements fold parts
    block layout false none nested
  | ⟨.mixinCall, _, name, _, parts⟩ => do
    emit (.mixinCall name (parts.findSome? Token.expr))
    block layout false none nested
  | _ => return
termination_by 2 * (sizeOf data + sizeOf nested) + 1
decreasing_by all_goals simp <;> omega

/-- Text with outputs and tags in it. -/
def pieces (layout : Layout) (parts : List Token) : BuildM Unit :=
  match parts with
  | [] => return
  | ⟨.plainText, _, text, _, _⟩ :: rest => do
    push text
    pieces layout rest
  | ⟨.tagLine, span, _, _, inner⟩ :: rest => do
    tag layout false span.start inner []
    pieces layout rest
  | part :: rest => do
    if part.kind = .escapedOutput ∨ part.kind = .rawOutput then outputs fold [part]
    pieces layout rest
termination_by 2 * sizeOf parts + 1
decreasing_by all_goals simp <;> omega

/-- A tag: its name and its other parts, and what is nested in it. A tag inside of text does
not begin a line. -/
def tag (layout : Layout) (ownLine : Bool) (offset : Nat) (parts nested : List Token) :
    BuildM Unit := do
  let name := tagName parts
  let breaks := ownLine && layout.pretty && !Markup.isInline name
  if breaks then newline layout
  push ("<" ++ name)
  push (shorthand parts)
  parts.forM (attributes fold)
  if Markup.isVoid name || parts.any (·.kind == .trailingSlash) then
    push "/>"
    if !nested.isEmpty then throw ⟨.nestedInVoid, offset⟩
  else
    push ">"
    pieces layout parts.tail
    let before := (← get).breaks
    block { layout with depth := layout.depth + 1 } false none nested
    if breaks && before < (← get).breaks then newline layout
    push ("</" ++ name ++ ">")
termination_by 2 * (sizeOf parts + sizeOf nested) + 1
decreasing_by
  all_goals
    have := sizeOf_tail_le parts
    have := sizeOf_lines_pos parts
    have := sizeOf_lines_pos nested
    omega

end

/-- The chunks of a template and the names that it includes. -/
def compile (pretty : Bool) (root : Token) : Except StructureError (List Chunk × List String) := do
  let walk := do
    block fold { pretty, depth := 0 } false none root.children
    flush
  let (_, builder) ← walk.run Builder.empty
  return (builder.emitted.reverse, builder.includes)

end Compilation

end HtmlTemplate
