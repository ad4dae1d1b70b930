import HtmlTemplate.Expr.Basic
import HtmlTemplate.Text.Input

/-! The parts of a template as they were written: lines with the lines nested in them, and
the parts of each line. -/

namespace HtmlTemplate

inductive TokenKind where
  | root
  /-- A line of markup. What is on the line comes first, then the lines nested in it. -/
  | line
  | tagLine
  | textLine
  | pipedLine
  | commentLine
  | dotLine
  | outputLine
  | codeLine
  | codeBlock
  | plainText
  | tag
  | classNote
  | idNote
  | attributeList
  | attributeExpr
  | trailingSlash
  | trailingDot
  | trailingOutput
  | trailingRawOutput
  | escapedPair
  | rawPair
  | attributeName
  | attributeValue
  | htmlComment
  | templateComment
  | pipeMark
  | escapedOutput
  | rawOutput
  | code
  | ifControl
  | unlessControl
  | elseIfControl
  | elseControl
  | caseControl
  | whenControl
  | defaultControl
  | eachControl
  | eachPairControl
  | eachVariable
  | whileControl
  | mixinControl
  | mixinCall
  | mixinArguments
  | includeTarget
  | doctype
  deriving DecidableEq, Repr

namespace TokenKind

/-- The name of a kind in dumps. -/
def label : TokenKind → String
  | root => "Root"
  | line => "Line"
  | tagLine => "LineData"
  | textLine => "LinePlainText"
  | pipedLine => "LinePiped"
  | commentLine => "LineComment"
  | dotLine => "LineDot"
  | outputLine => "LineOut"
  | codeLine => "LineCode"
  | codeBlock => "LineCodeBlock"
  | plainText => "PlainText"
  | tag => "Tag"
  | classNote => "TagClassNote"
  | idNote => "TagIdNote"
  | attributeList => "TagAttrList"
  | attributeExpr => "TagAttrExpr"
  | trailingSlash => "TagTrailingSlash"
  | trailingDot => "TagTrailingDot"
  | trailingOutput => "TagTrailingEq"
  | trailingRawOutput => "TagTrailingNEq"
  | escapedPair => "AttrPairEscaped"
  | rawPair => "AttrPairUnescaped"
  | attributeName => "AttrName"
  | attributeValue => "AttrValue"
  | htmlComment => "CommentHtml"
  | templateComment => "CommentTemplate"
  | pipeMark => "PipeMark"
  | escapedOutput => "OutputEscaped"
  | rawOutput => "OutputUnescaped"
  | code => "Code"
  | ifControl => "ControlIf"
  | unlessControl => "ControlUnless"
  | elseIfControl => "ControlElseIf"
  | elseControl => "ControlElse"
  | caseControl => "ControlCase"
  | whenControl => "ControlWhen"
  | defaultControl => "ControlDefault"
  | eachControl => "ControlEach"
  | eachPairControl => "ControlEachPair"
  | eachVariable => "ControlEachVariable"
  | whileControl => "ControlWhile"
  | mixinControl => "ControlMixin"
  | mixinCall => "MixinCall"
  | mixinArguments => "MixinArgs"
  | includeTarget => "Include"
  | doctype => "Doctype"

/-- Kinds of lines in which every nested line is text. -/
def nestsText : TokenKind → Bool
  | commentLine | dotLine | textLine => true
  | _ => false

end TokenKind

/-- A part of a template: where it stands in the source, what is written there, the
expression in it if it has one, and the parts it consists of. -/
structure Token where
  kind : TokenKind
  span : Span
  text : String
  expr : Option Expr
  children : List Token

namespace Token

/-- The part between two places of the source. -/
def between (kind : TokenKind) (start stop : Input) : Token :=
  { kind, span := ⟨start.pos, stop.pos⟩, text := String.ofList (start.textTo stop.pos),
    expr := none, children := [] }

/-- A part that takes no room. -/
def mark (kind : TokenKind) (place : Input) : Token := between kind place place

def withChildren (token : Token) (children : List Token) : Token := { token with children }

/-- Adds parts after those that a part consists of already. -/
def addChildren (token : Token) (children : List Token) : Token :=
  { token with children := token.children ++ children }

/-- Whether the lines nested in a line are text: after a comment, a lone dot or other text,
and after a tag that ends in a dot. -/
def nestsText (line : Token) : Bool :=
  match line.kind, line.children with
  | .line, data :: _ =>
    data.kind.nestsText ||
      (data.kind == .tagLine && data.children.getLast?.any (·.kind == .trailingDot))
  | _, _ => false

/-- The row of a part in a dump. -/
def row (token : Token) (depth : Nat) : String :=
  let indent := String.ofList (List.replicate (2 * depth) ' ')
  let text :=
    if token.kind = .root ∨ token.span.isEmpty then "" else " " ++ Quoted.dump token.text
  indent ++ token.kind.label ++ text ++ (token.expr.elim "" fun expr => " " ++ expr.dump) ++ "\n"

mutual

/-- One row for each part, indented by its depth. -/
def describeAt (depth : Nat) : Token → String
  | ⟨kind, span, text, expr, children⟩ =>
    row ⟨kind, span, text, expr, []⟩ depth ++ describeAll (depth + 1) children

def describeAll (depth : Nat) : List Token → String
  | [] => ""
  | token :: rest => describeAt depth token ++ describeAll depth rest

end

def describe (token : Token) : String := describeAt 0 token

end Token

end HtmlTemplate
