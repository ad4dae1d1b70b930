import Mathlib.Data.List.Forall2
import HtmlTemplate.Template.Compilation

/-! Trees of parts that are the same to whoever compiles them: their places may differ, and what they
have in texts, but not the names that stand in them. -/

namespace HtmlTemplate

namespace TokenKind

/-- Whether the text of a part of a kind is a name. -/
def isName : TokenKind → Bool
  | tag | classNote | idNote | eachVariable | mixinCall | includeTarget | doctype => true
  | _ => false

/-- Whether the text of a part is put out as it is: text among other parts, or a whole line of it. -/
def isText : TokenKind → List Token → Bool
  | plainText, _ | textLine, [] => true
  | _, _ => false

end TokenKind

namespace Compilation

/-- The name of a pair in an attribute list. -/
def pairName (token : Token) : String :=
  (token.children.head?.map fun name => String.join (name.children.map Token.text)).getD ""

/-- Whether a tag begins a line in pretty output. -/
def breaking (ownLine : Bool) (layout : Layout) (name : String) : Bool :=
  ownLine && layout.pretty && !Markup.isInline name

/-- What comes before the name of a tag. -/
def opening (ownLine : Bool) (layout : Layout) (name : String) : BuildM Unit :=
  if breaking ownLine layout name then Builder.newline layout else return

/-- What separates a line of text from the line before it. -/
def parting (layout : Layout) (afterText : Bool) : BuildM Unit :=
  if layout.pretty then Builder.newline layout else if afterText then Builder.push "\n" else return

/-- What is nested in a tag, and the end of the tag, which begins a line if there have been lines
before it. -/
def nesting (breaks : Bool) (layout : Layout) (body : BuildM Unit) (ending : String) : BuildM Unit := do
  let before := (← get).breaks
  body
  if breaks && before < (← get).breaks then Builder.newline layout
  Builder.push ending

section

variable (fold : Expr → Option Value)

theorem tag_eq (layout : Layout) (ownLine : Bool) (offset : Nat) (parts nested : List Token) :
    tag fold layout ownLine offset parts nested = (do
      opening ownLine layout (tagName parts)
      Builder.push ("<" ++ tagName parts)
      Builder.push (shorthand parts)
      parts.forM (attributes fold)
      if Markup.isVoid (tagName parts) || parts.any (·.kind == .trailingSlash) then
        Builder.push "/>"
        if !nested.isEmpty then throw ⟨.nestedInVoid, offset⟩
      else
        Builder.push ">"
        pieces fold layout parts.tail
        nesting (breaking ownLine layout (tagName parts)) layout
          (block fold { layout with depth := layout.depth + 1 } false none nested)
          ("</" ++ tagName parts ++ ">")) := by
  unfold tag opening breaking
  dsimp only
  split <;> rfl

theorem block_nil (layout : Layout) (afterText : Bool) (previous : Option TokenKind) :
    block fold layout afterText previous [] = pure () := by
  unfold block
  rfl

theorem block_cons (layout : Layout) (afterText : Bool) (previous : Option TokenKind) (token : Token)
    (rest : List Token) :
    block fold layout afterText previous (token :: rest) =
      (match misplaced? previous token.kind with
      | some fault => throw ⟨fault, token.span.start⟩
      | none => do
        if isTextLine token then parting layout afterText
        statement fold layout token
        block fold layout (isTextLine token) (some token.kind) rest) := by
  conv =>
    lhs
    unfold block
  cases misplaced? previous token.kind with
  | some fault => rfl
  | none =>
    unfold parting
    dsimp only
    split
    · split
      · rfl
      · split <;> rfl
    · rfl

end

end Compilation

namespace Token

open Compilation

/-- Parts that agree in their kinds, their expressions and the names in them, and whose texts and
places correspond. -/
inductive Like (spans : Span → Span → Prop) (texts : String → String → Prop) : Token → Token → Prop where
  | intro {kind : TokenKind} {span twin : Span} {text other : String} {expr : Option Expr}
      {children others : List Token} (placed : spans span twin)
      (named : kind.isName = true → other = text) (written : kind.isText children = true → texts text other)
      (tagged : kind = .tagLine → tagName others = tagName children)
      (listed : kind = .attributeList → others.map pairName = children.map pairName)
      (inner : List.Forall₂ (Like spans texts) children others) :
      Like spans texts ⟨kind, span, text, expr, children⟩ ⟨kind, twin, other, expr, others⟩

namespace Like

variable {spans : Span → Span → Prop} {texts : String → String → Prop} {token twin : Token}
  {parts others : List Token}

theorem kind (like : Like spans texts token twin) : twin.kind = token.kind := by
  cases like
  rfl

theorem expr (like : Like spans texts token twin) : twin.expr = token.expr := by
  cases like
  rfl

theorem placed (like : Like spans texts token twin) : spans token.span twin.span := by
  cases like
  assumption

theorem children (like : Like spans texts token twin) :
    List.Forall₂ (Like spans texts) token.children twin.children := by
  cases like
  assumption

theorem named (like : Like spans texts token twin) (name : token.kind.isName = true) :
    twin.text = token.text := by
  cases like with
  | intro placed named => exact named name

theorem written (like : Like spans texts token twin) (text : token.kind.isText token.children = true) :
    texts token.text twin.text := by
  cases like with
  | intro placed named written => exact written text

mutual

/-- Every tree is like itself. -/
theorem refl (spans_refl : ∀ span, spans span span) (texts_refl : ∀ text, texts text text)
    (token : Token) : Like spans texts token token := by
  obtain ⟨kind, span, text, expr, children⟩ := token
  exact .intro (spans_refl span) (fun _ => rfl) (fun _ => texts_refl text) (fun _ => rfl) (fun _ => rfl)
    (refl_all spans_refl texts_refl children)

theorem refl_all (spans_refl : ∀ span, spans span span) (texts_refl : ∀ text, texts text text)
    (tokens : List Token) : List.Forall₂ (Like spans texts) tokens tokens := by
  cases tokens with
  | nil => exact .nil
  | cons token rest =>
    exact .cons (refl spans_refl texts_refl token) (refl_all spans_refl texts_refl rest)

end

/-! What is taken from some parts. -/

theorem any_kind (like : List.Forall₂ (Like spans texts) parts others) (holds : TokenKind → Bool) :
    (others.any fun part => holds part.kind) = parts.any fun part => holds part.kind := by
  induction like with
  | nil => rfl
  | cons first _ step => rw [List.any_cons, List.any_cons, first.kind, step]

/-- The names of one kind among some parts. -/
theorem named_texts (like : List.Forall₂ (Like spans texts) parts others) {kind : TokenKind}
    (name : kind.isName = true) :
    (others.filter (·.kind == kind)).map Token.text = (parts.filter (·.kind == kind)).map Token.text := by
  induction like with
  | nil => rfl
  | @cons token twin _ _ first _ step =>
    rw [List.filter_cons, List.filter_cons, first.kind]
    split
    · rename_i same
      have named : token.kind.isName = true := by rwa [eq_of_beq same]
      rw [List.map_cons, List.map_cons, step, first.named named]
    · exact step

theorem shorthand (like : List.Forall₂ (Like spans texts) parts others) :
    Compilation.shorthand others = Compilation.shorthand parts := by
  unfold Compilation.shorthand
  have ids := named_texts like (show TokenKind.idNote.isName = true from rfl)
  have classes := named_texts like (show TokenKind.classNote.isName = true from rfl)
  simp only [ids, classes]

theorem loopNames (like : List.Forall₂ (Like spans texts) parts others) :
    Compilation.loopNames others = Compilation.loopNames parts := by
  unfold Compilation.loopNames
  induction like with
  | nil => rfl
  | @cons token twin _ _ first _ step =>
    rw [List.takeWhile_cons, List.takeWhile_cons, first.kind]
    split
    · rename_i same
      have named : token.kind.isName = true := by rw [eq_of_beq same]; rfl
      rw [List.map_cons, List.map_cons, step, first.named named]
    · rfl

theorem nestedLines (like : List.Forall₂ (Like spans texts) parts others) :
    List.Forall₂ (Like spans texts) (Compilation.nestedLines parts) (Compilation.nestedLines others) := by
  unfold Compilation.nestedLines
  induction like with
  | nil => exact .nil
  | cons first further step =>
    rw [List.dropWhile_cons, List.dropWhile_cons, first.kind]
    split
    · exact step
    · exact .cons first further

/-- The first expression among some parts. -/
theorem firstExpr (like : List.Forall₂ (Like spans texts) parts others) :
    others.findSome? Token.expr = parts.findSome? Token.expr := by
  induction like with
  | nil => rfl
  | cons first _ step => rw [List.findSome?_cons, List.findSome?_cons, first.expr, step]

theorem tail (like : List.Forall₂ (Like spans texts) parts others) :
    List.Forall₂ (Like spans texts) parts.tail others.tail := by
  cases like with
  | nil => exact .nil
  | cons _ further => exact further

theorem isEmpty (like : List.Forall₂ (Like spans texts) parts others) :
    others.isEmpty = parts.isEmpty := by
  cases like <;> rfl

theorem isTextLine (like : Like spans texts token twin) :
    Compilation.isTextLine twin = Compilation.isTextLine token := by
  have alike := like.children
  unfold Compilation.isTextLine
  rw [like.kind]
  generalize token.children = parts at alike
  generalize twin.children = others at alike
  cases alike with
  | nil => rfl
  | cons first => simp only [List.head?_cons, Option.any_some, first.kind]

theorem control? (like : Like spans texts token twin) :
    Compilation.control? twin = Compilation.control? token := by
  unfold Compilation.control?
  rw [like.kind, like.expr, loopNames like.children]

end Like

end Token

end HtmlTemplate
