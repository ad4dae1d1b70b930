import HtmlTemplate.Proofs.Building.Likeness
import HtmlTemplate.Proofs.Content.Shapes

/-! What a template is written for, its texts, outputs and code, and where it is in the chunks. -/

namespace HtmlTemplate

namespace Token

/-- Whether a line begins a comment that only the template shows. -/
def hides (data : Token) : Bool :=
  data.kind == .commentLine && data.children.head?.any (·.kind == .templateComment)

/-- Whether what is in a part is not meant to be put out: the pieces of the name of an attribute, and
everything in a comment that only the template shows. -/
def isHidden (token : Token) : Bool :=
  match token.kind, token.children with
  | .attributeName, _ => true
  | .line, data :: _ => data.hides
  | _, _ => false

/-- Whether what is in a part is not looked at: what stands in a tag that has no content, and the lines
nested in the name of another document or of a document type. -/
def isClosed (token : Token) : Bool :=
  match token.kind with
  | .tagLine => Markup.isVoid (Compilation.tagName token.children) ||
      token.children.any (·.kind == .trailingSlash)
  | .includeTarget | .doctype => true
  | _ => false

mutual

/-- The authored parts of a tree in their order, without those in parts that are skipped. -/
def gather (skips : Token → Bool) : Token → List Token
  | ⟨kind, span, text, expr, children⟩ =>
    if skips ⟨kind, span, text, expr, children⟩ then []
    else (if kind.isAuthored then [⟨kind, span, text, expr, children⟩] else []) ++ gatherAll skips children

def gatherAll (skips : Token → Bool) : List Token → List Token
  | [] => []
  | token :: rest => gather skips token ++ gatherAll skips rest

end

/-- All authored parts. -/
def authored (token : Token) : List Token := token.gather isHidden

/-- Whether the authored parts in a part are not compiled. -/
def isSkipped (token : Token) : Bool := token.isHidden || token.isClosed

/-- The authored parts that are looked at. -/
def kept (token : Token) : List Token := token.gather isSkipped

mutual

/-- The authored parts that are in parts that are not looked at. -/
def lost : Token → List Token
  | ⟨kind, span, text, expr, children⟩ =>
    if isHidden ⟨kind, span, text, expr, children⟩ then []
    else if isClosed ⟨kind, span, text, expr, children⟩ then
      gatherAll isHidden children
    else lostAll children

def lostAll : List Token → List Token
  | [] => []
  | token :: rest => lost token ++ lostAll rest

end

/-- A part of a tree, or the tree itself. -/
inductive Within (root : Token) : Token → Prop where
  | root : Within root root
  | part {token part : Token} (within : Within root token) (member : part ∈ token.children) :
      Within root part

theorem gather_eq (skips : Token → Bool) (token : Token) :
    token.gather skips = if skips token then []
      else (if token.kind.isAuthored then [token] else []) ++ gatherAll skips token.children := by
  obtain ⟨kind, span, text, expr, children⟩ := token
  rw [gather]

theorem lost_eq (token : Token) :
    token.lost = if token.isHidden then []
      else if token.isClosed then gatherAll isHidden token.children else lostAll token.children := by
  obtain ⟨kind, span, text, expr, children⟩ := token
  rw [lost]

theorem gatherAll_eq (skips : Token → Bool) (parts : List Token) :
    gatherAll skips parts = parts.flatMap (gather skips) := by
  induction parts with
  | nil => rfl
  | cons part rest step => rw [gatherAll, step, List.flatMap_cons]

theorem gatherAll_eq_nil {skips : Token → Bool} {parts : List Token}
    (none : ∀ part ∈ parts, part.gather skips = []) : gatherAll skips parts = [] := by
  rw [gatherAll_eq]
  exact List.flatMap_eq_nil_iff.mpr none

/-- In a part that has nothing authored in it there is nothing to gather. -/
theorem Silent.gather {skips : Token → Bool} (named : ∀ part : Token, part.kind = .attributeName → skips part = true)
    {token : Token} (silent : Silent token) : token.gather skips = [] := by
  induction silent with
  | name is => rw [gather_eq, named _ is, if_pos rfl]
  | other quiet _ step =>
    rw [gather_eq, quiet, gatherAll_eq_nil step]
    split <;> rfl

theorem isAuthored_of_isClosed {token : Token} (closed : token.isClosed = true) :
    token.kind.isAuthored = false := by
  unfold isClosed at closed
  cases kind : token.kind with
  | plainText | escapedOutput | rawOutput | code =>
    rw [kind] at closed
    cases closed
  | _ => rfl

mutual

/-- What is looked at is part of what is authored, and the rest is lost. -/
theorem kept_and_lost (token : Token) : token.kept.Sublist token.authored ∧
    token.authored.length = token.kept.length + token.lost.length := by
  have inner := keptAll_and_lostAll token.children
  unfold kept authored
  rw [gather_eq, gather_eq, lost_eq]
  cases hidden : token.isHidden with
  | true => simp [isSkipped, hidden]
  | false =>
    cases closed : token.isClosed with
    | true => simp [isSkipped, hidden, closed, isAuthored_of_isClosed closed]
    | false =>
      simp only [isSkipped, hidden, closed, Bool.or_false, Bool.false_eq_true, if_false, List.length_append]
      exact ⟨(List.Sublist.refl _).append inner.1, by omega⟩
termination_by sizeOf token
decreasing_by
  obtain ⟨kind, span, text, expr, children⟩ := token
  simp only [Token.mk.sizeOf_spec]
  omega

theorem keptAll_and_lostAll (parts : List Token) :
    (gatherAll isSkipped parts).Sublist (gatherAll isHidden parts) ∧
      (gatherAll isHidden parts).length =
        (gatherAll isSkipped parts).length + (lostAll parts).length := by
  cases parts with
  | nil => exact ⟨.refl _, rfl⟩
  | cons part rest =>
    have first := kept_and_lost part
    have others := keptAll_and_lostAll rest
    unfold kept authored at first
    simp only [gatherAll, lostAll, List.length_append]
    exact ⟨first.1.append others.1, by omega⟩
termination_by sizeOf parts

end

/-- All that is authored is looked at just when nothing is lost. -/
theorem kept_eq_authored_iff (token : Token) : token.kept = token.authored ↔ token.lost = [] := by
  obtain ⟨some, all⟩ := kept_and_lost token
  rw [← List.length_eq_zero_iff]
  constructor
  · intro same
    rw [same] at all
    omega
  · intro none
    exact some.eq_of_length (by omega)

end Token

/-! Chunks in the order in which they are met. -/

/-- What is met when chunks are read from the first to the last. -/
inductive Atom where
  /-- A character of a text. -/
  | char (char : Char)
  /-- A chunk of another kind, without its body, which comes after it. -/
  | chunk (head : Chunk)
  /-- The end of a body. -/
  | close

namespace Atom

def chars (text : String) : List Atom := text.toList.map char

def body (head : Chunk) (inner : List Atom) : List Atom := chunk head :: (inner ++ [close])

theorem chars_append (first second : String) : chars (first ++ second) = chars first ++ chars second := by
  simp [chars]

end Atom

namespace Chunk

mutual

def atoms : Chunk → List Atom
  | .text content => Atom.chars content
  | .ifBlock guard body => Atom.body (.ifBlock guard []) (atomsAll body)
  | .unlessBlock guard body => Atom.body (.unlessBlock guard []) (atomsAll body)
  | .elseIfBlock guard body => Atom.body (.elseIfBlock guard []) (atomsAll body)
  | .elseBlock body => Atom.body (.elseBlock []) (atomsAll body)
  | .caseBlock subject branches => Atom.body (.caseBlock subject []) (atomsAll branches)
  | .whenBlock value body => Atom.body (.whenBlock value []) (atomsAll body)
  | .defaultBlock body => Atom.body (.defaultBlock []) (atomsAll body)
  | .eachBlock item key source body => Atom.body (.eachBlock item key source []) (atomsAll body)
  | .whileBlock guard body => Atom.body (.whileBlock guard []) (atomsAll body)
  | .mixin name signature body => Atom.body (.mixin name signature []) (atomsAll body)
  | chunk => [.chunk chunk]

def atomsAll : List Chunk → List Atom
  | [] => []
  | chunk :: rest => atoms chunk ++ atomsAll rest

end

theorem atomsAll_append (first second : List Chunk) :
    atomsAll (first ++ second) = atomsAll first ++ atomsAll second := by
  induction first with
  | nil => rfl
  | cons chunk first step => simp only [List.cons_append, atomsAll, step, List.append_assoc]

end Chunk

/-! What the parts of a template become. -/

/-- An element of an output becomes an output, or what its value is printed as. A text that escaping
would change stays apart, since whether to escape is only known in a run. -/
inductive Printed (fold : Expr → Option Value) (escape : Bool) (expr : Expr) : List Atom → Prop where
  | output (unknown : fold expr = none) : Printed fold escape expr [.chunk (.output escape expr)]
  | text {value : Value} (known : fold expr = some value)
      (same : escape = true → value.output true = value.printed) :
      Printed fold escape expr (Atom.chars value.printed)
  | escapable {value : Value} (known : fold expr = some value) (escapes : escape = true)
      (other : value.output true ≠ value.printed) :
      Printed fold escape expr [.chunk (.escapable value.printed)]

/-- What an authored part becomes. -/
inductive Becomes (fold : Expr → Option Value) : Token → List Atom → Prop where
  | text {token : Token} (is : token.kind = .plainText) : Becomes fold token (Atom.chars token.text)
  | output {token : Token} {expr : Expr} {atoms : List (List Atom)}
      (is : token.kind = .escapedOutput ∨ token.kind = .rawOutput) (states : token.expr = some expr)
      (each : List.Forall₂ (Printed fold (token.kind == .escapedOutput)) expr.sequence atoms) :
      Becomes fold token atoms.flatten
  | code {token : Token} {expr : Expr} (is : token.kind = .code) (states : token.expr = some expr)
      (unknown : fold expr = none) : Becomes fold token [.chunk (.code expr)]
  | folded {token : Token} {expr : Expr} {value : Value} (is : token.kind = .code)
      (states : token.expr = some expr) (known : fold expr = some value) : Becomes fold token []

/-- What is put out for a part that is not authored, apart from what is in it. -/
inductive Marks (fold : Expr → Option Value) : Token → List Atom → Prop where
  | lineBreak {token : Token} (depth : Nat) :
      Marks fold token (Atom.chars ("\n" ++ String.ofList (List.replicate depth '\t')))
  /-- A line that is left as it is. -/
  | raw {token : Token} (is : token.kind = .textLine) (leaf : token.children = []) :
      Marks fold token (Atom.chars token.text)
  | commentStart {token : Token} (is : token.kind = .commentLine) : Marks fold token (Atom.chars "<!--")
  | commentEnd {token : Token} (is : token.kind = .commentLine) : Marks fold token (Atom.chars "-->")
  | tagStart {token : Token} (is : token.kind = .tagLine) :
      Marks fold token (Atom.chars ("<" ++ Compilation.tagName token.children))
  | shorthand {token : Token} (is : token.kind = .tagLine) :
      Marks fold token (Atom.chars (Compilation.shorthand token.children))
  | tagClosed {token : Token} (is : token.kind = .tagLine) : Marks fold token (Atom.chars "/>")
  | tagOpen {token : Token} (is : token.kind = .tagLine) : Marks fold token (Atom.chars ">")
  | tagEnd {token : Token} (is : token.kind = .tagLine) :
      Marks fold token (Atom.chars ("</" ++ Compilation.tagName token.children ++ ">"))
  | attribute {token : Token} (is : token.kind = .escapedPair ∨ token.kind = .rawPair)
      (alone : (token.children[1]? >>= Token.expr) = none) :
      Marks fold token (Atom.chars (" " ++ Compilation.pairName token))
  | attributeKnown {token : Token} {expr : Expr} {value : Value}
      (is : token.kind = .escapedPair ∨ token.kind = .rawPair)
      (states : (token.children[1]? >>= Token.expr) = some expr) (known : fold expr = some value) :
      Marks fold token
        (Atom.chars (value.attributeMarkup (Compilation.pairName token) (token.kind == .escapedPair)))
  | attributeLeft {token : Token} {expr : Expr} (is : token.kind = .escapedPair ∨ token.kind = .rawPair)
      (states : (token.children[1]? >>= Token.expr) = some expr) (unknown : fold expr = none) :
      Marks fold token [.chunk (.attr (token.kind == .escapedPair) (Compilation.pairName token) expr)]
  | attributes {token : Token} {expr : Expr} (is : token.kind = .attributeExpr)
      (states : token.expr = some expr) : Marks fold token [.chunk (.attrs expr)]
  | call {token : Token} (is : token.kind = .mixinCall) :
      Marks fold token [.chunk (.mixinCall token.text (token.children.findSome? Token.expr))]
  | includes {token : Token} (is : token.kind = .includeTarget) (depth : Nat) :
      Marks fold token [.chunk (.includeTemplate (Blank.trim token.text) depth)]
  | doctype {token : Token} (is : token.kind = .doctype) :
      Marks fold token (Atom.chars (Markup.doctype (Blank.trim token.text)))
  /-- The beginning of a statement with a body. -/
  | opens {token : Token} {make : List Chunk → Chunk} (found : Compilation.control? token = some make) :
      Marks fold token [.chunk (make [])]
  | chooses {token : Token} {subject : Expr} (is : token.kind = .caseControl)
      (states : token.expr = some subject) : Marks fold token [.chunk (.caseBlock subject [])]
  | shares {token : Token} {signature : Expr} {name : String} (is : token.kind = .mixinControl)
      (states : token.expr = some signature) (named : signature.definedName? = some name) :
      Marks fold token [.chunk (.mixin name signature [])]
  | closes {token : Token} : Marks fold token [.close]

/-- What is met consists of what some authored parts of a tree become, each once and in this order, and
of markup between them. -/
def Accounts (fold : Expr → Option Value) (root : Token) (parts : List Token) (atoms : List Atom) : Prop :=
  ∃ items : List (Token × List Atom), atoms = items.flatMap Prod.snd ∧
    (items.map Prod.fst).filter (·.kind.isAuthored) = parts ∧
    ∀ item ∈ items, root.Within item.1 ∧
      if item.1.kind.isAuthored then Becomes fold item.1 item.2 else Marks fold item.1 item.2

namespace Accounts

variable {fold : Expr → Option Value} {root token : Token} {parts others : List Token}
  {atoms more : List Atom}

theorem nil : Accounts fold root [] [] := ⟨[], rfl, rfl, nofun⟩

theorem append (first : Accounts fold root parts atoms) (second : Accounts fold root others more) :
    Accounts fold root (parts ++ others) (atoms ++ more) := by
  obtain ⟨items, rfl, rfl, each⟩ := first
  obtain ⟨further, rfl, rfl, rest⟩ := second
  refine ⟨items ++ further, by simp, by simp, fun item member => ?_⟩
  rcases List.mem_append.mp member with member | member
  · exact each item member
  · exact rest item member

theorem becomes (within : root.Within token) (authored : token.kind.isAuthored = true)
    (becomes : Becomes fold token atoms) : Accounts fold root [token] atoms := by
  refine ⟨[(token, atoms)], by simp, by simp [authored], List.forall_mem_singleton.mpr ⟨within, ?_⟩⟩
  rw [if_pos authored]
  exact becomes

theorem marks (within : root.Within token) (quiet : token.kind.isAuthored = false)
    (marks : Marks fold token atoms) : Accounts fold root [] atoms := by
  refine ⟨[(token, atoms)], by simp, by simp [quiet], List.forall_mem_singleton.mpr ⟨within, ?_⟩⟩
  rw [if_neg (ne_true_of_eq_false quiet)]
  exact marks

end Accounts

end HtmlTemplate
