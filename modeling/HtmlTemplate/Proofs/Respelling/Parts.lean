import HtmlTemplate.Proofs.Building.Likeness
import HtmlTemplate.Proofs.Relocation.Expressions
import HtmlTemplate.Proofs.Respelling.Expressions
import HtmlTemplate.Token.Embedded

/-! Parts of lines in two texts that differ in blanks, and the expressions embedded in them. -/

namespace HtmlTemplate

namespace TokenKind

/-- Whether nothing but its expression and the parts it consists of is looked at in a part of a kind. -/
def isInert (kind : TokenKind) : Bool :=
  !kind.isName && kind != .plainText && kind != .textLine && kind != .tagLine && kind != .attributeList

theorem isText_of_isInert {kind : TokenKind} (inert : kind.isInert = true) (children : List Token) :
    kind.isText children = false := by
  cases kind <;> first | rfl | cases inert

theorem plain_of_isName {kind : TokenKind} (name : kind.isName = true) (children : List Token) :
    kind.isText children = false ∧ kind ≠ .tagLine ∧ kind ≠ .attributeList := by
  cases kind <;> first | exact ⟨rfl, by decide, by decide⟩ | cases name

theorem plain_of_isText {kind : TokenKind} {children : List Token} (text : kind.isText children = true) :
    kind.isName = false ∧ kind ≠ .tagLine ∧ kind ≠ .attributeList := by
  cases kind <;> first | exact ⟨rfl, by decide, by decide⟩ | cases text

end TokenKind

/-- No line ends in a text. -/
def Respelling.Flat (text : String) : Prop := ∀ char ∈ text.toList, CharClass.isLineEnd char = false

namespace Token

open Respelling

mutual

/-- Whether no quoted string and no quoted name spans lines. -/
def isUnbroken : Token → Bool
  | ⟨kind, _, text, expr, children⟩ =>
    (expr.isNone || decide (Unbroken text.toList)) &&
      (kind != .attributeName || text.toList.all fun char => !CharClass.isLineEnd char) && areUnbroken children

def areUnbroken : List Token → Bool
  | [] => true
  | token :: rest => isUnbroken token && areUnbroken rest

end

theorem areUnbroken_eq_all (tokens : List Token) : areUnbroken tokens = tokens.all isUnbroken := by
  induction tokens with
  | nil => rfl
  | cons token rest step => rw [areUnbroken, step, List.all_cons]

theorem isUnbroken_iff {token : Token} : token.isUnbroken = true ↔
    (token.expr.isSome = true → Unbroken token.text.toList) ∧ (token.kind = .attributeName → Flat token.text) ∧
      ∀ part ∈ token.children, part.isUnbroken = true := by
  obtain ⟨kind, span, text, expr, children⟩ := token
  rw [isUnbroken, areUnbroken_eq_all, Bool.and_eq_true, Bool.and_eq_true, List.all_eq_true, and_assoc]
  refine and_congr ?_ (and_congr ?_ Iff.rfl)
  · cases expr <;> simp
  · by_cases name : kind = .attributeName <;> simp [name, Flat]

end Token

namespace Respelling

open CharClass Compilation Quoting

/-- What is quoted in a text stays as it is. -/
def Spelling.Spares (spelling : Spelling) (text : String) : Prop := spelling.keeps ∨ Unbroken text.toList

/-- A name that is written as a text stays as it is. -/
def Spelling.SparesName (spelling : Spelling) (text : String) : Prop := spelling.keeps ∨ Flat text

/-- Two pairs have the same name, unless it spans lines. -/
def Titled (spelling : Spelling) (pair twin : Token) : Prop :=
  (∀ name ∈ pair.children, name.kind = .attributeName → spelling.SparesName name.text) → pairName twin = pairName pair

/-- Parts that agree in their kinds and in the names in them, and in their expressions unless a quoted
string spans lines in these. -/
inductive Akin (spelling : Spelling) : Token → Token → Prop where
  | intro {kind : TokenKind} {span twin : Span} {text other : String} {expr copy : Option Expr}
      {children others : List Token} (kept : spelling.keeps → other = text) (named : kind.isName = true → other = text)
      (written : kind.isText children = true → Agrees spelling.shows text other)
      (quoted : (expr.isSome = true → spelling.Spares text) → copy = expr)
      (tagged : kind = .tagLine → tagName others = tagName children)
      (listed : kind = .attributeList → List.Forall₂ (Titled spelling) children others)
      (inner : (kind = .attributeName → spelling.SparesName text) → List.Forall₂ (Akin spelling) children others) :
      Akin spelling ⟨kind, span, text, expr, children⟩ ⟨kind, twin, other, copy, others⟩

namespace Akin

variable {spelling : Spelling} {kind : TokenKind} {span twin : Span} {text other : String} {expr copy : Option Expr}
  {children others : List Token}

theorem kind_eq {token twin : Token} (akin : Akin spelling token twin) : twin.kind = token.kind := by
  cases akin
  rfl

theorem children_akin {token twin : Token} (akin : Akin spelling token twin) (other : token.kind ≠ .attributeName) :
    List.Forall₂ (Akin spelling) token.children twin.children := by
  cases akin with
  | intro _ _ _ _ _ _ inner => exact inner (absurd · other)

/-- A part in which nothing but the parts it consists of and its expression matters. -/
theorem stating (inert : kind.isInert = true) (kept : spelling.keeps → other = text)
    (quoted : (expr.isSome = true → spelling.Spares text) → copy = expr)
    (inner : List.Forall₂ (Akin spelling) children others) :
    Akin spelling ⟨kind, span, text, expr, children⟩ ⟨kind, twin, other, copy, others⟩ := by
  have words := TokenKind.isText_of_isInert inert children
  refine .intro kept (fun name => ?_) (fun text => ?_) quoted (fun tag => ?_) (fun list => ?_) fun _ => inner
  · rw [TokenKind.isInert, name] at inert
    cases inert
  · exact absurd (words.symm.trans text) Bool.false_ne_true
  · rw [tag] at inert
    cases inert
  · rw [list] at inert
    cases inert

/-- A part in which nothing but the parts it consists of matters. -/
theorem inert (inert : kind.isInert = true) (kept : spelling.keeps → other = text)
    (inner : List.Forall₂ (Akin spelling) children others) :
    Akin spelling ⟨kind, span, text, none, children⟩ ⟨kind, twin, other, none, others⟩ :=
  stating inert kept (fun _ => rfl) inner

/-- A name. -/
theorem name (is : kind.isName = true) (same : other = text) (inner : List.Forall₂ (Akin spelling) children others) :
    Akin spelling ⟨kind, span, text, none, children⟩ ⟨kind, twin, other, none, others⟩ := by
  obtain ⟨words, tag, list⟩ := TokenKind.plain_of_isName is children
  refine .intro (fun _ => same) (fun _ => same) (fun is => ?_) (fun _ => rfl) (absurd · tag) (absurd · list)
    fun _ => inner
  exact absurd (words.symm.trans is) Bool.false_ne_true

/-- Some text. -/
theorem written (is : kind.isText children = true) (agrees : Agrees spelling.shows text other)
    (inner : List.Forall₂ (Akin spelling) children others) :
    Akin spelling ⟨kind, span, text, none, children⟩ ⟨kind, twin, other, none, others⟩ := by
  obtain ⟨name, tag, list⟩ := TokenKind.plain_of_isText is
  refine .intro (fun keeps => agrees.eq (spelling.shown keeps)) (fun is => ?_) (fun _ => agrees) (fun _ => rfl)
    (absurd · tag) (absurd · list) fun _ => inner
  exact absurd (name.symm.trans is) Bool.false_ne_true

/-- A line of text that has parts. -/
theorem line (kept : spelling.keeps → other = text) (inner : List.Forall₂ (Akin spelling) children others)
    (agrees : children = [] → Agrees spelling.shows text other) :
    Akin spelling ⟨.textLine, span, text, none, children⟩ ⟨.textLine, twin, other, none, others⟩ := by
  refine .intro kept (fun never => by cases never) (fun is => ?_) (fun _ => rfl) (fun never => by cases never)
    (fun never => by cases never) fun _ => inner
  cases children with
  | nil => exact agrees rfl
  | cons => cases is

/-- A tag, with a first part that is the same. -/
theorem tag {first second : Token} (kept : spelling.keeps → other = text) (akin : Akin spelling first second)
    (same : second.text = first.text) (rest : List.Forall₂ (Akin spelling) children others) :
    Akin spelling ⟨.tagLine, span, text, none, first :: children⟩ ⟨.tagLine, twin, other, none, second :: others⟩ := by
  refine .intro kept (fun never => by cases never) (fun never => by cases never) (fun _ => rfl) (fun _ => ?_)
    (fun never => by cases never) fun _ => .cons akin rest
  unfold tagName
  rw [List.head?_cons, List.head?_cons, Option.map_some, Option.map_some, same]

/-- The attribute list of a tag. -/
theorem list (kept : spelling.keeps → other = text) (titled : List.Forall₂ (Titled spelling) children others)
    (inner : List.Forall₂ (Akin spelling) children others) :
    Akin spelling ⟨.attributeList, span, text, none, children⟩ ⟨.attributeList, twin, other, none, others⟩ :=
  .intro kept (fun never => by cases never) (fun never => by cases never) (fun _ => rfl) (fun never => by cases never)
    (fun _ => titled) fun _ => inner

/-- The name of an attribute, which is the same if it does not span lines. -/
theorem called (kept : spelling.keeps → other = text)
    (inner : spelling.SparesName text → List.Forall₂ (Akin spelling) children others) :
    Akin spelling ⟨.attributeName, span, text, none, children⟩ ⟨.attributeName, twin, other, none, others⟩ :=
  .intro kept (fun never => by cases never) (fun never => by cases never) (fun _ => rfl) (fun never => by cases never)
    (fun never => by cases never) fun spares => inner (spares rfl)

end Akin

/-! Trees in which nothing quoted spans lines, or in which quotes are kept. -/

theorem titles_eq {spelling : Spelling} {pairs others : List Token}
    (titled : List.Forall₂ (Titled spelling) pairs others)
    (spared : spelling.keeps ∨ ∀ pair ∈ pairs, pair.isUnbroken = true) :
    others.map pairName = pairs.map pairName := by
  induction titled with
  | nil => rfl
  | cons first _ step =>
    rw [List.map_cons, List.map_cons, step (spared.imp_right fun pairs => (List.forall_mem_cons.mp pairs).2)]
    refine congrArg (· :: _) (first fun name member is => spared.imp_right fun pairs => ?_)
    obtain ⟨-, -, parts⟩ := Token.isUnbroken_iff.mp (pairs _ List.mem_cons_self)
    exact (Token.isUnbroken_iff.mp (parts name member)).2.1 is

mutual

/-- Trees in which nothing quoted is changed are the same to whoever compiles them. -/
theorem Akin.like {spelling : Spelling} {token twin : Token} (akin : Akin spelling token twin)
    (spared : spelling.keeps ∨ token.isUnbroken = true) :
    token.Like (fun _ _ => True) (Agrees spelling.shows) twin := by
  cases akin with
  | intro _ named written same tagged listed inner =>
    replace spared := spared.imp_right Token.isUnbroken_iff.mp
    obtain rfl := same fun some => spared.imp_right fun unbroken => unbroken.1 some
    have parts := spared.imp_right fun unbroken => unbroken.2.2
    exact .intro trivial named written tagged (fun list => titles_eq (listed list) parts)
      (likes (inner fun name => spared.imp_right fun unbroken => unbroken.2.1 name) parts)
termination_by sizeOf token
decreasing_by
  subst_vars
  simp only [Token.mk.sizeOf_spec]
  omega

theorem likes {spelling : Spelling} {tokens twins : List Token} (akin : List.Forall₂ (Akin spelling) tokens twins)
    (spared : spelling.keeps ∨ ∀ token ∈ tokens, token.isUnbroken = true) :
    List.Forall₂ (Token.Like (fun _ _ => True) (Agrees spelling.shows)) tokens twins := by
  cases akin with
  | nil => exact .nil
  | cons first more =>
    replace spared := spared.imp_right List.forall_mem_cons.mp
    exact .cons (first.like (spared.imp_right And.left)) (likes more (spared.imp_right And.right))
termination_by sizeOf tokens

end

/-! Readers of markup. -/

/-- Two readers of markup that fail with the same fault, or both succeed. -/
abbrev Lexes {α β : Type} (values : α → β → Prop) : Except LexError α → Except LexError β → Prop :=
  Both (fun error other => other.fault = error.fault) values

variable {spelling : Spelling} {first second : Input}

/-- What is read of both texts corresponds, and so does what follows. -/
structure Meets {α β : Type} (spelling : Spelling) (values : α → β → Prop) (x : Parsed α first) (y : Parsed β second) :
    Prop where
  beside : Beside spelling x.rest y.rest
  values : values x.value y.value

/-- Where everything stays as it is, two parts between the same places have the same text. -/
theorem between_kept {stop final : Input} (beside : Beside spelling first second) (reached : first.Reaches stop)
    (arrived : second.Reaches final) (after : Beside spelling stop final) (keeps : spelling.keeps) :
    String.ofList (second.textTo final.pos) = String.ofList (first.textTo stop.pos) :=
  congrArg String.ofList (textTo_kept keeps beside reached arrived after)

/-! Embedded expressions. -/

/-- Spacing ends no line. -/
theorem scan_spacing (place : Quoting) {text : List Char} (spacing : ∀ char ∈ text, isSpacing char = true) :
    (place.scan text).isSome = true := by
  induction text generalizing place with
  | nil => rfl
  | cons char text step =>
    obtain ⟨here, rest⟩ := List.forall_mem_cons.mp spacing
    have within : isLineEnd char = false := by
      rcases Bool.or_eq_true_iff.mp here with same | same <;> rw [beq_iff_eq.mp same] <;> rfl
    obtain ⟨next, steps⟩ : ∃ next, place.step char = some next := by
      cases place <;> simp only [Quoting.step, within, Bool.false_eq_true, if_false] <;> exact ⟨_, rfl⟩
    rw [scan_cons, steps]
    exact step next rest

theorem unbroken_of_stripEnd {text : List Char} (unbroken : Unbroken (Blank.stripEnd isSpacing text)) :
    Unbroken text := by
  have split : Blank.stripEnd isSpacing text ++ (text.reverse.takeWhile isSpacing).reverse = text := by
    rw [Blank.stripEnd, ← List.reverse_append, List.takeWhile_append_dropWhile, List.reverse_reverse]
  obtain ⟨place, scanned⟩ := Option.isSome_iff_exists.mp unbroken
  rw [← split, Unbroken, scan_append, scanned]
  exact scan_spacing place fun char member =>
    List.all_eq_true.mp List.all_takeWhile char (List.mem_reverse.mp member)

/-- Two embedded expressions are the same but for what is quoted in them, and wholly the same if no quoted
string spans lines. -/
structure Echo (spelling : Spelling) (x : Parsed Embedded first) (y : Parsed Embedded second) : Prop where
  leads : Leads spelling first x.rest y.rest (y.value.expr = x.value.expr)
  muted : y.value.expr.muted = x.value.expr.muted
  quoted : spelling.Spares x.value.text → y.value.expr = x.value.expr
  kept : spelling.keeps → y.value.text = x.value.text
  /-- Both stop as many bytes after where they start. -/
  ahead : spelling.keeps → ∃ count, x.value.span.stop = first.pos + count ∧ y.value.span.stop = second.pos + count

theorem Echo.token {x : Parsed Embedded first} {y : Parsed Embedded second} (echo : Echo spelling x y)
    {kind : TokenKind} (inert : kind.isInert = true) : Akin spelling (x.value.token kind) (y.value.token kind) :=
  .stating inert echo.kept (fun spares => congrArg some (echo.quoted (spares rfl))) .nil

theorem parseFrom_reads {options others : ParseOptions} (abreast : Abreast spelling options others)
    (beside : Beside spelling first second) :
    Reads (Twin spelling True) (Expr.parseFrom options first) (Expr.parseFrom others second) :=
  readExpr_reads abreast beside

/-- What is read of a source is what is read of the text at the place. -/
theorem parse_of_parseFrom {options : ParseOptions} {x : Parsed Expr first}
    (read : Expr.parseFrom options first = .ok x) :
    ∃ parsed, Expr.parse options first.rest = .ok parsed ∧ parsed.value = x.value := by
  have moves := Relocation.parseFrom_moves options first
  rw [read] at moves
  generalize found : Expr.parse options first.rest = one at moves
  cases moves with
  | @ok parsed _ alike => exact ⟨parsed, rfl, alike.value.symm⟩

theorem parseFrom_value {options : ParseOptions} (same : second.rest = first.rest) {x : Parsed Expr first}
    {y : Parsed Expr second} (one : Expr.parseFrom options first = .ok x)
    (two : Expr.parseFrom options second = .ok y) : y.value = x.value := by
  obtain ⟨parsed, found, value⟩ := parse_of_parseFrom one
  obtain ⟨other, sought, copied⟩ := parse_of_parseFrom two
  generalize second.rest = text at other same
  subst same
  cases found.symm.trans sought
  exact copied.symm.trans value

theorem embedded_reads {options others : ParseOptions} (abreast : Abreast spelling options others)
    (place : ExprPlace) (beside : Beside spelling first second) :
    Lexes (Echo spelling) (Embedded.read options place first) (Embedded.read others place second) := by
  have parsed := (parseFrom_reads abreast beside).known
  unfold Embedded.read
  generalize foundFirst : Expr.parseFrom options first = one at parsed
  generalize foundSecond : Expr.parseFrom others second = other at parsed
  cases parsed with
  | error same => exact .error (congrArg (LexFault.inExpr place) same)
  | @ok x y both =>
    obtain ⟨twin, -, -⟩ := both
    have leads : Leads spelling first x.rest y.rest (y.value = x.value) := twin.leads.mono (· trivial)
    have texts (keeps : spelling.keeps) : second.textTo y.rest.pos = first.textTo x.rest.pos :=
      textTo_kept keeps beside x.reached y.reached leads.beside
    refine .ok ⟨leads.before (.skipSpacing x.rest) leads.beside.skipSpacing, twin.muted, fun spares => ?_,
      fun keeps => congrArg (fun text => String.ofList (Blank.stripEnd isSpacing text)) (texts keeps),
      fun keeps => ⟨_, rfl, by rw [texts keeps]⟩⟩
    rcases spares with keeps | unbroken
    · rw [abreast.same keeps] at foundSecond
      exact parseFrom_value (spelling.same keeps beside) foundFirst foundSecond
    · rw [String.toList_ofList] at unbroken
      exact leads.of_unbroken x.reached (unbroken_of_stripEnd unbroken)

/-- Expressions that may not go on in other lines. -/
theorem embedded_alike {options : ParseOptions} (none : options.continuation = [])
    (ends : options.stops.unlessContinued = false) (place : ExprPlace) (beside : Beside spelling first second) :
    Lexes (Echo spelling) (Embedded.read options place first) (Embedded.read options place second) :=
  embedded_reads (.refl none ends) place beside

end Respelling

end HtmlTemplate
