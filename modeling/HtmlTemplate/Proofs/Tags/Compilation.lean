import HtmlTemplate.Proofs.Content.Compilation
import HtmlTemplate.Proofs.Tags.Chunks

/-! Templates of tags, text, escaped outputs, code, statements and mixins are compiled to chunks in which
every tag that is opened is closed. -/

namespace HtmlTemplate

namespace Token

open Compilation

mutual

/-- Whether a part and all that is in it are of some kind. -/
def everyPart (fits : Token → Bool) : Token → Bool
  | ⟨kind, span, text, expr, children⟩ => fits ⟨kind, span, text, expr, children⟩ && everyPartIn fits children

def everyPartIn (fits : Token → Bool) : List Token → Bool
  | [] => true
  | token :: rest => everyPart fits token && everyPartIn fits rest

end

theorem everyPartIn_iff (fits : Token → Bool) (parts : List Token) :
    everyPartIn fits parts = true ↔ ∀ part ∈ parts, part.everyPart fits = true := by
  induction parts with
  | nil => exact ⟨nofun, fun _ => rfl⟩
  | cons part rest step => rw [everyPartIn, Bool.and_eq_true, step, List.forall_mem_cons]

theorem everyPart_iff (fits : Token → Bool) (token : Token) :
    token.everyPart fits = true ↔ fits token = true ∧ ∀ part ∈ token.children, part.everyPart fits = true := by
  obtain ⟨kind, span, text, expr, children⟩ := token
  rw [everyPart, Bool.and_eq_true, everyPartIn_iff]

/-- Whether a part, apart from what is in it, writes nothing of its own that has angle brackets, but for
tags: it is no raw line, comment, document type, inclusion or unescaped output, an attribute has a bare
name, and text has no angle brackets. -/
def isTagged (token : Token) : Bool :=
  match token.kind with
  | .rawOutput | .trailingRawOutput | .rawPair | .attributeExpr | .commentLine | .htmlComment
  | .templateComment | .includeTarget | .doctype => false
  | .plainText => Tags.isClean token.text.toList
  | .textLine => !token.children.isEmpty || Tags.isClean token.text.toList
  | .escapedPair => (pairName token).toList.all CharClass.isAttrWord
  | _ => true

end Token

namespace Tags

open CharClass Builder Building Compilation Content Token

/-- A template of tags, texts without angle brackets, escaped outputs, code, statements and mixins. -/
abbrev Tagged (token : Token) : Prop := token.everyPart Token.isTagged = true

variable (fold : Expr → Option Value) {token : Token} {parts : List Token}

theorem Tagged.own (tagged : Tagged token) : token.isTagged = true :=
  ((everyPart_iff _ token).mp tagged).1

theorem Tagged.inner (tagged : Tagged token) : ∀ part ∈ token.children, Tagged part :=
  ((everyPart_iff _ token).mp tagged).2

/-! The parts of a line. -/

theorem outputItem_balances (expr : Expr) : Balances (outputItem fold true expr) := by
  unfold outputItem
  cases fold expr with
  | none => exact .inner rfl
  | some value =>
    dsimp only
    split
    · exact .inner rfl
    · rename_i same
      have escaped : value.printed = Entities.escape value.printed := by
        have equal : value.output true = value.printed := by simpa using same
        exact equal.symm
      refine .push ?_
      rw [escaped]
      exact isClean_escape _

theorem outputs_balances (shapes : ∀ part ∈ parts, IsOutput part) (tagged : ∀ part ∈ parts, Tagged part) :
    Balances (outputs fold parts) := by
  refine .forM parts fun part member => ?_
  have is : part.kind = .escapedOutput := by
    rcases (shapes part member).is with is | is
    · exact is
    · have own := (tagged part member).own
      rw [isTagged, is] at own
      cases own
  cases part.expr with
  | none => exact .pure
  | some expr =>
    rw [is]
    exact .forM expr.sequence fun item _ => outputItem_balances fold item

theorem statements_balances (parts : List Token) : Balances (statements fold parts) := by
  refine .forM parts fun part _ => ?_
  cases part.expr with
  | none => exact .pure
  | some expr =>
    change Balances (code fold expr)
    unfold code
    split
    · exact .inner rfl
    · exact .pure

/-! What is written in a tag. -/

section

variable {opened : List (List Char)} {tag : List Char}

theorem attr_moves {name : String} (bare : name.toList.all isAttrWord = true) (value : Option Expr) :
    Moves ⟨opened, some tag⟩ ⟨opened, some tag⟩ (attr fold true name value) := by
  unfold attr
  cases value with
  | none => exact .pushes (.flag bare) fun _ => rfl
  | some expr =>
    dsimp only
    cases fold expr with
    | none => exact .emit (.attr bare (.nil _))
    | some value => exact .push (.markup bare value) fun _ => rfl

theorem pair_moves (pair : IsPair token) (tagged : Tagged token) :
    Moves ⟨opened, some tag⟩ ⟨opened, some tag⟩ (Compilation.pair fold token) := by
  have own := tagged.own
  rcases pair.is with is | is
  · rw [isTagged, is] at own
    change Moves _ _ (attr fold (token.kind == .escapedPair) (pairName token) _)
    rw [is]
    exact attr_moves fold own _
  · rw [isTagged, is] at own
    cases own

theorem attributes_moves (inline : Token.Inline token) (tagged : Tagged token) :
    Moves ⟨opened, some tag⟩ ⟨opened, some tag⟩ (attributes fold token) := by
  have own := tagged.own
  unfold attributes
  split
  · rename_i is
    cases inline with
    | attributes _ pairs =>
      exact .forM token.children fun pair member => pair_moves fold (pairs pair member) (tagged.inner pair member)
    | text other => cases is.symm.trans other
    | output output => rcases output.is with other | other <;> cases is.symm.trans other
    | silent _ list => exact absurd is list
    | tag other => cases is.symm.trans other
  · rename_i is
    rw [isTagged, is] at own
    cases own
  · exact .pure _

theorem shorthand_moves (parts : List Token) :
    Moves ⟨opened, some tag⟩ ⟨opened, some tag⟩ (push (shorthand parts)) := by
  have noted (text : String) :
      Carries (" id=\"" ++ Entities.escape text ++ "\"") ⟨opened, some tag⟩ ⟨opened, some tag⟩ := by
    have valued : Carries (" " ++ "id" ++ "=\"" ++ Entities.escape text ++ "\"")
      ⟨opened, some tag⟩ ⟨opened, some tag⟩ := .valued rfl (isClean_escape text)
    have same : " " ++ "id" ++ "=\"" = " id=\"" := by decide
    rwa [same] at valued
  have classed (text : String) :
      Carries (" class=\"" ++ Entities.escape text ++ "\"") ⟨opened, some tag⟩ ⟨opened, some tag⟩ := by
    have valued : Carries (" " ++ "class" ++ "=\"" ++ Entities.escape text ++ "\"")
      ⟨opened, some tag⟩ ⟨opened, some tag⟩ := .valued rfl (isClean_escape text)
    have same : " " ++ "class" ++ "=\"" = " class=\"" := by decide
    rwa [same] at valued
  have last (ids : List String) : Carries
      ((ids.getLast?.map fun id => " id=\"" ++ Entities.escape id ++ "\"").getD "")
      ⟨opened, some tag⟩ ⟨opened, some tag⟩ := by
    cases ids.getLast? with
    | none => exact .empty _
    | some id => exact noted id
  refine .push ?_ fun _ => rfl
  unfold shorthand
  dsimp only
  split
  · exact last _
  · have both := (last ((parts.filter (·.kind == .idNote)).map Token.text)).append
      (classed (" ".intercalate ((parts.filter (·.kind == .classNote)).map Token.text)))
    simpa only [String.append_assoc] using both

end

/-! Lines. -/

theorem isBlock_control {make : List Chunk → Chunk} (found : control? token = some make) (body : List Chunk) :
    (make body).isBlock = true ∧ (make body).body = body := by
  unfold control? at found
  split at found <;> cases found <;> exact ⟨rfl, rfl⟩

theorem parting_balances (layout : Layout) (afterText : Bool) : Balances (parting layout afterText) := by
  unfold parting
  split
  · exact .newline layout
  · split
    · exact .push rfl
    · exact .pure

theorem opening_balances (ownLine : Bool) (layout : Layout) (name : String) :
    Balances (opening ownLine layout name) := by
  unfold opening
  split
  · exact .newline layout
  · exact .pure

/-- What is nested in an element, and its end. -/
theorem nesting_moves (breaks : Bool) (layout : Layout) {body : BuildM Unit} (balances : Balances body)
    {name : String} (words : name.toList.all isTagWord = true) {opened : List (List Char)} :
    Moves ⟨name.toList :: opened, none⟩ ⟨opened, none⟩ (nesting breaks layout body ("</" ++ name ++ ">")) := by
  have ending : Moves ⟨name.toList :: opened, none⟩ ⟨opened, none⟩ (push ("</" ++ name ++ ">")) := by
    refine .push (.close words) fun empty => ?_
    exact absurd (String.append_eq_empty_iff.mp empty).2 (by decide)
  refine .looking fun before => .bind (balances _) (.looking fun after => ?_)
  split
  · exact .bind (Balances.newline layout _) ending
  · exact ending

/-- Every tag has a name that is a word. -/
theorem tagName_isWord {name : Token} {rest : List Token} (all : parts = name :: rest)
    (word : name.text.toList.all isTagWord = true) :
    (tagName parts).toList ≠ [] ∧ (tagName parts).toList.all isTagWord = true := by
  rw [all]
  unfold tagName
  dsimp only [List.head?_cons, Option.map_some]
  split
  · decide
  · decide
  · rename_i other same
    cases same
    refine ⟨fun empty => other ?_, word⟩
    rw [← String.toList_inj, empty]
    rfl

mutual

theorem block_balances (layout : Layout) (afterText : Bool) (previous : Option TokenKind) (lines : List Token)
    (formed : ∀ line ∈ lines, Formed line) (tagged : ∀ line ∈ lines, Tagged line) :
    Balances (block fold layout afterText previous lines) := by
  cases lines with
  | nil =>
    rw [block_nil]
    exact .pure
  | cons token rest =>
    obtain ⟨first, others⟩ := List.forall_mem_cons.mp formed
    obtain ⟨own, further⟩ := List.forall_mem_cons.mp tagged
    rw [block_cons]
    cases misplaced? previous token.kind with
    | some fault => exact .throw _
    | none =>
      have line := (statement_balances layout token first own).bind
        (block_balances layout (isTextLine token) (some token.kind) rest others further)
      dsimp only
      split
      · exact (parting_balances layout afterText).bind line
      · exact line
termination_by 2 * sizeOf lines + 1
decreasing_by
  all_goals
    subst_vars
    rw [List.cons.sizeOf_spec]
    omega

theorem controlling_balances (layout : Layout) (token : Token) {make : List Chunk → Chunk}
    (found : control? token = some make) (formed : ∀ line ∈ token.children, Formed line)
    (tagged : ∀ line ∈ token.children, Tagged line) : Balances (controlling fold layout token) := by
  have shorter := sizeOf_nestedLines_lt token
  have some : nestedLines token.children ⊆ token.children := (List.dropWhile_suffix _).subset
  unfold controlling
  rw [found]
  exact .block (isBlock_control found) (block_balances layout false none _
    (fun line member => formed line (some member)) fun line member => tagged line (some member))
termination_by 2 * sizeOf token
decreasing_by all_goals omega

theorem statement_balances (layout : Layout) (token : Token) (formed : Formed token) (tagged : Tagged token) :
    Balances (statement fold layout token) := by
  have smaller := sizeOf_children_lt token
  cases formed with
  | @markup _ data lines is all shape nested =>
    have size := congrArg sizeOf all
    obtain ⟨first, others⟩ := List.forall_mem_cons.mp (all ▸ tagged.inner)
    have line := line_balances layout data shape first lines nested others
    obtain ⟨kind, span, text, expr, children⟩ := token
    dsimp only at is all
    subst is all
    unfold statement
    exact line
  | statement asks nested =>
    have own := tagged.own
    have controls {make : List Chunk → Chunk} (found : control? token = some make) :=
      controlling_balances layout token found nested tagged.inner
    have lines := block_balances layout false none token.children nested tagged.inner
    have cases := branches_balances layout token.children nested tagged.inner
    obtain ⟨kind, span, text, expr, children⟩ := token
    unfold statement
    cases kind with
    | includeTarget => cases own
    | doctype => cases own
    | mixinControl =>
      cases expr with
      | none => cases asks
      | some signature =>
        dsimp only
        cases signature.definedName? with
        | none => exact .throw _
        | some name => exact .block (fun _ => ⟨rfl, rfl⟩) lines
    | caseControl =>
      cases expr with
      | none => cases asks
      | some subject => exact .block (fun _ => ⟨rfl, rfl⟩) cases
    | _ =>
      cases expr with
      | none => first | exact controls rfl | cases asks
      | some expr => first | exact controls rfl | cases asks
  | named is leaf =>
    obtain ⟨kind, span, text, expr, children⟩ := token
    dsimp only at is leaf
    subst is leaf
    unfold statement
    exact .pure
termination_by 2 * sizeOf token + 1
decreasing_by
  all_goals
    try simp only [List.cons.sizeOf_spec] at size
    omega

theorem branches_balances (layout : Layout) (lines : List Token) (formed : ∀ line ∈ lines, Formed line)
    (tagged : ∀ line ∈ lines, Tagged line) : Balances (branches fold layout lines) := by
  cases lines with
  | nil =>
    unfold branches
    exact .pure
  | cons token rest =>
    obtain ⟨first, others⟩ := List.forall_mem_cons.mp formed
    obtain ⟨own, further⟩ := List.forall_mem_cons.mp tagged
    unfold branches
    split
    · exact (statement_balances layout token first own).bind (branches_balances layout rest others further)
    · exact fun _ => nofun
termination_by 2 * sizeOf lines + 1
decreasing_by
  all_goals
    subst_vars
    rw [List.cons.sizeOf_spec]
    omega

theorem line_balances (layout : Layout) (data : Token) (shape : Data data) (tagged : Tagged data)
    (nested : List Token) (formed : ∀ line ∈ nested, Formed line) (others : ∀ line ∈ nested, Tagged line) :
    Balances (line fold layout data nested) := by
  have smaller := sizeOf_children_lt data
  have lines (layout : Layout) (afterText : Bool) := block_balances layout afterText none nested formed others
  have own := tagged.own
  cases shape with
  | tag is inline =>
    have tag := tag_balances layout true data.span.start data is inline tagged nested formed others
    obtain ⟨kind, span, text, expr, children⟩ := data
    dsimp only at is
    subst is
    unfold line
    exact tag
  | text is inline =>
    have texts := pieces_balances layout data.children inline tagged.inner
    obtain ⟨kind, span, text, expr, children⟩ := data
    dsimp only at is
    obtain rfl | rfl := is
    · unfold line
      cases children with
      | nil => exact .bind (.push own) (lines layout true)
      | cons => exact .bind texts (lines layout true)
    · unfold line
      exact .bind texts (lines layout true)
  | @comment mark pieces is =>
    rw [isTagged, is] at own
    cases own
  | output is outputs =>
    have puts := outputs_balances fold outputs tagged.inner
    obtain ⟨kind, span, text, expr, children⟩ := data
    dsimp only at is
    subst is
    unfold line
    exact .bind puts (lines layout false)
  | code is =>
    have puts := statements_balances fold data.children
    obtain ⟨kind, span, text, expr, children⟩ := data
    dsimp only at is
    obtain rfl | rfl := is
    · unfold line
      exact .bind puts (lines layout false)
    · unfold line
      exact .bind puts (lines layout false)
  | silent is =>
    obtain ⟨kind, span, text, expr, children⟩ := data
    dsimp only at is
    obtain rfl | rfl := is
    · unfold line
      exact lines layout false
    · unfold line
      exact .bind (.inner rfl) (lines layout false)
termination_by 2 * (sizeOf data + sizeOf nested) + 1
decreasing_by
  all_goals omega

theorem pieces_balances (layout : Layout) (parts : List Token) (inline : ∀ part ∈ parts, Token.Inline part)
    (tagged : ∀ part ∈ parts, Tagged part) : Balances (pieces fold layout parts) := by
  cases found : parts with
  | nil =>
    unfold pieces
    exact .pure
  | cons part rest =>
    have size := congrArg sizeOf found
    rw [found] at inline tagged
    obtain ⟨first, others⟩ := List.forall_mem_cons.mp inline
    obtain ⟨own, further⟩ := List.forall_mem_cons.mp tagged
    have smaller := sizeOf_children_lt part
    have more := pieces_balances layout rest others further
    cases first with
    | text is =>
      have clean := own.own
      obtain ⟨kind, span, text, expr, children⟩ := part
      dsimp only at is
      subst is
      unfold pieces
      exact .bind (.push clean) more
    | output output =>
      have one := outputs_balances fold (List.forall_mem_singleton.mpr output) (List.forall_mem_singleton.mpr own)
      have is := output.is
      obtain ⟨kind, span, text, expr, children⟩ := part
      dsimp only at is
      obtain rfl | rfl := is
      · unfold pieces
        exact .bind one more
      · cases own.own
    | tag is all named inner word =>
      have tag :=
        tag_balances layout false part.span.start part is (.tag is all named inner word) own [] nofun nofun
      obtain ⟨kind, span, text, expr, children⟩ := part
      dsimp only at is
      subst is
      unfold pieces
      exact .bind tag more
    | attributes is pairs =>
      have quiet : part.kind.isAuthored = false := by rw [is]; rfl
      have silent : Silent part := .other quiet fun pair member => (pairs pair member).silent
      have tag : part.kind ≠ .tagLine := by rw [is]; nofun
      rw [pieces_silent fold layout silent tag]
      exact more
    | silent tag _ silent =>
      rw [pieces_silent fold layout silent tag]
      exact more
termination_by 2 * sizeOf parts + 1
decreasing_by
  all_goals
    try simp only [List.cons.sizeOf_spec, List.nil.sizeOf_spec] at size ⊢
    omega

theorem tag_balances (layout : Layout) (ownLine : Bool) (offset : Nat) (token : Token)
    (is : token.kind = .tagLine) (inline : Token.Inline token) (tagged : Tagged token) (nested : List Token)
    (formed : ∀ line ∈ nested, Formed line) (others : ∀ line ∈ nested, Tagged line) :
    Balances (tag fold layout ownLine offset token.children nested) := by
  obtain ⟨name, parts, all, -, inner, word⟩ := parts_of_tag is inline
  have positive := sizeOf_lines_pos token.children
  have size := congrArg sizeOf all
  obtain ⟨named, words⟩ : (tagName token.children).toList ≠ [] ∧ _ := tagName_isWord all word
  have texts := pieces_balances layout parts (List.forall_mem_cons.mp inner).2
    (List.forall_mem_cons.mp (all ▸ tagged.inner)).2
  have lines := block_balances { layout with depth := layout.depth + 1 } false none nested formed others
  have begins (opened : List (List Char)) :
      Moves ⟨opened, none⟩ ⟨opened, some (tagName token.children).toList⟩
        (push ("<" ++ tagName token.children)) :=
    .push (.begin named words) fun empty => absurd (String.append_eq_empty_iff.mp empty).1 (by decide)
  rw [tag_eq]
  intro opened
  refine (opening_balances ownLine layout _ opened).bind (.bind (begins opened)
    (.bind (shorthand_moves _) (.bind (.forM _ fun part member => ?given) ?content)))
  case given => exact attributes_moves fold (inner part (all ▸ member)) (tagged.inner part member)
  case content =>
    split
    · refine .bind (.push .single nofun) ?_
      split
      · exact .throw _
      · exact .pure _
    · rw [all] at named words ⊢
      exact .bind (.push .opening nofun) (.bind (texts _) (nesting_moves _ layout lines words))
termination_by 2 * (sizeOf token.children + sizeOf nested) + 1
decreasing_by
  all_goals
    try simp only [List.cons.sizeOf_spec] at size
    omega

end

end Tags

end HtmlTemplate
