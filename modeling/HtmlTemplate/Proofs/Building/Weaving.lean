import HtmlTemplate.Proofs.Building.Likeness
import HtmlTemplate.Proofs.Building.Steps
import HtmlTemplate.Proofs.Content.Shapes

/-! A line that an alternative may follow states what it asks for: whatever is read of a
source, a condition has its guard and a loop has its source. -/

namespace HtmlTemplate

namespace TokenKind

/-- Whether alternatives may follow the lines of a kind. -/
def takesAlternative : TokenKind → Bool
  | ifControl | unlessControl | elseIfControl | eachControl | eachPairControl => true
  | _ => false

theorem isSome_of_asks {kind : TokenKind} {expr : Option Expr} (asks : kind.asks expr = true)
    (takes : kind.takesAlternative = true) : expr.isSome = true := by
  cases kind <;> first | exact asks | cases takes

end TokenKind

namespace Token

/-- A token and the lines nested in it state what they ask for. -/
inductive Stated : Token → Prop where
  | intro {token : Token} (asks : token.kind.takesAlternative = true → token.expr.isSome = true)
      (inner : ∀ line ∈ token.nested, Stated line) : Stated token

theorem Stated.asks {token : Token} (stated : Stated token)
    (takes : token.kind.takesAlternative = true) : token.expr.isSome = true := by
  obtain ⟨asks, -⟩ := stated
  exact asks takes

theorem Stated.inner {token : Token} (stated : Stated token) :
    ∀ line ∈ token.nested, Stated line := by
  obtain ⟨-, inner⟩ := stated
  exact inner

/-- Lines that are formed as lines are state what they ask for. -/
theorem Formed.stated {token : Token} (formed : Formed token) : Stated token := by
  induction formed with
  | @markup token data lines is all shape nested step =>
    refine ⟨fun takes => ?_, ?_⟩
    · rw [is] at takes
      cases takes
    · rw [Token.nested, if_pos is, all]
      exact step
  | @statement token asks nested step =>
    refine ⟨TokenKind.isSome_of_asks asks, ?_⟩
    have other : token.kind ≠ .line := by
      intro line
      rw [line] at asks
      cases asks
    rw [Token.nested, if_neg other]
    exact step
  | @named token is leaf =>
    refine ⟨fun takes => ?_, ?_⟩
    · rw [is] at takes
      cases takes
    · rw [Token.nested, leaf]
      split <;> nofun

/-- The lines of a source state what they ask for. -/
theorem ofSource_stated {source : List Char} {root : Token} (read : ofSource source = .ok root) :
    ∀ line ∈ root.children, line.Stated :=
  fun line member => (ofSource_formed read line member).stated

end Token

/-! Compiling two trees side by side. A relation of builders that each single thing that is put out
keeps is kept by whole lines and blocks. -/

/-- Chunks that are put out as they are. -/
def Chunk.isLone : Chunk → Bool
  | .attrs _ | .includeTemplate _ _ | .mixinCall _ _ => true
  | _ => false

namespace Building

open Builder Compilation

/-- Two ways of compiling, and how what they get and what they build corresponds. `related` is told the
kind of the line that the last chunks are of, where alternatives may go with it, and `branching` is about
choices by value. -/
structure Loom where
  fold : Expr → Option Value
  other : Expr → Option Value
  layouts : Layout → Layout → Prop
  spans : Span → Span → Prop
  texts : String → String → Prop
  faults : StructureError → StructureError → Prop
  /-- Which lines are compiled. -/
  fits : Token → Prop
  related : Option TokenKind → Builder → Builder → Prop
  branching : Builder → Builder → Prop

namespace Loom

variable (loom : Loom)

/-- Parts that correspond. -/
abbrev Twins (parts others : List Token) : Prop := List.Forall₂ (Token.Like loom.spans loom.texts) parts others

/-- Two computations that go alike from related builders. -/
abbrev Weaves (ready joined : Option TokenKind) (first second : BuildM Unit) : Prop :=
  Woven loom.faults (loom.related ready) (loom.related joined) first second

/-- The relation is kept by each single thing that is put out. -/
structure Sound : Prop where
  unready : ∀ {ready builder twin}, loom.related ready builder twin → loom.related none builder twin
  plain : ∀ text, loom.texts text text
  fault : ∀ fault {span twin}, loom.spans span twin →
    loom.faults ⟨fault, span.start⟩ ⟨fault, twin.start⟩
  stated : ∀ {token}, loom.fits token → token.Stated
  inner : ∀ {token}, loom.fits token → ∀ line ∈ token.nested, loom.fits line
  depth : ∀ {wide slim}, loom.layouts wide slim → slim.depth = wide.depth
  deeper : ∀ {wide slim}, loom.layouts wide slim →
    loom.layouts { wide with depth := wide.depth + 1 } { slim with depth := slim.depth + 1 }
  packed : ∀ {wide slim}, loom.layouts wide slim →
    loom.layouts { wide with pretty := false } { slim with pretty := false }
  pushed : ∀ {ready text other}, loom.texts text other → loom.Weaves ready none (push text) (push other)
  noted : ∀ name, loom.Weaves none none (noteInclude name) (noteInclude name)
  begun : ∀ {wide slim}, loom.layouts wide slim → loom.Weaves none none (newline wide) (newline slim)
  opened : ∀ {wide slim}, loom.layouts wide slim → ∀ ownLine name,
    loom.Weaves none none (opening ownLine wide name) (opening ownLine slim name)
  nested : ∀ {wide slim}, loom.layouts wide slim → ∀ ownLine name ending {body twin},
    loom.Weaves none none body twin → loom.Weaves none none
      (nesting (breaking ownLine wide name) wide body ending)
      (nesting (breaking ownLine slim name) slim twin ending)
  parted : ∀ {wide slim}, loom.layouts wide slim → ∀ {ready} afterText,
    loom.Weaves ready none (parting wide afterText) (parting slim afterText)
  item : ∀ escape expr,
    loom.Weaves none none (outputItem loom.fold escape expr) (outputItem loom.other escape expr)
  coded : ∀ expr, loom.Weaves none none (code loom.fold expr) (code loom.other expr)
  given : ∀ escape name value,
    loom.Weaves none none (attr loom.fold escape name value) (attr loom.other escape name value)
  put : ∀ {chunk : Chunk}, chunk.isLone = true → loom.Weaves none none (emit chunk) (emit chunk)
  controlled : ∀ {token make ready body twin}, control? token = some make →
    misplaced? ready token.kind = none → loom.Weaves none none body twin →
      loom.Weaves ready (some token.kind) (do emit (make (← enclosed body)))
        (do emit (make (← enclosed twin)))
  shared : ∀ name signature {ready body twin}, loom.Weaves none none body twin →
    loom.Weaves ready none (do emit (.mixin name signature (← enclosed body)))
      (do emit (.mixin name signature (← enclosed twin)))
  branched : ∀ {token make body twin}, control? token = some make →
    token.kind = .whenControl ∨ token.kind = .defaultControl → loom.Weaves none none body twin →
      Woven loom.faults loom.branching loom.branching
        (do emit (make (← enclosed body))) (do emit (make (← enclosed twin)))
  chosen : ∀ {token}, loom.fits token → token.kind = .caseControl → ∀ subject {ready body twin},
    Woven loom.faults loom.branching loom.branching body twin →
      loom.Weaves ready none (do emit (.caseBlock subject (← enclosed body)))
        (do emit (.caseBlock subject (← enclosed twin)))

end Loom

variable {loom : Loom}

/-! The parts of a line. -/

/-- The value of a pair is its second part. -/
theorem pairValue_eq {token twin : Token} (like : Token.Like loom.spans loom.texts token twin) :
    (twin.children[1]? >>= Token.expr) = (token.children[1]? >>= Token.expr) := by
  have alike := like.children
  generalize token.children = parts at alike
  generalize twin.children = others at alike
  cases alike with
  | nil => rfl
  | cons _ further =>
    cases further with
    | nil => rfl
    | cons second => exact second.expr

section

variable (sound : loom.Sound)
include sound

theorem outputs_woven {parts others : List Token} (like : loom.Twins parts others) :
    loom.Weaves none none (outputs loom.fold parts) (outputs loom.other others) := by
  apply Woven.forM _ like
  intro part twin like
  rw [like.kind, like.expr]
  cases part.expr with
  | none => exact .pure
  | some expr => exact .each (sound.item _) expr.sequence

theorem statements_woven {parts others : List Token} (like : loom.Twins parts others) :
    loom.Weaves none none (statements loom.fold parts) (statements loom.other others) := by
  apply Woven.forM _ like
  intro part twin like
  rw [like.expr]
  cases part.expr with
  | none => exact .pure
  | some expr => exact sound.coded expr

theorem pairs_woven {parts others : List Token} (like : loom.Twins parts others)
    (names : others.map pairName = parts.map pairName) :
    loom.Weaves none none (parts.forM (pair loom.fold)) (others.forM (pair loom.other)) := by
  induction like with
  | nil => exact .pure
  | @cons token twin _ _ first _ step =>
    obtain ⟨name, rest⟩ := List.cons_eq_cons.mp names
    have one : loom.Weaves none none (pair loom.fold token) (pair loom.other twin) := by
      change loom.Weaves none none (attr loom.fold (token.kind == .escapedPair) (pairName token) _)
        (attr loom.other (twin.kind == .escapedPair) (pairName twin) _)
      rw [first.kind, name, pairValue_eq first]
      exact sound.given _ _ _
    exact .bind one (step rest)

theorem attributes_woven {parts others : List Token} (like : loom.Twins parts others) :
    loom.Weaves none none (parts.forM (attributes loom.fold)) (others.forM (attributes loom.other)) := by
  apply Woven.forM _ like
  intro part twin like
  cases like with
  | @intro kind span twin text other expr children others _ _ _ _ listed inner =>
    unfold attributes
    cases kind with
    | attributeList => exact pairs_woven sound inner (listed rfl)
    | attributeExpr =>
      cases expr with
      | none => exact .pure
      | some expr => exact sound.put rfl
    | _ => exact .pure

end

/-! Lines. -/

/-- An alternative comes after a line that it can go with. -/
theorem follows_of_placed {previous : Option TokenKind} {kind : TokenKind}
    (placed : misplaced? previous kind = none)
    (alternative : kind = .elseIfControl ∨ kind = .elseControl) :
    previous.any TokenKind.takesAlternative = true := by
  cases previous with
  | none => rcases alternative with rfl | rfl <;> cases placed
  | some previous =>
    rcases alternative with rfl | rfl <;> cases previous <;> first | rfl | cases placed

theorem control_alternative {token : Token} {make : List Chunk → Chunk}
    (found : control? token = some make) (body : List Chunk)
    (alternative : (make body).isAlternative = true) :
    token.kind = .elseIfControl ∨ token.kind = .elseControl := by
  unfold control? at found
  split at found <;> cases found <;> cases alternative
  · exact .inl ‹_›
  · exact .inr ‹_›

/-- What a line of a choice by value is made to. -/
theorem control_branch {token : Token} {make : List Chunk → Chunk}
    (found : control? token = some make)
    (branch : token.kind = .whenControl ∨ token.kind = .defaultControl) (body : List Chunk) :
    (make body).isBranch = true := by
  obtain ⟨kind, span, text, expr, children⟩ := token
  rcases branch with same | same
  · dsimp only at same
    subst same
    cases expr with
    | none => cases found
    | some value => cases found; rfl
  · dsimp only at same
    subst same
    cases found
    rfl

theorem control_of_stated {token : Token} (stated : token.Stated)
    (takes : token.kind.takesAlternative = true) : ∃ make, control? token = some make := by
  obtain ⟨kind, span, text, expr, children⟩ := token
  have asked := stated.asks takes
  cases expr with
  | none => cases asked
  | some expr => cases kind <;> first | exact ⟨_, rfl⟩ | cases takes

/-- The kind of a line, if alternatives may follow it. -/
def offering (kind : TokenKind) : Option TokenKind := if kind.takesAlternative then some kind else none

/-- Of the line before, only that is looked at. -/
theorem placed_offering {previous kind : TokenKind} (placed : misplaced? (some previous) kind = none) :
    misplaced? (offering previous) kind = none := by
  unfold offering
  split
  · exact placed
  · rename_i lone
    have first : kind ≠ .elseIfControl := fun is => lone (follows_of_placed placed (.inl is))
    have last : kind ≠ .elseControl := fun is => lone (follows_of_placed placed (.inr is))
    cases kind with
    | elseIfControl => exact absurd rfl first
    | elseControl => exact absurd rfl last
    | whenControl => cases placed
    | defaultControl => cases placed
    | _ => rfl

/-- An alternative goes with a line before it. -/
theorem ready_of_alternative {token : Token} {make : List Chunk → Chunk} {ready : Option TokenKind}
    (found : control? token = some make) (placed : misplaced? ready token.kind = none) (body : List Chunk)
    (alternative : (make body).isAlternative = true) : ready.isSome = true := by
  have follows := follows_of_placed placed (control_alternative found body alternative)
  cases ready with
  | none => cases follows
  | some => rfl

/-- A line of text is no alternative. -/
theorem kind_of_isTextLine {token : Token} (text : isTextLine token = true) : token.kind = .line := by
  unfold isTextLine at text
  exact beq_iff_eq.mp (Bool.and_eq_true_iff.mp text).1

/-- The lines nested in a statement are among those nested in its token. -/
theorem nestedLines_subset {token : Token} {make : List Chunk → Chunk}
    (found : control? token = some make) : nestedLines token.children ⊆ token.nested := by
  have other : token.kind ≠ .line := by
    intro line
    unfold control? at found
    rw [line] at found
    cases found
  rw [Token.nested, if_neg other]
  exact (List.dropWhile_suffix _).subset

theorem sizeOf_nestedLines_lt (token : Token) : sizeOf (nestedLines token.children) < sizeOf token := by
  obtain ⟨kind, span, text, expr, children⟩ := token
  have shorter := sizeOf_nestedLines_le children
  simp only [Token.mk.sizeOf_spec]
  omega

/-- A statement that is made from its body alone. -/
def controlling (fold : Expr → Option Value) (layout : Layout) (token : Token) : BuildM Unit :=
  match control? token with
  | none => pure ()
  | some make => do emit (make (← enclosed (block fold layout false none (nestedLines token.children))))

theorem statement_branch (fold : Expr → Option Value) (layout : Layout) {token : Token}
    (branch : token.kind = .whenControl ∨ token.kind = .defaultControl) :
    statement fold layout token = controlling fold layout token := by
  obtain ⟨kind, span, text, expr, children⟩ := token
  rcases branch with same | same <;>
  · dsimp only at same
    subst same
    unfold statement
    rfl

section

variable (sound : loom.Sound)
include sound

mutual

theorem block_woven {wide slim : Layout} (layouts : loom.layouts wide slim) (afterText : Bool)
    (previous : Option TokenKind) (lines : List Token) {others : List Token} (like : loom.Twins lines others)
    (fits : ∀ line ∈ lines, loom.fits line) {ready : Option TokenKind}
    (follows : ∀ {kind}, misplaced? previous kind = none → misplaced? ready kind = none) :
    loom.Weaves ready none (block loom.fold wide afterText previous lines)
      (block loom.other slim afterText previous others) := by
  cases lines with
  | nil =>
    cases like
    rw [block_nil, block_nil]
    exact Woven.pure.weaken fun _ _ => sound.unready
  | cons token rest =>
    cases like with
    | @cons _ twin _ others first further =>
      obtain ⟨fit, fitting⟩ := List.forall_mem_cons.mp fits
      have line {ready : Option TokenKind} (isText : Bool) (placed : misplaced? ready token.kind = none) :
          loom.Weaves ready none
            (do
              statement loom.fold wide token
              block loom.fold wide isText (some token.kind) rest)
            (do
              statement loom.other slim twin
              block loom.other slim isText (some token.kind) others) :=
        .bind (statement_woven layouts token first fit placed)
          (block_woven layouts isText (some token.kind) rest further fitting placed_offering)
      rw [block_cons, block_cons, first.kind, first.isTextLine]
      cases placed : misplaced? previous token.kind with
      | some fault => exact .throw (sound.fault fault first.placed)
      | none =>
        dsimp only
        split
        · rename_i text
          refine .bind (sound.parted layouts afterText) (line _ ?_)
          rw [kind_of_isTextLine text]
          rfl
        · exact line _ (follows placed)
termination_by 2 * sizeOf lines + 1

theorem controlling_woven {wide slim : Layout} (layouts : loom.layouts wide slim) (token : Token)
    {twin : Token} (like : Token.Like loom.spans loom.texts token twin) (fit : loom.fits token)
    {ready : Option TokenKind} (placed : misplaced? ready token.kind = none) :
    loom.Weaves ready (offering token.kind) (controlling loom.fold wide token)
      (controlling loom.other slim twin) := by
  have shorter := sizeOf_nestedLines_lt token
  unfold controlling
  rw [like.control?]
  cases found : control? token with
  | none =>
    have lone : offering token.kind = none := by
      unfold offering
      split
      · rename_i takes
        obtain ⟨make, stays⟩ := control_of_stated (sound.stated fit) takes
        rw [found] at stays
        cases stays
      · rfl
    rw [lone]
    exact Woven.pure.weaken fun _ _ => sound.unready
  | some make =>
    have inner : loom.Weaves none none (block loom.fold wide false none (nestedLines token.children))
        (block loom.other slim false none (nestedLines twin.children)) :=
      block_woven layouts false none _ (Token.Like.nestedLines like.children)
        (fun line member => sound.inner fit line (nestedLines_subset found member)) id
    have controlled := sound.controlled found placed inner
    unfold offering
    split
    · exact controlled
    · exact controlled.weaken fun _ _ => sound.unready
termination_by 2 * sizeOf token
decreasing_by omega

theorem statement_woven {wide slim : Layout} (layouts : loom.layouts wide slim) (token : Token)
    {twin : Token} (like : Token.Like loom.spans loom.texts token twin) (fit : loom.fits token)
    {ready : Option TokenKind} (placed : misplaced? ready token.kind = none) :
    loom.Weaves ready (offering token.kind) (statement loom.fold wide token)
      (statement loom.other slim twin) := by
  have controls := controlling_woven layouts token like fit placed
  cases like with
  | @intro kind span twin text other expr children others located named written tagged listed inner =>
    unfold statement
    cases kind with
    | line =>
      cases inner with
      | nil =>
        exact controls
      | @cons data _ nested _ first further =>
        exact (line_woven layouts data first nested further (sound.inner fit)).since fun _ _ => sound.unready
    | includeTarget =>
      obtain rfl := named rfl
      rw [sound.depth layouts]
      refine .since ?_ fun _ _ => sound.unready
      exact .bind (sound.noted _) (.bind (sound.begun layouts) (sound.put rfl))
    | doctype =>
      obtain rfl := named rfl
      exact sound.pushed (sound.plain _)
    | mixinControl =>
      cases expr with
      | none =>
        exact controls
      | some signature =>
        dsimp only
        cases signature.definedName? with
        | none => exact .throw (sound.fault _ located)
        | some name =>
          exact sound.shared name signature
            (block_woven layouts false none children inner (sound.inner fit) id)
    | caseControl =>
      cases expr with
      | none =>
        exact controls
      | some subject =>
        exact sound.chosen fit rfl subject (branches_woven layouts children inner (sound.inner fit))
    | _ =>
      exact controls
termination_by 2 * sizeOf token + 1
decreasing_by
  all_goals
    subst_vars
    try simp only [Token.mk.sizeOf_spec, List.cons.sizeOf_spec]
    omega

theorem branches_woven {wide slim : Layout} (layouts : loom.layouts wide slim) (lines : List Token)
    {others : List Token} (like : loom.Twins lines others) (fits : ∀ line ∈ lines, loom.fits line) :
    Woven loom.faults loom.branching loom.branching (branches loom.fold wide lines)
      (branches loom.other slim others) := by
  cases lines with
  | nil =>
    cases like
    unfold branches
    exact .pure
  | cons token rest =>
    cases like with
    | @cons _ twin _ others first more =>
      obtain ⟨fit, fitting⟩ := List.forall_mem_cons.mp fits
      have further := branches_woven layouts rest more fitting
      unfold branches
      dsimp only
      rw [first.kind]
      split
      · rename_i branch
        refine .bind ?_ further
        rw [statement_branch loom.fold wide branch,
          statement_branch loom.other slim (first.kind ▸ branch)]
        unfold controlling
        rw [first.control?]
        cases found : control? token with
        | none => exact .pure
        | some make =>
          have shorter := sizeOf_nestedLines_lt token
          have inner : loom.Weaves none none (block loom.fold wide false none (nestedLines token.children))
              (block loom.other slim false none (nestedLines twin.children)) :=
            block_woven layouts false none _ (Token.Like.nestedLines first.children)
              (fun line member => sound.inner fit line (nestedLines_subset found member)) id
          exact sound.branched found branch inner
      · exact .throw_bind (sound.fault _ first.placed)
termination_by 2 * sizeOf lines + 1
decreasing_by
  all_goals
    subst_vars
    simp only [List.cons.sizeOf_spec]
    omega

theorem line_woven {wide slim : Layout} (layouts : loom.layouts wide slim) (data : Token)
    {twin : Token} (like : Token.Like loom.spans loom.texts data twin) (nested : List Token)
    {others : List Token} (alike : loom.Twins nested others) (fits : ∀ line ∈ nested, loom.fits line) :
    loom.Weaves none none (line loom.fold wide data nested) (line loom.other slim twin others) := by
  have positive : 0 < sizeOf data := by
    cases data
    simp only [Token.mk.sizeOf_spec]
    omega
  have inner {wide slim : Layout} (layouts : loom.layouts wide slim) (afterText : Bool) :
      loom.Weaves none none (block loom.fold wide afterText none nested)
        (block loom.other slim afterText none others) :=
    block_woven layouts afterText none nested alike fits id
  obtain ⟨copy, same⟩ : ∃ copy, copy = data := ⟨data, rfl⟩
  rw [← same] at like ⊢
  have size := congrArg sizeOf same
  cases like with
  | @intro kind span twin text other expr parts inserts placed named written tagged _ like =>
    unfold line
    cases kind with
    | tagLine =>
      exact tag_woven layouts true placed parts like (tagged rfl) nested alike fits
    | textLine =>
      have texts := pieces_woven layouts parts like
      cases like with
      | nil => exact .bind (sound.pushed (written rfl)) (inner layouts true)
      | cons => exact .bind texts (inner layouts true)
    | pipedLine =>
      exact .bind (pieces_woven layouts parts like) (inner layouts true)
    | commentLine =>
      cases like with
      | nil => exact .pure
      | @cons mark _ parts _ first further =>
        dsimp only
        rw [first.kind]
        split
        · exact .pure
        · exact .bind (sound.begun layouts) (.bind (sound.pushed (sound.plain _))
            (.bind (pieces_woven layouts parts further)
              (.bind (inner (sound.packed layouts) true) (sound.pushed (sound.plain _)))))
    | dotLine =>
      exact inner layouts false
    | outputLine =>
      exact .bind (outputs_woven sound like) (inner layouts false)
    | codeLine =>
      exact .bind (statements_woven sound like) (inner layouts false)
    | codeBlock =>
      exact .bind (statements_woven sound like) (inner layouts false)
    | mixinCall =>
      obtain rfl := named rfl
      dsimp only
      rw [Token.Like.firstExpr like]
      exact .bind (sound.put rfl) (inner layouts false)
    | _ =>
      exact .pure
termination_by 2 * (sizeOf data + sizeOf nested) + 1
decreasing_by
  all_goals
    try simp only [Token.mk.sizeOf_spec, List.cons.sizeOf_spec] at size
    omega

theorem pieces_woven {wide slim : Layout} (layouts : loom.layouts wide slim) (parts : List Token)
    {others : List Token} (like : loom.Twins parts others) :
    loom.Weaves none none (pieces loom.fold wide parts) (pieces loom.other slim others) := by
  cases parts with
  | nil =>
    cases like
    unfold pieces
    exact .pure
  | cons part rest =>
    cases like with
    | @cons _ twin _ others first more =>
      have further := pieces_woven layouts rest more
      have one := outputs_woven sound (.cons first .nil)
      cases first with
      | @intro kind span twin text other expr inner inserts placed named written tagged _ like =>
        unfold pieces
        cases kind with
        | plainText =>
          exact .bind (sound.pushed (written rfl)) further
        | tagLine =>
          exact .bind (tag_woven layouts false placed inner like (tagged rfl) [] .nil nofun) further
        | escapedOutput =>
          exact .bind one further
        | rawOutput =>
          exact .bind one further
        | _ =>
          exact further
termination_by 2 * sizeOf parts + 1
decreasing_by
  all_goals
    subst_vars
    simp only [Token.mk.sizeOf_spec, List.cons.sizeOf_spec, List.nil.sizeOf_spec]
    omega

theorem tag_woven {wide slim : Layout} (layouts : loom.layouts wide slim) (ownLine : Bool)
    {span twin : Span} (placed : loom.spans span twin) (parts : List Token) {others : List Token}
    (like : loom.Twins parts others) (tagged : tagName others = tagName parts) (nested : List Token)
    {inserts : List Token} (alike : loom.Twins nested inserts) (fits : ∀ line ∈ nested, loom.fits line) :
    loom.Weaves none none (tag loom.fold wide ownLine span.start parts nested)
      (tag loom.other slim ownLine twin.start others inserts) := by
  have shorter := sizeOf_tail_le parts
  have positive := sizeOf_lines_pos parts
  have other := sizeOf_lines_pos nested
  have text := pieces_woven layouts parts.tail (Token.Like.tail like)
  have inner : loom.Weaves none none
      (block loom.fold { wide with depth := wide.depth + 1 } false none nested)
      (block loom.other { slim with depth := slim.depth + 1 } false none inserts) :=
    block_woven (sound.deeper layouts) false none nested alike fits id
  rw [tag_eq, tag_eq, tagged, Token.Like.shorthand like, Token.Like.any_kind like (· == .trailingSlash)]
  apply Woven.bind (sound.opened layouts ownLine _)
  apply Woven.bind (sound.pushed (sound.plain _))
  apply Woven.bind (sound.pushed (sound.plain _))
  apply Woven.bind (attributes_woven sound like)
  split
  · apply Woven.bind (sound.pushed (sound.plain _))
    rw [Token.Like.isEmpty alike]
    split
    · exact .throw (sound.fault _ placed)
    · exact .pure
  · exact .bind (sound.pushed (sound.plain _)) (.bind text (sound.nested layouts ownLine _ _ inner))
termination_by 2 * (sizeOf parts + sizeOf nested) + 1
decreasing_by all_goals omega

end

end

/-- The chunks of a template are those that its outermost body has when it ends. -/
theorem compile_eq (fold : Expr → Option Value) (pretty : Bool) (root : Token) :
    compile fold pretty root =
      (block fold { pretty, depth := 0 } false none root.children Builder.empty).map
        fun (_, builder) => (builder.chunks, builder.includes) := by
  unfold compile
  change ((do
    block fold { pretty, depth := 0 } false none root.children
    flush) Builder.empty >>= fun result => _) = _
  rw [build_bind_eq]
  cases block fold { pretty, depth := 0 } false none root.children Builder.empty with
  | error error => rfl
  | ok result =>
    obtain ⟨-, builder⟩ := result
    dsimp only
    rw [flush_eq]
    change Except.ok ((Folding.written builder.pending ++ builder.emitted).reverse, _) = _
    rw [List.reverse_append, reverse_written]
    rfl

end Building

end HtmlTemplate
