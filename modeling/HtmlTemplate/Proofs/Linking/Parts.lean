import HtmlTemplate.Proofs.Content.Shapes
import HtmlTemplate.Proofs.Linking.Trees
import HtmlTemplate.Token.Linking

/-! What is read into a list is what is read without one, and it fails with the same faults: the parts of
tags and of texts. -/

namespace HtmlTemplate.Linking

open Slots Placed

variable {α β γ : Type} {slots base middle after : Slots} {data : Placed} {input start : Input}

/-- What reads a part into a list does the same as what reads it alone. -/
inductive Sows (slots : Slots) :
    Except LexError (Parsed Token input) → Except LexError (Parsed Nat input × Slots) → Prop where
  | ok (parsed : Parsed Token input) {after : Slots} {tree : Placed} (plants : Plants slots after tree)
      (same : tree.Matches parsed.value) : Sows slots (.ok parsed) (.ok (parsed.map fun _ => tree.place, after))
  | error {error : LexError} : Sows slots (.error error) (.error error)

/-- What reads parts into a tree does the same as what reads them alone. The parts are made of what is
read. -/
inductive Adds (base : Slots) (data : Placed) (parts : α → List Token) :
    Except LexError (Parsed α input) → Except LexError (Parsed Unit input × Slots) → Prop where
  | ok (parsed : Parsed α input) {after : Slots} {more : List Placed}
      (plants : Plants base after (data.addAll more)) (same : List.Forall₂ Matches more (parts parsed.value)) :
      Adds base data parts (.ok parsed) (.ok (parsed.map fun _ => (), after))
  | error {error : LexError} : Adds base data parts (.error error) (.error error)

/-! One thing after the other. -/

theorem addAll_addAll (tree : Placed) (first second : List Placed) :
    (tree.addAll first).addAll second = tree.addAll (first ++ second) := by
  unfold addAll
  rw [List.append_assoc]

theorem addAll_nil (tree : Placed) : tree.addAll [] = tree := by
  unfold addAll
  rw [List.append_nil]
  cases tree
  rfl

theorem bind_ok {first : LinkM α} {next : α → LinkM β} {value : α} (done : first slots = .ok (value, after)) :
    (first >>= next) slots = next value after := by
  change (first slots >>= fun result => next result.1 result.2) = _
  rw [done]
  rfl

theorem bind_error {first : LinkM α} {next : α → LinkM β} {error : LexError} (failed : first slots = .error error) :
    (first >>= next) slots = .error error := by
  change (first slots >>= fun result => next result.1 result.2) = _
  rw [failed]
  rfl

theorem lift_ok {read : Except LexError α} {value : α} (done : read = .ok value) :
    (liftM read : LinkM α) slots = .ok (value, slots) := by
  rw [done]
  rfl

theorem lift_error {read : Except LexError α} {error : LexError} (failed : read = .error error) :
    (liftM read : LinkM α) slots = .error error := by
  rw [failed]
  rfl

section

variable {related : Except LexError α → Except LexError (β × Slots) → Prop}

/-- Both go on in the same way. -/
theorem branching {condition : Prop} [Decidable condition]
    {result other : Except LexError α} {fill fillOther : LinkM β}
    (holds : condition → related result (fill slots)) (fails : ¬condition → related other (fillOther slots)) :
    related (if condition then result else other) ((if condition then fill else fillOther) slots) := by
  by_cases is : condition
  · rw [if_pos is, if_pos is]
    exact holds is
  · rw [if_neg is, if_neg is]
    exact fails is

section

variable (fails : ∀ error, related (.error error) (.error error))
include fails

/-- What is read without a list is the same for both. -/
theorem lifted {read : Except LexError γ} {next : γ → Except LexError α} {fillNext : γ → LinkM β}
    (goesOn : ∀ value, read = .ok value → related (next value) (fillNext value slots)) :
    related (read >>= next) ((liftM read >>= fillNext) slots) := by
  cases done : read with
  | error error =>
    rw [bind_error (lift_error rfl)]
    exact fails error
  | ok value =>
    rw [bind_ok (lift_ok rfl)]
    exact goesOn value done

theorem Sows.next {read : Except LexError (Parsed Token input)} {fill : LinkM (Parsed Nat input)}
    {next : Parsed Token input → Except LexError α} {fillNext : Parsed Nat input → LinkM β}
    (sows : Sows slots read (fill middle))
    (goesOn : ∀ parsed tree after, Plants slots after tree → tree.Matches parsed.value →
      related (next parsed) (fillNext (parsed.map fun _ => tree.place) after)) :
    related (read >>= next) ((fill >>= fillNext) middle) := by
  generalize done : fill middle = result at sows
  cases sows with
  | error =>
    rw [bind_error done]
    exact fails _
  | ok _ plants same =>
    rw [bind_ok done]
    exact goesOn _ _ _ plants same

theorem Adds.next {parts : γ → List Token} {read : Except LexError (Parsed γ input)}
    {fill : LinkM (Parsed Unit input)} {next : Parsed γ input → Except LexError α}
    {fillNext : Parsed Unit input → LinkM β} (adds : Adds base data parts read (fill slots))
    (goesOn : ∀ parsed more after, Plants base after (data.addAll more) →
      List.Forall₂ Matches more (parts parsed.value) →
      related (next parsed) (fillNext (parsed.map fun _ => ()) after)) :
    related (read >>= next) ((fill >>= fillNext) slots) := by
  generalize done : fill slots = result at adds
  cases adds with
  | error =>
    rw [bind_error done]
    exact fails _
  | ok _ plants same =>
    rw [bind_ok done]
    exact goesOn _ _ _ plants same

end

end

theorem Sows.widen {later : Input} (reached : start.Reaches later) {read : Except LexError (Parsed Token later)}
    {fill : LinkM (Parsed Nat later)} (sows : Sows slots read (fill middle)) :
    Sows slots (read >>= fun parsed => pure (parsed.widen reached))
      ((fill >>= fun filled => pure (filled.widen reached)) middle) :=
  sows.next (fun _ => .error) fun parsed _ _ plants same => .ok (parsed.widen reached) plants same

theorem Adds.widen {later : Input} (reached : start.Reaches later) {parts : α → List Token}
    {read : Except LexError (Parsed α later)} {fill : LinkM (Parsed Unit later)}
    (adds : Adds base data parts read (fill slots)) :
    Adds base data parts (read >>= fun parsed => pure (parsed.widen reached))
      ((fill >>= fun filled => pure (filled.widen reached)) slots) :=
  adds.next (fun _ => .error) fun parsed _ _ plants same => .ok (parsed.widen reached) plants same

/-- Nothing is read that is a part. -/
theorem Adds.none {parts : α → List Token} (parsed : Parsed α input) (plants : Plants base slots data)
    (none : parts parsed.value = []) : Adds base data parts (.ok parsed) (.ok (parsed.map fun _ => (), slots)) :=
  .ok parsed ((addAll_nil data).symm ▸ plants) (none.symm ▸ .nil)

/-! Parts without parts of their own. -/

theorem alloc_eq (kind : TokenKind) (span : Span) (expr : Option Expr) (slots : Slots) :
    alloc kind span expr slots = .ok (slots.length, slots ++ [.lone kind span expr]) :=
  rfl

theorem append_eq (parent child : Nat) (slots : Slots) :
    append parent child slots = .ok ((), slots.append parent child) :=
  rfl

theorem setSpan_eq (place : Nat) (span : Span) (slots : Slots) :
    setSpan place span slots = .ok ((), slots.setSpan place span) :=
  rfl

theorem add_eq (parent : Nat) (part : Token) (slots : Slots) :
    add parent part slots =
      .ok ((), (slots ++ [Slot.lone part.kind part.span part.expr]).append parent slots.length) :=
  rfl

/-- A part with nothing in it. -/
def Bare (token : Token) : Prop := token.children = []

theorem matches_of_parts {token : Token} {parts : List Placed} (same : List.Forall₂ Matches parts token.children)
    (place : Nat) : Matches ⟨place, token.kind, token.span, token.expr, parts⟩ token := by
  cases token
  exact .intro same

theorem Bare.leaf {token : Token} (bare : Bare token) (place : Nat) :
    Matches (.leaf place token.kind token.span token.expr) token :=
  matches_of_parts (bare.symm ▸ .nil) place

theorem bare_between (kind : TokenKind) (first last : Input) : Bare (.between kind first last) := rfl

/-- Adding a part with nothing in it to a tree. -/
theorem add_plants (plants : Plants base slots data) {part : Token} (bare : Bare part) :
    ∃ after more, add data.place part slots = .ok ((), after) ∧ Plants base after (data.addAll [more]) ∧
      Matches more part :=
  ⟨_, .leaf slots.length part.kind part.span part.expr, add_eq ..,
    plants.addAll (.alloc slots part.kind part.span part.expr), bare.leaf _⟩

theorem forM_add_plants (plants : Plants base slots data) {parts : List Token} (bare : ∀ part ∈ parts, Bare part) :
    ∃ after more, parts.forM (add data.place) slots = .ok ((), after) ∧ Plants base after (data.addAll more) ∧
      List.Forall₂ Matches more parts := by
  induction parts generalizing slots data with
  | nil => exact ⟨slots, [], rfl, (addAll_nil data).symm ▸ plants, .nil⟩
  | cons part rest step =>
    obtain ⟨first, others⟩ := List.forall_mem_cons.mp bare
    obtain ⟨middle, leaf, added, grown, same⟩ := add_plants plants first
    obtain ⟨after, more, done, whole, all⟩ := step grown others
    rw [addAll_addAll] at whole
    exact ⟨after, leaf :: more, (bind_ok added).trans done, whole, .cons same all⟩

section

variable {related : Except LexError α → Except LexError (β × Slots) → Prop}
  {result : Except LexError α}

/-- A part is added to a tree, and reading goes on. -/
theorem adding (plants : Plants base slots data) {part : Token} (bare : Bare part) {next : Unit → LinkM β}
    (goesOn : ∀ more after, Plants base after (data.addAll [more]) → Matches more part →
      related result (next () after)) :
    related result ((add data.place part >>= next) slots) := by
  obtain ⟨after, more, done, grown, same⟩ := add_plants plants bare
  rw [bind_ok done]
  exact goesOn more after grown same

theorem addingAll (plants : Plants base slots data) {parts : List Token} (bare : ∀ part ∈ parts, Bare part)
    {next : PUnit → LinkM β}
    (goesOn : ∀ more after, Plants base after (data.addAll more) → List.Forall₂ Matches more parts →
      related result (next ⟨⟩ after)) :
    related result ((parts.forM (add data.place) >>= next) slots) := by
  obtain ⟨after, more, done, grown, same⟩ := forM_add_plants plants bare
  rw [bind_ok done]
  exact goesOn more after grown same

/-- A part is made, and reading goes on. -/
theorem making (kind : TokenKind) (span : Span) (expr : Option Expr) {next : Nat → LinkM β}
    (goesOn : ∀ after, Plants slots after (.leaf slots.length kind span expr) →
      related result (next slots.length after)) :
    related result ((alloc kind span expr >>= next) slots) := by
  rw [bind_ok (alloc_eq kind span expr slots)]
  exact goesOn _ (.alloc slots kind span expr)

/-- A tree is put into one that has been made before it. -/
theorem putting {tree : Placed} (plants : Plants base middle data)
    (more : Plants middle slots tree) {next : Unit → LinkM β}
    (goesOn : ∀ after, Plants base after (data.addAll [tree]) → related result (next () after)) :
    related result ((append data.place tree.place >>= next) slots) := by
  rw [bind_ok (append_eq data.place tree.place slots)]
  exact goesOn _ (plants.addAll more)

/-- A tree is put into one that has been made after it. -/
theorem puttingUnder {tree : Placed} (plants : Plants base middle tree)
    (more : Plants middle slots data) {next : Unit → LinkM β}
    (goesOn : ∀ after, Plants base after (data.addAll [tree]) → related result (next () after)) :
    related result ((append data.place tree.place >>= next) slots) := by
  rw [bind_ok (append_eq data.place tree.place slots)]
  exact goesOn _ (plants.addUnder more)

theorem spanning (plants : Plants base slots data) (span : Span) {next : Unit → LinkM β}
    (goesOn : ∀ after, Plants base after { data with span } → related result (next () after)) :
    related result ((setSpan data.place span >>= next) slots) := by
  rw [bind_ok (setSpan_eq data.place span slots)]
  exact goesOn _ (plants.setSpan span)

end

/-! Attributes. -/

theorem readQuoted_bare (quote : Char) (start : Nat) (input : Input) :
    Line.Yields (fun parts => ∀ part ∈ parts, Bare part) (Attribute.readQuoted quote start input) := by
  have piece (input stop : Input) : ∀ part ∈ (if stop.pos = input.pos then [] else
      [Token.between .plainText input stop]), Bare part := by
    split
    · exact List.forall_mem_nil _
    · exact List.forall_mem_singleton.mpr (bare_between _ _ _)
  fun_induction Attribute.readQuoted quote start input with
  | case1 => trivial
  | case2 input => exact piece input _
  | case3 => trivial
  | case4 input stop _ pieces char rest _ _ _ escaped next _ step =>
    apply Line.Yields.bind
    intro more read
    exact List.forall_mem_append.mpr ⟨piece input _,
      List.forall_mem_cons.mpr ⟨bare_between _ escaped next, step.of_eq read⟩⟩

theorem readName_shallow (input : Input) :
    Line.Yields (fun name => (name.kind = .attributeName ∧ name.expr = none) ∧
      ∀ part ∈ name.children, Bare part) (Attribute.readName input) := by
  unfold Attribute.readName
  split
  · trivial
  · split
    · have bare := readQuoted_bare ‹Char› input.pos input.advance
      cases read : Attribute.readQuoted ‹Char› input.pos input.advance with
      | error => trivial
      | ok pieces =>
        rw [read] at bare
        exact ⟨⟨rfl, rfl⟩, bare⟩
    · dsimp only
      split
      · trivial
      · exact ⟨⟨rfl, rfl⟩, List.forall_mem_singleton.mpr (bare_between _ _ _)⟩

theorem attributeName_sows (slots : Slots) (input : Input) :
    Sows slots (Attribute.readName input) (attributeName input slots) := by
  have shallow := readName_shallow input
  unfold attributeName
  apply making
  intro after plants
  cases read : Attribute.readName input with
  | error error =>
    rw [bind_error (lift_error rfl)]
    exact .error
  | ok name =>
    rw [read] at shallow
    obtain ⟨⟨kind, expr⟩, bare⟩ := shallow
    rw [bind_ok (lift_ok rfl)]
    apply addingAll plants bare
    intro more after grown same
    apply spanning grown
    intro after done
    refine .ok _ done ?_
    cases name with
    | mk value rest reached =>
      cases value
      cases kind
      cases expr
      exact .intro same

theorem attributeValue_sows {name : Token} {tree : Placed} (plants : Plants slots middle tree)
    (named : tree.Matches name) (kind : TokenKind) (start input : Input) :
    Sows slots (Attribute.readValue kind start name input) (attributeValue kind start tree.place input middle) := by
  unfold Attribute.readValue attributeValue
  apply lifted fun _ => .error
  intro value _
  apply making
  intro after made
  apply puttingUnder plants made
  intro after put
  apply adding put (show Bare (value.value.token .attributeValue) from rfl)
  intro more after grown same
  exact .ok _ grown (.intro (.cons named (.cons same .nil)))

theorem attributePair_sows (slots : Slots) (input : Input) :
    Sows slots (Attribute.readPair input) (attributePair input slots) := by
  unfold Attribute.readPair attributePair
  apply (attributeName_sows slots input).next fun _ => .error
  intro name tree after plants same
  dsimp only [Parsed.map]
  split
  · exact .widen _ (attributeValue_sows plants same _ _ _)
  · split
    · exact .widen _ (attributeValue_sows plants same _ _ _)
    · split
      · apply making
        intro after made
        apply puttingUnder plants made
        intro after put
        exact .ok _ put (.intro (.cons same .nil))
      · exact .error

theorem attributePairs_adds (input : Input) (plants : Plants base slots data) :
    Adds base data id (Attribute.readPairs input) (attributePairs data.place input slots) := by
  fun_induction Attribute.readPairs input generalizing slots data with
  | case1 input ends =>
    rw [attributePairs, if_pos ends]
    exact .none (.here input []) plants rfl
  | case2 input more step =>
    rw [attributePairs, if_neg more]
    apply (attributePair_sows slots input).next fun _ => .error
    intro pair tree after planted same
    apply putting plants planted
    intro after put
    apply (step pair put).next fun _ => .error
    intro rest others after grown all
    rw [addAll_addAll] at grown
    exact .ok ((rest.map (pair.value :: ·)).widen _) grown (.cons same all)

theorem attributeList_sows (slots : Slots) (input : Input) :
    Sows slots (Attribute.readList input) (attributeList input slots) := by
  unfold Attribute.readList attributeList
  apply making
  intro after made
  apply (attributePairs_adds _ made).next fun _ => .error
  intro pairs more after grown same
  dsimp only [Parsed.map]
  split
  · apply spanning grown
    intro after done
    exact .ok ⟨_, _, _⟩ done (.intro same)
  · exact .error

/-! Text that is held back until it is known where it ends. -/

def Held.pieces (held : Held) : List Piece := held.toList.map fun text => .literal text.1 text.2

def Held.parts (held : Held) : List Token := held.pieces.map Piece.token

/-- The parts that text consists of if some text is held back before it. -/
def partsAfter (held : Held) (pieces : List Piece) : List Token :=
  (Piece.join (held.pieces ++ pieces)).map Piece.token

/-- Puts a literal before pieces of which no two touch. -/
def glue (pos : Nat) (chars : List Char) : List Piece → List Piece
  | .literal next more :: joined =>
    if pos + byteLength chars = next then .literal pos (chars ++ more) :: joined
    else .literal pos chars :: .literal next more :: joined
  | joined => .literal pos chars :: joined

theorem join_literal (pos : Nat) (chars : List Char) (rest : List Piece) :
    Piece.join (.literal pos chars :: rest) = glue pos chars (Piece.join rest) := by
  rw [Piece.join]
  rcases Piece.join rest with _ | ⟨_ | _, _⟩ <;> rfl

theorem glue_touching (begun : Nat) (text chars : List Char) (joined : List Piece) :
    glue begun text (glue (begun + byteLength text) chars joined) = glue begun (text ++ chars) joined := by
  have total : begun + byteLength (text ++ chars) = begun + byteLength text + byteLength chars := by
    rw [byteLength_append, Nat.add_assoc]
  rcases joined with _ | ⟨⟨next, more⟩ | token, joined⟩
  · simp only [glue, if_true]
  · by_cases touch : begun + byteLength text + byteLength chars = next
    · simp only [glue, total, touch, if_true, List.append_assoc]
    · simp only [glue, total, touch, if_true, if_false]
  · simp only [glue, if_true]

theorem glue_apart {begun pos : Nat} {text : List Char} (apart : begun + byteLength text ≠ pos)
    (chars : List Char) (joined : List Piece) :
    glue begun text (glue pos chars joined) = .literal begun text :: glue pos chars joined := by
  rcases joined with _ | ⟨⟨next, more⟩ | token, joined⟩
  · simp only [glue, if_neg apart]
  · by_cases touch : pos + byteLength chars = next
    · simp only [glue, touch, apart, if_true, if_false]
    · simp only [glue, touch, apart, if_false]
  · simp only [glue, if_neg apart]

theorem join_touching (begun : Nat) (text chars : List Char) (rest : List Piece) :
    Piece.join (.literal begun text :: .literal (begun + byteLength text) chars :: rest) =
      Piece.join (.literal begun (text ++ chars) :: rest) := by
  rw [join_literal, join_literal, join_literal, glue_touching]

theorem join_apart {begun pos : Nat} {text : List Char} (apart : begun + byteLength text ≠ pos)
    (chars : List Char) (rest : List Piece) :
    Piece.join (.literal begun text :: .literal pos chars :: rest) =
      .literal begun text :: Piece.join (.literal pos chars :: rest) := by
  rw [join_literal, join_literal, glue_apart apart]

theorem partsAfter_nil (held : Held) : partsAfter held [] = held.parts := by
  cases held <;> rfl

theorem partsAfter_part (held : Held) (token : Token) (rest : List Piece) :
    partsAfter held (.part token :: rest) = held.parts ++ token :: partsAfter none rest := by
  cases held <;> rfl

section

variable {related : Except LexError α → Except LexError (β × Slots) → Prop} {result : Except LexError α}

/-- What is held back is added to a tree, and reading goes on. -/
theorem flushing (plants : Plants base slots data) (held : Held) {next : Unit → LinkM β}
    (goesOn : ∀ more after, Plants base after (data.addAll more) → List.Forall₂ Matches more held.parts →
      related result (next () after)) :
    related result ((flush data.place held >>= next) slots) := by
  cases held with
  | none => exact goesOn [] slots ((addAll_nil data).symm ▸ plants) .nil
  | some text =>
    apply adding plants (show Bare (Piece.literal text.1 text.2).token from rfl)
    intro more after grown same
    exact goesOn [more] after grown (.cons same .nil)

/-- More text is held back, and reading goes on. What was held may have to be added first. -/
theorem holding (plants : Plants base slots data) (held : Held) (pos : Nat) (chars : List Char)
    {next : Held → LinkM β}
    (goesOn : ∀ (held' : Held) parts more after, Plants base after (data.addAll more) →
      List.Forall₂ Matches more parts →
      (∀ rest, partsAfter held (.literal pos chars :: rest) = parts ++ partsAfter held' rest) →
      related result (next held' after)) :
    related result ((hold data.place held pos chars >>= next) slots) := by
  have stays : Plants base slots (data.addAll []) := (addAll_nil data).symm ▸ plants
  cases held with
  | none => exact goesOn (some (pos, chars)) [] [] slots stays .nil fun rest => rfl
  | some text =>
    obtain ⟨begun, text⟩ := text
    by_cases touch : begun + byteLength text = pos
    · rw [show hold data.place (some (begun, text)) pos chars = pure (some (begun, text ++ chars)) from
        if_pos touch]
      refine goesOn (some (begun, text ++ chars)) [] [] slots stays .nil fun rest => ?_
      subst touch
      exact congrArg (List.map Piece.token) (join_touching begun text chars rest)
    · rw [show hold data.place (some (begun, text)) pos chars =
        (flush data.place (some (begun, text)) >>= fun _ => pure (some (pos, chars))) from if_neg touch,
        bind_assoc]
      apply flushing plants (some (begun, text))
      intro more after grown same
      refine goesOn (some (pos, chars)) _ more after grown same fun rest => ?_
      exact congrArg (List.map Piece.token) (join_apart touch chars rest)

end

/-! Parts that have none of their own. -/

theorem readOutput_bare (kind : TokenKind) (input : Input) : Line.Yields Bare (Inline.readOutput kind input) := by
  apply Line.Yields.bind
  intro output _
  split
  · rfl
  · trivial

theorem readAttributeExpr_bare (input : Input) : Line.Yields Bare (Inline.readAttributeExpr input) := by
  unfold Inline.readAttributeExpr
  split
  · trivial
  · apply Line.Yields.bind
    intro expr _
    split
    · rfl
    · trivial

theorem readAfterMark_bare (bracketed : Bool) (kind : TokenKind) (input : Input) :
    Line.Yields (fun parts => ∀ part ∈ parts, Bare part) (Inline.readAfterMark bracketed kind input) := by
  unfold Inline.readAfterMark
  split
  · exact List.forall_mem_nil _
  · split
    · trivial
    · apply Line.Yields.bind
      intro output _
      split
      · exact List.forall_mem_singleton.mpr rfl
      · trivial

/-! Text and tags. -/

/-- Text is put into a tree as the parts that it consists of, together with what is held back before it. -/
def TextLinked : Inline.OfText := fun bracketed input read =>
  ∀ (held : Held) {base slots : Slots} {data : Placed}, Plants base slots data →
    Adds base data (partsAfter held) read (pieces bracketed data.place held input slots)

def TagLinked : Inline.OfTag := fun start input read => ∀ slots, Sows slots read (bracketedTag start input slots)

def PartsLinked : Inline.OfParts := fun bracketed input read =>
  ∀ {base slots : Slots} {data : Placed}, Plants base slots data →
    Adds base data id read (tagParts bracketed data.place input slots)

section

variable {bracketed : Bool}

theorem text_ended (ended : Inline.ends bracketed input = true) :
    TextLinked bracketed input (.ok (.here input [])) := by
  intro held base slots data plants
  rw [pieces, ended, if_pos rfl, dite_eq_ite, ite_self]
  apply flushing plants held
  intro more after grown same
  exact .ok (.here input []) grown ((partsAfter_nil held).symm ▸ same)

/-- A literal before text that is read into a tree. -/
theorem literal_adds {later : Input} (reached : input.Reaches later) (plants : Plants base slots data) (held : Held)
    (pos : Nat) (chars : List Char) (step : TextLinked bracketed later (Inline.readPieces bracketed later)) :
    Adds base data (partsAfter held)
      ((Inline.readPieces bracketed later).map fun more => (more.map (.literal pos chars :: ·)).widen reached)
      ((hold data.place held pos chars >>= fun held => pieces bracketed data.place held later >>= fun more =>
        pure (more.widen reached)) slots) := by
  rw [← Inline.map_eq_bind]
  apply holding plants held
  intro held' parts before after added sameBefore written
  apply (step held' added).next fun _ => .error
  intro rest others after grown sameRest
  rw [addAll_addAll] at grown
  refine .ok ((rest.map (.literal pos chars :: ·)).widen reached) grown ?_
  exact written _ ▸ List.rel_append sameBefore sameRest

/-- A part before text that is read into a tree. What was held back stands before the part. -/
theorem part_adds {later : Input} (reached : input.Reaches later) {held : Held} {before : List Placed}
    {part : Placed} {token : Token} (sameBefore : List.Forall₂ Matches before held.parts) (same : part.Matches token)
    (plants : Plants base slots ((data.addAll before).addAll [part]))
    (step : TextLinked bracketed later (Inline.readPieces bracketed later)) :
    Adds base data (partsAfter held)
      ((Inline.readPieces bracketed later).map fun more => (more.map (.part token :: ·)).widen reached)
      ((pieces bracketed data.place none later >>= fun more => pure (more.widen reached)) slots) := by
  rw [← Inline.map_eq_bind]
  apply (step none plants).next fun _ => .error
  intro rest others after grown sameRest
  rw [addAll_addAll, addAll_addAll] at grown
  refine .ok ((rest.map (.part token :: ·)).widen _) grown ?_
  exact partsAfter_part held _ _ ▸ List.rel_append sameBefore (.cons same sameRest)

section

variable (goesOn : Inline.ends bracketed input = false)
include goesOn

theorem text_escaped (reached : input.Reaches (Inline.afterEscape input)) (escapes : input.isAt '\\' = true)
    (step : TextLinked bracketed (Inline.afterEscape input)
      (Inline.readPieces bracketed (Inline.afterEscape input))) :
    TextLinked bracketed input ((Inline.readPieces bracketed (Inline.afterEscape input)).map fun more =>
      (more.map (Inline.escapePiece input :: ·)).widen reached) := by
  intro held base slots data plants
  have filled : pieces bracketed data.place held input = (do
      let held ← if Inline.startsMark input.advance then
          hold data.place held input.advance.pos (input.advance.rest.take 2)
        else hold data.place held input.pos (input.rest.take 2)
      let more ← pieces bracketed data.place held (Inline.afterEscape input)
      return more.widen reached) := by
    rw [pieces, dif_neg (by rw [Inline.atEnd_of_ends goesOn]; decide), if_neg (by rw [goesOn]; decide),
      if_pos escapes]
    rfl
  rw [filled]
  unfold Inline.escapePiece
  by_cases mark : Inline.startsMark input.advance = true
  · simp only [mark, if_true]
    exact literal_adds reached plants held _ _ step
  · simp only [mark]
    exact literal_adds reached plants held _ _ step

variable (unescaped : input.isAt '\\' = false)
include unescaped

theorem text_output {kind : TokenKind}
    (reached : ∀ output : Parsed Token (input.advanceBy 2), input.Reaches output.rest)
    (found : Inline.outputMark? input = some kind)
    (step : ∀ output : Parsed Token (input.advanceBy 2),
      TextLinked bracketed output.rest (Inline.readPieces bracketed output.rest)) :
    TextLinked bracketed input (Inline.readOutput kind (input.advanceBy 2) >>= fun output =>
      (Inline.readPieces bracketed output.rest).map fun more =>
        (more.map (.part output.value :: ·)).widen (reached output)) := by
  intro held base slots data plants
  rw [pieces, dif_neg (by rw [Inline.atEnd_of_ends goesOn]; decide), if_neg (by rw [goesOn]; decide),
    if_neg (by rw [unescaped]; decide)]
  simp only [found]
  apply flushing plants held
  intro before after flushed sameBefore
  apply lifted fun _ => .error
  intro output read
  apply adding flushed ((readOutput_bare _ _).of_eq read)
  intro part after added samePart
  exact part_adds (reached output) sameBefore samePart added (step output)

variable (unmarked : Inline.outputMark? input = none)
include unmarked

theorem text_nested (reached : ∀ tag : Parsed Token (input.advanceBy 2), input.Reaches tag.rest)
    (opens : input.startsWith ['#', '['] = true)
    (first : TagLinked input (input.advanceBy 2) (Inline.readBracketedTag input (input.advanceBy 2)))
    (step : ∀ tag : Parsed Token (input.advanceBy 2),
      TextLinked bracketed tag.rest (Inline.readPieces bracketed tag.rest)) :
    TextLinked bracketed input (Inline.readBracketedTag input (input.advanceBy 2) >>= fun tag =>
      (Inline.readPieces bracketed tag.rest).map fun more =>
        (more.map (.part tag.value :: ·)).widen (reached tag)) := by
  intro held base slots data plants
  rw [pieces, dif_neg (by rw [Inline.atEnd_of_ends goesOn]; decide), if_neg (by rw [goesOn]; decide),
    if_neg (by rw [unescaped]; decide)]
  simp only [unmarked, opens, if_true]
  apply flushing plants held
  intro before after flushed sameBefore
  apply (first after).next fun _ => .error
  intro tag tree after planted samePart
  apply putting flushed planted
  intro after added
  exact part_adds (reached tag) sameBefore samePart added (step tag)

theorem text_char (untagged : input.startsWith ['#', '['] = false)
    (step : TextLinked bracketed input.advance (Inline.readPieces bracketed input.advance)) :
    TextLinked bracketed input ((Inline.readPieces bracketed input.advance).map fun more =>
      (more.map (.literal input.pos (input.rest.take 1) :: ·)).widen (Input.reaches_advance input)) := by
  intro held base slots data plants
  rw [pieces, dif_neg (by rw [Inline.atEnd_of_ends goesOn]; decide), if_neg (by rw [goesOn]; decide),
    if_neg (by rw [unescaped]; decide)]
  simp only [unmarked, untagged, Bool.false_eq_true, if_false]
  exact literal_adds _ plants held _ _ step

end

theorem tag_linked
    (reached : ∀ parts : Parsed (List Token) (input.dropWhile CharClass.isTagWord), input.Reaches parts.rest.advance)
    (step : PartsLinked true (input.dropWhile CharClass.isTagWord)
      (Inline.readTagParts true (input.dropWhile CharClass.isTagWord))) :
    TagLinked start input (Inline.readTagParts true (input.dropWhile CharClass.isTagWord) >>= fun parts =>
      if parts.rest.isAt ']' then
        .ok ⟨Inline.bracketedToken start input parts.rest.advance parts.value, parts.rest.advance, reached parts⟩
      else .error ⟨.inlineTag, input.pos⟩) := by
  intro slots
  rw [bracketedTag]
  apply making
  intro after made
  apply adding made (bare_between .tag input (input.dropWhile CharClass.isTagWord))
  intro name after added same
  apply (step added).next fun _ => .error
  intro parts more after grown all
  rw [addAll_addAll] at grown
  refine branching (fun _ => ?_) fun _ => .error
  apply spanning grown
  intro after done
  exact .ok ⟨_, _, _⟩ done (.intro (.cons same all))

/-! The parts of tags. -/

theorem parts_closed (closed : input.atEnd = true ∨ input.isAt ':' = true) :
    PartsLinked bracketed input (.ok (.here input [])) := by
  intro base slots data plants
  have filled : tagParts bracketed data.place input = pure (.here input ()) := by
    rw [tagParts, dite_eq_ite]
    split
    · rfl
    · rw [if_pos (closed.resolve_left ‹_›)]
  rw [filled]
  exact .none (.here input []) plants rfl

/-- Parts before those that are read into a tree. -/
theorem further_adds {later : Input} (reached : input.Reaches later) {first : List Placed} {tokens : List Token}
    (same : List.Forall₂ Matches first tokens) (plants : Plants base slots (data.addAll first))
    (step : PartsLinked bracketed later (Inline.readTagParts bracketed later)) :
    Adds base data id ((Inline.readTagParts bracketed later).map fun more => (more.map (tokens ++ ·)).widen reached)
      ((tagParts bracketed data.place later >>= fun more => pure (more.widen reached)) slots) := by
  rw [← Inline.map_eq_bind]
  apply (step plants).next fun _ => .error
  intro rest others after grown sameRest
  rw [addAll_addAll] at grown
  exact .ok ((rest.map (tokens ++ ·)).widen reached) grown (List.rel_append same sameRest)

theorem parts_dot (reached : input.Reaches input.advance) (dot : Inline.EndsInDot input) :
    PartsLinked bracketed input
      (.ok ⟨[.between .trailingDot input input.advance], input.advance, reached⟩) := by
  intro base slots data plants
  rw [tagParts, dif_neg (Inline.not_atEnd_of_isAt dot.1), if_neg (Inline.not_isAt dot.1 rfl), if_pos (.inl dot.1),
    if_pos (And.intro dot.1 dot.2)]
  apply adding plants (bare_between .trailingDot input input.advance)
  intro part after added same
  exact .ok ⟨_, _, _⟩ added (.cons same .nil)

theorem parts_note (reached : input.Reaches (Inline.afterNote input))
    (marked : input.isAt '.' = true ∨ input.isAt '#' = true) (more : ¬Inline.EndsInDot input)
    (step : PartsLinked bracketed (Inline.afterNote input)
      (Inline.readTagParts bracketed (Inline.afterNote input))) :
    PartsLinked bracketed input ((Inline.readTagParts bracketed (Inline.afterNote input)).map fun more =>
      (more.map (Inline.notes input ++ ·)).widen reached) := by
  intro base slots data plants
  have apart : ¬input.atEnd = true ∧ ¬input.isAt ':' = true := by
    rcases marked with found | found
    · exact ⟨Inline.not_atEnd_of_isAt found, Inline.not_isAt found rfl⟩
    · exact ⟨Inline.not_atEnd_of_isAt found, Inline.not_isAt found rfl⟩
  have noted (kind : TokenKind) :
      Adds base data id ((Inline.readTagParts bracketed (Inline.afterNote input)).map fun more =>
          (more.map ([Token.between kind input.advance (Inline.afterNote input)] ++ ·)).widen reached)
        ((add data.place (.between kind input.advance (Inline.afterNote input)) >>= fun _ =>
          tagParts bracketed data.place (Inline.afterNote input) >>= fun more => pure (more.widen reached)) slots) := by
    apply adding plants (bare_between kind input.advance (Inline.afterNote input))
    intro part after added same
    exact further_adds reached (.cons same .nil) added step
  rw [tagParts, dif_neg apart.1, if_neg apart.2, if_pos marked,
    if_neg (show ¬(_ ∧ _ ∧ _) from more)]
  unfold Inline.notes
  cases input.isAt '#' with
  | true => exact noted .idNote
  | false =>
    cases input.advance.isClass CharClass.isTagWord with
    | true => exact noted .classNote
    | false => exact further_adds reached .nil ((addAll_nil data).symm ▸ plants) step

theorem parts_list (reached : ∀ list : Parsed Token input.advance, input.Reaches list.rest)
    (opens : input.isAt '(' = true)
    (step : ∀ list : Parsed Token input.advance,
      PartsLinked bracketed list.rest (Inline.readTagParts bracketed list.rest)) :
    PartsLinked bracketed input (Attribute.readList input.advance >>= fun list =>
      (Inline.readTagParts bracketed list.rest).map fun more =>
        (more.map (list.value :: ·)).widen (reached list)) := by
  intro base slots data plants
  have unmarked : ¬(input.isAt '.' = true ∨ input.isAt '#' = true) :=
    not_or.mpr ⟨Inline.not_isAt opens rfl, Inline.not_isAt opens rfl⟩
  rw [tagParts, dif_neg (Inline.not_atEnd_of_isAt opens), if_neg (Inline.not_isAt opens rfl), if_neg unmarked,
    if_pos opens]
  apply (attributeList_sows slots _).next fun _ => .error
  intro list tree after planted same
  apply putting plants planted
  intro after added
  exact further_adds (reached list) (.cons same .nil) added (step list)

theorem parts_expr (reached : ∀ expr : Parsed Token input.advance, input.Reaches expr.rest)
    (ampersand : input.isAt '&' = true)
    (step : ∀ expr : Parsed Token input.advance,
      PartsLinked bracketed expr.rest (Inline.readTagParts bracketed expr.rest)) :
    PartsLinked bracketed input (Inline.readAttributeExpr input >>= fun expr =>
      (Inline.readTagParts bracketed expr.rest).map fun more =>
        (more.map (expr.value :: ·)).widen (reached expr)) := by
  intro base slots data plants
  have unmarked : ¬(input.isAt '.' = true ∨ input.isAt '#' = true) :=
    not_or.mpr ⟨Inline.not_isAt ampersand rfl, Inline.not_isAt ampersand rfl⟩
  rw [tagParts, dif_neg (Inline.not_atEnd_of_isAt ampersand), if_neg (Inline.not_isAt ampersand rfl),
    if_neg unmarked, if_neg (Inline.not_isAt ampersand rfl), if_pos ampersand]
  apply lifted fun _ => .error
  intro expr read
  apply adding plants ((readAttributeExpr_bare _).of_eq read)
  intro part after added same
  exact further_adds (reached expr) (.cons same .nil) added (step expr)

/-- Where no note, list or expression begins, there is an end mark or text. -/
theorem tagParts_ordinary (ordinary : Inline.Ordinary input) (place : Nat) :
    tagParts bracketed place input =
      match marked : Inline.endMark? input with
      | some (kind, next) => do
        add place (Token.between kind input next)
        let after ← Inline.readAfterMark bracketed kind next.skipSpacing
        after.value.forM (add place)
        return (after.map fun _ => ()).widen
          ((Inline.reaches_of_endMark? marked).trans (Input.reaches_skipSpacing _))
      | none => do
        let text ← pieces bracketed place none input.skipSpacing
        return text.widen (Input.reaches_skipSpacing _) := by
  obtain ⟨more, plain⟩ := ordinary
  simp only [List.forall_mem_cons] at plain
  obtain ⟨colon, dot, sharp, opens, ampersand, -⟩ := plain
  rw [tagParts, more, colon, dot, sharp, opens, ampersand]
  rfl

theorem parts_mark {kind : TokenKind} {next : Input} (reached : input.Reaches next.skipSpacing)
    (ordinary : Inline.Ordinary input) (found : Inline.endMark? input = some (kind, next)) :
    PartsLinked bracketed input ((Inline.readAfterMark bracketed kind next.skipSpacing).map fun after =>
      (after.map (Token.between kind input next :: ·)).widen reached) := by
  intro base slots data plants
  rw [tagParts_ordinary ordinary, ← Inline.map_eq_bind]
  split
  · rename_i mark
    cases found.symm.trans mark
    apply adding plants (bare_between kind input next)
    intro part added grown same
    apply lifted fun _ => .error
    intro after read
    apply addingAll grown ((readAfterMark_bare _ _ _).of_eq read)
    intro parts done whole all
    rw [addAll_addAll] at whole
    exact .ok ((after.map (Token.between kind input next :: ·)).widen reached) whole (.cons same all)
  · rename_i mark
    cases found.symm.trans mark

theorem parts_text (reached : input.Reaches input.skipSpacing) (ordinary : Inline.Ordinary input)
    (unmarked : Inline.endMark? input = none)
    (step : TextLinked bracketed input.skipSpacing (Inline.readPieces bracketed input.skipSpacing)) :
    PartsLinked bracketed input ((Inline.readPieces bracketed input.skipSpacing).map fun text =>
      (text.map fun pieces => (Piece.join pieces).map Piece.token).widen reached) := by
  intro base slots data plants
  rw [tagParts_ordinary ordinary, ← Inline.map_eq_bind]
  split
  · rename_i mark
    cases unmarked.symm.trans mark
  · apply (step none plants).next fun _ => .error
    intro text parts after grown all
    exact .ok ((text.map fun pieces => (Piece.join pieces).map Piece.token).widen reached) grown all

end

theorem readers_linked : Inline.Cases TextLinked TagLinked PartsLinked where
  ended := text_ended
  escaped reached goesOn escapes step := text_escaped goesOn reached escapes step
  output reached goesOn unescaped found step := text_output goesOn unescaped reached found step
  nested reached goesOn unescaped unmarked opens first step :=
    text_nested goesOn unescaped unmarked reached opens first step
  char := text_char
  tag := tag_linked
  closed := parts_closed
  dot := parts_dot
  note := parts_note
  list := parts_list
  expr := parts_expr
  mark := parts_mark
  text := parts_text

theorem tagParts_adds (plants : Plants base slots data) (bracketed : Bool) (input : Input) :
    Adds base data id (Inline.readTagParts bracketed input) (tagParts bracketed data.place input slots) :=
  readers_linked.read.2.2 bracketed input plants

/-- Text is put into a tree as the parts that it consists of. -/
theorem text_adds (plants : Plants base slots data) (input : Input) :
    Adds base data id (Inline.readText input) (text data.place input slots) := by
  have adds := readers_linked.read.1 false input none plants
  unfold Inline.readText text
  generalize Inline.readPieces false input = read at adds ⊢
  generalize pieces false data.place none input slots = filled at adds ⊢
  cases adds with
  | error => exact .error
  | ok parsed grown all => exact .ok (parsed.map _) grown all

end HtmlTemplate.Linking
