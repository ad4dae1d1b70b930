import HtmlTemplate.Proofs.Linking.Parts

/-! What is read into a list is what is read without one: lines of markup, which are completed once it is
known where they end, and statements. -/

namespace HtmlTemplate.Linking

open Slots Placed

variable {slots base middle : Slots} {data : Placed} {input start : Input}

/-! Lines of markup. -/

/-- What is on a line is put into the line when all of it has been read. -/
theorem complete_sows (parts : Parsed (List Token) start) (plants : Plants slots middle data) {kind : TokenKind}
    (is : data.kind = kind) (none : data.expr = none) (same : List.Forall₂ Matches data.parts parts.value) :
    Sows slots (.ok (Line.complete kind parts)) (complete data.place (parts.map fun _ => ()) middle) := by
  unfold complete
  apply spanning plants
  intro after spanned
  apply making
  intro after made
  apply puttingUnder spanned made
  intro after done
  refine .ok (Line.complete kind parts) done (.intro (.cons ?_ .nil))
  subst is
  rw [none]
  exact .intro same

theorem shallow_sows (slots : Slots) (kind : TokenKind) (start : Input)
    (read : Except LexError (Parsed (List Token) start)) (bare : Line.Yields (fun parts => ∀ part ∈ parts, Bare part) read) :
    Sows slots (read >>= fun parts => pure (Line.complete kind parts)) (shallow kind read slots) := by
  apply making
  intro after made
  apply lifted fun _ => .error
  intro parts done
  apply addingAll made (bare.of_eq done)
  intro more after grown all
  exact complete_sows _ grown rfl rfl all

theorem plain_sows (slots : Slots) (input : Input) : Sows slots (Line.readPlain input) (plain input slots) := by
  have sows : Sows slots (Inline.readText input >>= fun text => pure (Line.complete .textLine text))
      (plain input slots) := by
    apply making
    intro after made
    apply (text_adds made input).next fun _ => .error
    intro text more after grown all
    exact complete_sows _ grown rfl rfl all
  unfold Line.readPlain
  cases read : Inline.readText input <;> rw [read] at sows <;> exact sows

/-- A line of text after a mark. -/
theorem marked_sows (slots : Slots) (kind : TokenKind) {mark : Token} (bare : Bare mark) {later : Input}
    (reached : start.Reaches later) :
    Sows slots
      (Inline.readText later >>= fun text =>
        pure (Line.complete kind ((text.map (mark :: ·)).widen reached)))
      ((begin kind start >>= fun data => add data mark >>= fun _ => text data later >>= fun text =>
        complete data (text.widen reached)) slots) := by
  apply making
  intro after made
  apply adding made bare
  intro part after added same
  apply (text_adds added later).next fun _ => .error
  intro text more after grown all
  rw [addAll_addAll] at grown
  exact complete_sows ((text.map (mark :: ·)).widen reached) grown rfl rfl (.cons same all)

theorem comment_sows (slots : Slots) (input : Input) :
    Sows slots (Line.readComment input) (comment input slots) := by
  unfold Line.readComment comment
  refine branching (fun _ => ?_) fun _ => ?_
  · refine shallow_sows slots .commentLine input (.ok ⟨_, _, _⟩)
      (List.forall_mem_cons.mpr ⟨bare_between .templateComment input (input.advanceBy 3), ?_⟩)
    split
    · exact List.forall_mem_nil _
    · exact List.forall_mem_singleton.mpr (bare_between .plainText _ _)
  · exact marked_sows slots .commentLine (bare_between .htmlComment input _) _

theorem piped_sows (slots : Slots) (input : Input) : Sows slots (Line.readPiped input) (piped input slots) :=
  marked_sows slots .pipedLine (bare_between .pipeMark input input) _

theorem output_sows (slots : Slots) (markLength : Nat) (kind : TokenKind) (input : Input) :
    Sows slots (Line.readOutput markLength kind input) (output markLength kind input slots) := by
  have reached : input.Reaches (input.advanceBy markLength).skipSpacing :=
    (Input.reaches_advanceBy ..).trans (Input.reaches_skipSpacing _)
  let read : Except LexError (Parsed (List Token) input) :=
    if (input.advanceBy markLength).skipSpacing.atLineEnd then .ok ⟨[], _, reached⟩
    else do
      let output ← Embedded.read .output .outputLine (input.advanceBy markLength).skipSpacing
      if output.rest.atLineEnd then return (output.map fun output => [output.token kind]).widen reached
      else .error ⟨.afterExpr .outputLine, output.rest.pos⟩
  have bare : Line.Yields (fun parts => ∀ part ∈ parts, Bare part) read := by
    unfold read
    split
    · exact List.forall_mem_nil _
    · apply Line.Yields.bind
      intro output _
      split
      · exact List.forall_mem_singleton.mpr rfl
      · trivial
  have same : Line.readOutput markLength kind input =
      (read >>= fun parts => pure (Line.complete .outputLine parts)) := by
    unfold Line.readOutput read
    dsimp only
    split
    · rfl
    · rw [bind_assoc]
      congr 1
      funext output
      split <;> rfl
  rw [same]
  exact shallow_sows slots .outputLine input read bare

theorem code_sows (slots : Slots) (lineStart input : Input) :
    Sows slots (Line.readCode lineStart input) (code lineStart input slots) := by
  have bare {place : Input} {read : Except LexError (Parsed (List Token) place)}
      (coded : Line.Yields Code.Coded read) : Line.Yields (fun parts => ∀ part ∈ parts, Bare part) read := by
    cases read with
    | error => trivial
    | ok parts => exact fun part member => (coded part member).leaf
  unfold Line.readCode code
  refine branching (fun _ => ?_) fun _ => ?_
  · have sows := shallow_sows slots .codeBlock input (do
      let block ← Code.readBlock (Line.outerIndent lineStart input) none input.advance
      return block.widen (Input.reaches_advance _))
      (.widen _ (bare (Code.readBlock_coded _ _ _)))
    rwa [bind_assoc] at sows
  · have sows := shallow_sows slots .codeLine input (do
      let statements ← Code.readStatements .inline .codeLine input.advance
      return statements.widen (Input.reaches_advance _))
      (.widen _ (bare (Code.readStatements_coded _ _ _)))
    rwa [bind_assoc] at sows

theorem readArguments_bare (input : Input) :
    Line.Yields (fun parts => ∀ part ∈ parts, Bare part) (Line.readArguments input) := by
  unfold Line.readArguments
  split
  · cases Embedded.read .inline .mixinCall input with
    | error error => trivial
    | ok arguments => exact List.forall_mem_singleton.mpr rfl
  · exact List.forall_mem_nil _

theorem mixinCall_sows (slots : Slots) (input : Input) :
    Sows slots (Line.readMixinCall input) (mixinCall input slots) := by
  unfold Line.readMixinCall mixinCall
  refine branching (fun _ => .error) fun _ => ?_
  apply making
  intro after made
  apply lifted fun _ => .error
  intro arguments read
  apply addingAll made ((readArguments_bare _).of_eq read)
  intro more after grown all
  refine branching (fun _ => ?_) fun _ => .error
  simp only [complete, bind_assoc]
  apply spanning grown
  intro after spanned
  apply making
  intro after line
  apply puttingUnder spanned line
  intro after done
  rw [pure_bind, bind_ok (setSpan_eq ..)]
  exact .ok ⟨_, _, _⟩ (done.setSpanIn rfl _) (.intro (.cons (.intro all) .nil))

/-! Statements. -/

/-- A part whose parts have none of their own. -/
def Shallow (token : Token) : Prop := ∀ part ∈ token.children, Bare part

theorem statement_sows (slots : Slots) (read : Except LexError (Parsed Token start))
    (shallow : Line.Yields Shallow read) : Sows slots read (statement read slots) := by
  unfold statement
  cases done : read with
  | error => exact .error
  | ok token =>
    rw [bind_ok (lift_ok rfl)]
    unfold whole
    simp only [bind_assoc, pure_bind]
    apply making
    intro after made
    apply addingAll made (shallow.of_eq done)
    intro more after grown all
    exact .ok _ grown (matches_of_parts all _)

theorem readStatement_shallow (kind : TokenKind) (start input : Input) :
    Line.Yields Shallow (Line.readStatement kind start input) := by
  apply Line.Yields.bind
  intro expr _
  split
  · exact List.forall_mem_nil _
  · trivial

theorem readEach_shallow (start input : Input) : Line.Yields Shallow (Line.readEach start input) := by
  unfold Line.readEach
  dsimp only
  split
  · trivial
  · apply Line.Yields.bind
    intro second read
    have further := (Line.readSecondVariable_named _).of_eq read
    split
    · apply Line.Yields.bind
      intro source _
      exact List.forall_mem_cons.mpr ⟨rfl, fun named member => (further named member).2⟩
    · trivial

theorem readKeyword_shallow (keyword : Line.Keyword) (start input : Input) :
    Line.Yields Shallow (Line.readKeyword keyword start input) := by
  cases keyword with
  | includeTarget =>
    unfold Line.readKeyword
    dsimp only
    split
    · trivial
    · exact List.forall_mem_nil _
  | doctype => exact List.forall_mem_nil _
  | mixin =>
    apply Line.Yields.bind
    intro definition read
    have shallow := (readStatement_shallow _ start input).of_eq read
    split
    · exact shallow
    · trivial
  | statement kind => exact readStatement_shallow kind start input
  | each => exact readEach_shallow start input

theorem readElseIf_shallow (start input : Input) : Line.Yields Shallow (Line.readElseIf start input) := by
  unfold Line.readElseIf
  dsimp only
  split
  · trivial
  · exact .widen _ (readStatement_shallow _ _ _)

theorem readAlone_shallow (kind : TokenKind) (fault : LexFault) (start stop input : Input) :
    Line.Yields Shallow (Line.readAlone kind fault start stop input) := by
  unfold Line.readAlone
  split
  · exact List.forall_mem_nil _
  · trivial

/-! Tags, and lines of any kind. -/

theorem afterName_adds (plants : Plants base slots data) (input : Input) :
    Adds base data id (Line.readAfterName input) (afterName data.place input slots) := by
  unfold Line.readAfterName afterName
  refine branching (fun _ => ?_) fun _ => tagParts_adds plants false input
  have adds := (text_adds plants input.skipSpacing).widen (Input.reaches_skipSpacing input)
  cases read : Inline.readText input.skipSpacing <;> rw [read] at adds <;> exact adds

theorem word_sows (slots : Slots) (input : Input) : Sows slots (Line.readWord input) (word input slots) := by
  unfold Line.readWord word
  dsimp only
  generalize (if (input.dropWhile CharClass.isTagWord).isClass CharClass.isSpacing then
    Line.Keyword.table.lookup (String.ofList (input.takeWhile CharClass.isTagWord)) else none) = keyword
  cases keyword with
  | some keyword => exact .widen _ (statement_sows slots _ (readKeyword_shallow keyword input _))
  | none =>
    refine branching (fun _ => ?elseIf) fun _ => branching (fun _ => ?alone) fun _ =>
      branching (fun _ => ?default) fun _ => branching (fun _ => ?doctype) fun _ => ?tag
    case elseIf => exact .widen _ (statement_sows slots _ (readElseIf_shallow input _))
    case alone => exact .widen _ (statement_sows slots _ (readAlone_shallow _ _ _ _ _))
    case default => exact .widen _ (statement_sows slots _ (readAlone_shallow _ _ _ _ _))
    case doctype => exact statement_sows slots (.ok _) (List.forall_mem_nil _)
    case tag =>
      apply making
      intro after made
      apply adding made (bare_between .tag input _)
      intro name after added same
      apply (afterName_adds added _).next fun _ => .error
      intro parts more after grown all
      rw [addAll_addAll] at grown
      exact complete_sows ((parts.map (_ :: ·)).widen _) grown rfl rfl (.cons same all)

theorem nameless_sows (slots : Slots) (input : Input) :
    Sows slots (Line.readNameless input) (nameless input slots) := by
  apply making
  intro after made
  apply adding made (bare_between .tag input input)
  intro name after added same
  apply (tagParts_adds added false input).next fun _ => .error
  intro parts more after grown all
  rw [addAll_addAll] at grown
  exact complete_sows (parts.map (_ :: ·)) grown rfl rfl (.cons same all)

theorem line_sows (slots : Slots) (lineStart input : Input) :
    Sows slots (Line.read lineStart input) (line lineStart input slots) := by
  unfold Line.read line
  refine branching (fun _ => comment_sows slots input) fun _ => ?_
  refine branching (fun _ => word_sows slots input) fun _ => ?_
  refine branching (fun _ => nameless_sows slots input) fun _ => ?_
  refine branching (fun _ => ?dot) fun _ => ?_
  case dot =>
    exact shallow_sows slots .dotLine input (.ok ⟨_, _, _⟩)
      (List.forall_mem_singleton.mpr (bare_between .trailingDot input _))
  refine branching (fun _ => piped_sows slots input) fun _ => ?_
  refine branching (fun _ => output_sows slots 1 .escapedOutput input) fun _ => ?_
  refine branching (fun _ => output_sows slots 2 .rawOutput input) fun _ => ?_
  refine branching (fun _ => code_sows slots lineStart input) fun _ => ?_
  refine branching (fun _ => mixinCall_sows slots input) fun _ => ?_
  refine branching (fun _ => ?raw) fun _ => .error
  exact shallow_sows slots .textLine input (.ok ⟨[], _, _⟩) (List.forall_mem_nil _)

end HtmlTemplate.Linking
