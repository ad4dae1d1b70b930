import Mathlib.Data.List.DropRight
import HtmlTemplate.Proofs.Offsets.Expressions
import HtmlTemplate.Proofs.Reading.Inline
import HtmlTemplate.Token.Code
import HtmlTemplate.Token.Inline

/-! Where the parts of a line stand: each between two places of the source, with what is written there for
its text. A reader that fails reports a place, too. -/

namespace HtmlTemplate

namespace Input

/-- In a text that is read, a place is known by its offset. -/
theorem Reaches.unique {origin first second : Input} (reached : origin.Reaches first)
    (other : origin.Reaches second) (same : first.pos = second.pos) : first = second := by
  obtain ⟨read, rest, pos⟩ := reached
  obtain ⟨more, moreRest, morePos⟩ := other
  have lengths : byteLength read = byteLength more := by omega
  have positive (text : List Char) (none : byteLength text = 0) : text = [] := by
    cases text with
    | nil => rfl
    | cons char text =>
      have wide := Char.utf8Size_pos char
      simp only [byteLength] at none
      omega
  have equal : read = more := by
    have prefixes : read ++ first.rest = more ++ second.rest := rest.symm.trans moreRest
    rcases List.append_eq_append_iff.mp prefixes with ⟨between, rfl, -⟩ | ⟨between, rfl, -⟩
    all_goals
      rw [byteLength_append] at lengths
      rw [positive between (by omega), List.append_nil]
  rw [rest, equal] at moreRest
  cases first
  cases second
  exact congrArg₂ Input.mk same (List.append_cancel_left moreRest)

/-- A text with which what is left begins ends at a place. -/
theorem reaches_of_prefix {input : Input} {text : List Char} (begins : text <+: input.rest) :
    ∃ place, input.Reaches place ∧ place.pos = input.pos + byteLength text ∧
      input.textTo place.pos = text := by
  obtain ⟨rest, split⟩ := begins
  have reached : input.Reaches ⟨input.pos + byteLength text, rest⟩ := ⟨text, split.symm, rfl⟩
  exact ⟨_, reached, rfl, textTo_of_reaches split.symm reached⟩

theorem textTo_prefix {input place : Input} (reached : input.Reaches place) :
    input.textTo place.pos <+: input.rest := by
  obtain ⟨read, rest, pos⟩ := reached
  rw [textTo_of_reaches rest ⟨read, rest, pos⟩, rest]
  exact List.prefix_append ..

end Input

theorem Blank.stripEnd_prefix (class? : Char → Bool) (text : List Char) : stripEnd class? text <+: text :=
  List.rdropWhile_prefix ..

namespace Token

/-- A part stands between two places of what is left of a source, and its text is what is written there. -/
def Stands (origin : Input) (token : Token) : Prop :=
  ∃ first last, origin.Reaches first ∧ first.Reaches last ∧ token.span = ⟨first.pos, last.pos⟩ ∧
    token.text = String.ofList (first.textTo last.pos)

/-- A part and all parts in it stand in the source. -/
inductive Fits (origin : Input) : Token → Prop where
  | intro {token : Token} (stands : Stands origin token) (parts : ∀ part ∈ token.children, Fits origin part) :
      Fits origin token

/-- Some parts stand in the source, with all that is in them. -/
abbrev FitAll (origin : Input) (parts : List Token) : Prop := ∀ part ∈ parts, Fits origin part

variable {origin : Input} {token : Token} {parts : List Token}

namespace Fits

theorem stands (fits : Fits origin token) : Stands origin token := by
  cases fits
  assumption

theorem inner (fits : Fits origin token) : FitAll origin token.children := by
  cases fits
  assumption

theorem withChildren (fits : Fits origin token) (all : FitAll origin parts) :
    Fits origin (token.withChildren parts) :=
  .intro fits.stands all

theorem addChildren (fits : Fits origin token) (more : FitAll origin parts) :
    Fits origin (token.addChildren parts) :=
  .intro fits.stands (List.forall_mem_append.mpr ⟨fits.inner, more⟩)

end Fits

theorem fits_between {first last : Input} (begun : origin.Reaches first) (reached : first.Reaches last)
    (kind : TokenKind) : Fits origin (between kind first last) :=
  .intro ⟨first, last, begun, reached, rfl, rfl⟩ (List.forall_mem_nil _)

theorem fits_mark {place : Input} (reached : origin.Reaches place) (kind : TokenKind) :
    Fits origin (mark kind place) :=
  fits_between reached (.refl place) kind

end Token

namespace Offsets

open Token

/-- What is read is good, or the fault is reported at a place that comes after another one. -/
abbrev Settles {α : Type} (origin : Input) (good : α → Prop) (read : Except LexError α) : Prop :=
  Reading.Outcome good (fun error => origin.Ahead error.offset) read

theorem Settles.fault {α : Type} {origin : Input} {good : α → Prop} {place : Input} (reached : origin.Reaches place)
    (fault : LexFault) : Settles origin good (.error ⟨fault, place.pos⟩) :=
  reached.ahead

variable {origin : Input}

/-- What is read is a part, or parts, that stand in the source. -/
abbrev Part {input : Input} (origin : Input) (parsed : Parsed Token input) : Prop := Fits origin parsed.value

abbrev Parts {input : Input} (origin : Input) (parsed : Parsed (List Token) input) : Prop :=
  FitAll origin parsed.value

/-! Expressions. -/

/-- An expression ends at a place, and its text is what is written up to there. -/
def Spelled {input : Input} (parsed : Parsed Embedded input) : Prop :=
  ∃ last, input.Reaches last ∧ parsed.value.span = ⟨input.pos, last.pos⟩ ∧
    parsed.value.text = String.ofList (input.textTo last.pos)

theorem embedded_settles (options : ParseOptions) (place : ExprPlace) {input : Input}
    (reached : origin.Reaches input) :
    Settles origin Spelled (Embedded.read options place input) := by
  have tells := parseFrom_tells options reached
  unfold Embedded.read
  split
  · rename_i failed
    exact (tells.of_eq failed).1
  · rename_i parsed _
    have begins := (Blank.stripEnd_prefix CharClass.isSpacing _).trans (Input.textTo_prefix parsed.reached)
    obtain ⟨last, lastReached, pos, text⟩ := Input.reaches_of_prefix begins
    exact ⟨last, lastReached, by rw [pos], by rw [text]⟩

theorem Spelled.fits {input : Input} {parsed : Parsed Embedded input} (spelled : Spelled parsed)
    (reached : origin.Reaches input) (kind : TokenKind) : Fits origin (parsed.value.token kind) := by
  obtain ⟨last, lastReached, span, text⟩ := spelled
  exact .intro ⟨input, last, reached, lastReached, span, text⟩ (List.forall_mem_nil _)

/-! Attributes. -/

theorem readQuoted_settles (quote : Char) {start : Nat} (begun : origin.Ahead start) (input : Input)
    (reached : origin.Reaches input) :
    Settles origin (Parts origin) (Attribute.readQuoted quote start input) := by
  have piece (stop : Input) (stopReached : input.Reaches stop) :
      FitAll origin (if stop.pos = input.pos then [] else [Token.between .plainText input stop]) := by
    split
    · exact List.forall_mem_nil _
    · exact List.forall_mem_singleton.mpr (fits_between reached stopReached _)
  fun_induction Attribute.readQuoted quote start input with
  | case1 => exact begun
  | case2 input stop stopReached pieces => exact piece stop stopReached
  | case3 => exact begun
  | case4 input stop stopReached pieces char rest _ _ _ escaped next nextReached step =>
    have later := reached.trans stopReached
    have escapedReached := later.trans (Input.reaches_advance stop)
    have nextFits := fits_between escapedReached (Input.reaches_advance escaped) .plainText
    refine .bind (step (later.trans nextReached) ?_) fun more fits => ?_
    · intro stop stopReached
      split
      · exact List.forall_mem_nil _
      · exact List.forall_mem_singleton.mpr (fits_between (later.trans nextReached) stopReached _)
    · exact List.forall_mem_append.mpr ⟨piece stop stopReached, List.forall_mem_cons.mpr ⟨nextFits, fits⟩⟩

theorem readName_settles {input : Input} (reached : origin.Reaches input) :
    Settles origin (Part origin) (Attribute.readName input) := by
  have advanced := reached.trans (Input.reaches_advance input)
  unfold Attribute.readName
  split
  · exact Settles.fault reached _
  · split
    · refine .map (readQuoted_settles _ reached.ahead input.advance advanced) fun pieces fits => ?_
      exact (fits_between reached ((Input.reaches_advance input).trans pieces.reached) _).withChildren fits
    · dsimp only
      split
      · exact Settles.fault reached _
      · have named := (Input.reaches_advance input).trans (Input.reaches_advanceBy
          (Attribute.bareLength (input.takeWhile CharClass.isAttrWord)
            (input.advanceBy (input.takeWhile CharClass.isAttrWord).length) - 1) input.advance)
        exact (fits_between reached named _).withChildren
          (List.forall_mem_singleton.mpr (fits_between reached named _))

theorem readValue_settles (kind : TokenKind) {start input : Input} (begun : origin.Reaches start)
    {name : Token} (named : Fits origin name) (reached : start.Reaches input) :
    Settles origin (Part origin) (Attribute.readValue kind start name input) := by
  refine .bind (embedded_settles .inline .attributeValue (begun.trans reached)) fun value spelled => ?_
  have valued := spelled.fits (begun.trans reached) .attributeValue
  obtain ⟨last, lastReached, span, -⟩ := spelled
  refine .intro ⟨start, last, begun, reached.trans lastReached, ?_, ?_⟩
    (List.forall_mem_cons.mpr ⟨named, List.forall_mem_singleton.mpr valued⟩)
  · exact congrArg (fun span : Span => (⟨start.pos, span.stop⟩ : Span)) span
  · exact congrArg (fun span : Span => String.ofList (start.textTo span.stop)) span

theorem readPair_settles {input : Input} (reached : origin.Reaches input) :
    Settles origin (Part origin) (Attribute.readPair input) := by
  refine .bind (readName_settles reached) fun name named => ?_
  have nameReached := (Input.reaches_advance input).trans name.reached
  dsimp only
  split
  · exact .bind (readValue_settles _ reached named (nameReached.trans (Input.reaches_advanceBy ..)))
      fun _ fits => fits
  · split
    · exact .bind (readValue_settles _ reached named (nameReached.trans (Input.reaches_advance _)))
        fun _ fits => fits
    · split
      · exact (fits_between reached nameReached _).withChildren (List.forall_mem_singleton.mpr named)
      · exact Settles.fault (reached.trans nameReached) _

theorem readPairs_settles (input : Input) (reached : origin.Reaches input) :
    Settles origin (Parts origin) (Attribute.readPairs input) := by
  fun_induction Attribute.readPairs input with
  | case1 => exact List.forall_mem_nil _
  | case2 input _ step =>
    refine .bind (readPair_settles reached) fun pair first => ?_
    have later := reached.trans ((Input.reaches_advance input).trans pair.reached)
    refine .bind (step pair (later.trans (Attribute.reaches_skipSeparator _))) fun more fits => ?_
    exact List.forall_mem_cons.mpr ⟨first, fits⟩

theorem readList_settles {input : Input} (reached : origin.Reaches input) :
    Settles origin (Part origin) (Attribute.readList input) := by
  have spaced := Input.reaches_skipWhitespace input
  refine .bind (readPairs_settles _ (reached.trans spaced)) fun pairs fits => ?_
  have listed := spaced.trans pairs.reached
  split
  · exact (fits_between reached listed _).withChildren fits
  · exact Settles.fault (reached.trans listed) _

/-! Text and tags. -/

/-- A piece of text is written at its place, or is a part that stands in the source. -/
def Written (origin : Input) : Piece → Prop
  | .literal pos chars => ∃ place, origin.Reaches place ∧ place.pos = pos ∧ chars <+: place.rest
  | .part token => Fits origin token

/-- Pieces that touch are written one after the other. -/
theorem written_touching {pos : Nat} {chars more : List Char} (first : Written origin (.literal pos chars))
    (second : Written origin (.literal (pos + byteLength chars) more)) :
    Written origin (.literal pos (chars ++ more)) := by
  obtain ⟨place, reached, rfl, begins⟩ := first
  obtain ⟨other, otherReached, otherPos, continues⟩ := second
  obtain ⟨after, split⟩ := begins
  have passed : place.Reaches ⟨place.pos + byteLength chars, after⟩ := ⟨chars, split.symm, rfl⟩
  have meets : other = ⟨place.pos + byteLength chars, after⟩ :=
    otherReached.unique (reached.trans passed) otherPos
  rw [meets] at continues
  refine ⟨place, reached, rfl, ?_⟩
  rw [← split]
  exact (List.prefix_append_right_inj chars).mpr continues

theorem Written.fits {piece : Piece} (written : Written origin piece) : Fits origin piece.token := by
  cases piece with
  | part token => exact written
  | literal pos chars =>
    obtain ⟨place, reached, rfl, begins⟩ := written
    obtain ⟨last, lastReached, lastPos, text⟩ := Input.reaches_of_prefix begins
    refine .intro ⟨place, last, reached, lastReached, ?_, ?_⟩ (List.forall_mem_nil _)
    · exact congrArg (Span.mk place.pos) lastPos.symm
    · exact congrArg String.ofList text.symm

theorem written_take {input : Input} (reached : origin.Reaches input) (count : Nat) :
    Written origin (.literal input.pos (input.rest.take count)) :=
  ⟨input, reached, rfl, List.take_prefix ..⟩

theorem readOutput_settles (kind : TokenKind) {input : Input} (reached : origin.Reaches input) :
    Settles origin (Part origin) (Inline.readOutput kind input) := by
  refine .bind (embedded_settles .inline .interpolation reached) fun output spelled => ?_
  split
  · exact spelled.fits reached kind
  · exact Settles.fault reached _

theorem readTagOutput_settles (bracketed : Bool) (kind : TokenKind) {input : Input}
    (reached : origin.Reaches input) :
    Settles origin (Parts origin) (Inline.readTagOutput bracketed kind input) := by
  refine .bind (embedded_settles .output .tagOutput reached) fun output spelled => ?_
  split
  · exact List.forall_mem_singleton.mpr (spelled.fits reached _)
  · exact Settles.fault (reached.trans output.reached) _

theorem readAfterMark_settles (bracketed : Bool) (kind : TokenKind) {input : Input}
    (reached : origin.Reaches input) :
    Settles origin (Parts origin) (Inline.readAfterMark bracketed kind input) := by
  unfold Inline.readAfterMark
  split
  · exact List.forall_mem_nil _
  · split
    · exact Settles.fault reached _
    · exact readTagOutput_settles bracketed kind reached

theorem readAttributeExpr_settles {input : Input} (reached : origin.Reaches input) :
    Settles origin (Part origin) (Inline.readAttributeExpr input) := by
  unfold Inline.readAttributeExpr
  split
  · exact Settles.fault reached _
  · rename_i next found
    have nextReached := reached.trans ((Input.reaches_advance input).trans (Input.reaches_of_eatWord? found))
    refine .bind (embedded_settles .inline .attributes nextReached) fun expr spelled => ?_
    split
    · exact spelled.fits nextReached _
    · exact Settles.fault (nextReached.trans expr.reached) _

theorem leaves_settle :
    Inline.Leaves origin.Reaches (fun error => origin.Ahead error.offset) (Written origin) (Fits origin) where
  later := Input.Reaches.trans
  fault _ reached := reached.ahead
  escaped reached _ := by
    unfold Inline.escapePiece
    split
    · exact written_take (reached.trans (Input.reaches_advance _)) 2
    · exact written_take reached 2
  char reached _ := written_take reached 1
  touching := written_touching
  nested fits := fits
  token := Written.fits
  output reached _ := readOutput_settles _ reached
  tag begun reached stopped fits := (fits_between begun (reached.trans stopped) _).withChildren
    (List.forall_mem_cons.mpr ⟨fits_between (begun.trans reached) (Input.reaches_dropWhile ..) _, fits⟩)
  mark begun reached _ := fits_between begun reached _
  list := readList_settles
  expr := readAttributeExpr_settles
  afterMark := readAfterMark_settles _ _

theorem readTagParts_settles (bracketed : Bool) {input : Input} (reached : origin.Reaches input) :
    Settles origin (Parts origin) (Inline.readTagParts bracketed input) :=
  leaves_settle.readTagParts bracketed reached

theorem readText_settles {input : Input} (reached : origin.Reaches input) :
    Settles origin (Parts origin) (Inline.readText input) :=
  leaves_settle.readText reached

/-! Code. -/

theorem readStatements_settles (options : ParseOptions) (place : ExprPlace) (input : Input)
    (reached : origin.Reaches input) :
    Settles origin (Parts origin) (Code.readStatements options place input) := by
  fun_induction Code.readStatements options place input with
  | case1 => exact List.forall_mem_nil _
  | case2 input start startReached blank step =>
    have begun := reached.trans startReached
    refine .bind (embedded_settles options place begun) fun statement spelled => ?_
    have first := spelled.fits begun .code
    have later := begun.trans statement.reached
    split
    · refine .bind (step statement ‹_› (later.trans (Input.reaches_advance _))) fun more fits => ?_
      exact List.forall_mem_cons.mpr ⟨first, fits⟩
    · split
      · exact List.forall_mem_singleton.mpr first
      · exact Settles.fault later _

theorem readBlock_settles (outer : List Char) (indent : Option (List Char)) (input : Input)
    (reached : origin.Reaches input) :
    Settles origin (Parts origin) (Code.readBlock outer indent input) := by
  fun_induction Code.readBlock outer indent input with
  | case1 => exact List.forall_mem_nil _
  | case2 indent input start found spacing block _ continuation step =>
    have begun := reached.trans ((Code.passes_of_nextLine? found).1.trans
      (Input.reaches_advanceBy block.length start))
    refine .bind (readStatements_settles _ _ _ begun) fun line first => ?_
    refine .bind (step line (begun.trans line.reached)) fun more fits => ?_
    exact List.forall_mem_append.mpr ⟨first, fits⟩
  | case3 => exact List.forall_mem_nil _

end Offsets

end HtmlTemplate
