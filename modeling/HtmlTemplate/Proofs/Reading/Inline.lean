import HtmlTemplate.Proofs.Reading.Basic
import HtmlTemplate.Token.Inline

/-! How text and the parts of tags are read, way by way, and the induction over the readers that comes
of it. -/

namespace HtmlTemplate

namespace Reading

/-- What is read is good, or the error is fine. -/
def Outcome {α : Type} (good : α → Prop) (fine : LexError → Prop) : Except LexError α → Prop
  | .ok value => good value
  | .error error => fine error

namespace Outcome

variable {α β : Type} {good : α → Prop} {better : β → Prop} {fine : LexError → Prop} {program : Except LexError α}

theorem bind {next : α → Except LexError β} (outcome : Outcome good fine program)
    (goesOn : ∀ value, good value → Outcome better fine (next value)) : Outcome better fine (program >>= next) := by
  cases program with
  | error error => exact outcome
  | ok value => exact goesOn value outcome

theorem map {change : α → β} (outcome : Outcome good fine program)
    (becomes : ∀ value, good value → better (change value)) : Outcome better fine (program.map change) := by
  cases program with
  | error error => exact outcome
  | ok value => exact becomes value outcome

theorem of_ok (outcome : Outcome good fine program) {value : α} (read : program = .ok value) : good value := by
  rw [read] at outcome
  exact outcome

end Outcome

end Reading

namespace Inline

open CharClass

/-! Text. -/

/-- What is read at a backslash. -/
def escapePiece (input : Input) : Piece :=
  if startsMark input.advance then .literal input.advance.pos (input.advance.rest.take 2)
  else .literal input.pos (input.rest.take 2)

/-- The place after what is read at a backslash. -/
def afterEscape (input : Input) : Input :=
  if startsMark input.advance then input.advance.advanceBy 2 else input.advance.advance

theorem reaches_afterEscape (input : Input) : input.Reaches (afterEscape input) := by
  unfold afterEscape
  split
  · exact (Input.reaches_advance _).trans (Input.reaches_advanceBy ..)
  · exact (Input.reaches_advance _).trans (Input.reaches_advance _)

section

variable {bracketed : Bool} {input : Input}

theorem readPieces_ended (ended : ends bracketed input = true) :
    readPieces bracketed input = .ok (.here input []) := by
  rw [readPieces, ended, if_pos rfl, dite_eq_ite, ite_self]

variable (goesOn : ends bracketed input = false)
include goesOn

theorem atEnd_of_ends : input.atEnd = false := by
  unfold ends Input.atLineEnd at goesOn
  exact (Bool.or_eq_false_iff.mp (Bool.or_eq_false_iff.mp goesOn).1).1

theorem readPieces_escaped (escapes : input.isAt '\\' = true) :
    ∃ reached, readPieces bracketed input = (readPieces bracketed (afterEscape input)).map fun more =>
      (more.map (escapePiece input :: ·)).widen reached := by
  refine ⟨reaches_afterEscape input, ?_⟩
  rw [readPieces, dif_neg (by rw [atEnd_of_ends goesOn]; decide), if_neg (by rw [goesOn]; decide), if_pos escapes]
  change readPieces bracketed (afterEscape input) >>= _ = _
  cases readPieces bracketed (afterEscape input) <;> rfl

variable (unescaped : input.isAt '\\' = false)
include unescaped

theorem readPieces_output {kind : TokenKind} (found : outputMark? input = some kind) :
    ∃ reached : ∀ output : Parsed Token (input.advanceBy 2), input.Reaches output.rest,
      readPieces bracketed input = readOutput kind (input.advanceBy 2) >>= fun output =>
        (readPieces bracketed output.rest).map fun more =>
          (more.map (.part output.value :: ·)).widen (reached output) := by
  refine ⟨fun output => (Input.reaches_advanceBy ..).trans output.reached, ?_⟩
  rw [readPieces, dif_neg (by rw [atEnd_of_ends goesOn]; decide), if_neg (by rw [goesOn]; decide),
    if_neg (by rw [unescaped]; decide)]
  simp only [found]
  refine congrArg _ (funext fun output => ?_)
  cases readPieces bracketed output.rest <;> rfl

variable (unmarked : outputMark? input = none)
include unmarked

theorem readPieces_tag (opens : input.startsWith ['#', '['] = true) :
    ∃ reached : ∀ tag : Parsed Token (input.advanceBy 2), input.Reaches tag.rest,
      readPieces bracketed input = readBracketedTag input (input.advanceBy 2) >>= fun tag =>
        (readPieces bracketed tag.rest).map fun more =>
          (more.map (.part tag.value :: ·)).widen (reached tag) := by
  refine ⟨fun tag => (Input.reaches_advanceBy ..).trans tag.reached, ?_⟩
  rw [readPieces, dif_neg (by rw [atEnd_of_ends goesOn]; decide), if_neg (by rw [goesOn]; decide),
    if_neg (by rw [unescaped]; decide)]
  simp only [unmarked, opens, if_true]
  refine congrArg _ (funext fun tag => ?_)
  cases readPieces bracketed tag.rest <;> rfl

/-- A character that stands for itself. -/
theorem readPieces_char (untagged : input.startsWith ['#', '['] = false) :
    readPieces bracketed input = (readPieces bracketed input.advance).map fun more =>
      (more.map (.literal input.pos (input.rest.take 1) :: ·)).widen (Input.reaches_advance input) := by
  rw [readPieces, dif_neg (by rw [atEnd_of_ends goesOn]; decide), if_neg (by rw [goesOn]; decide),
    if_neg (by rw [unescaped]; decide)]
  simp only [unmarked, untagged, Bool.false_eq_true, if_false]
  cases readPieces bracketed input.advance <;> rfl

end

/-! Tags. -/

/-- The place after the word of a note. -/
def afterNote (input : Input) : Input := input.advance.dropWhile isTagWord

/-- The note that is read at a dot or a number sign. A dot with no word after it is none. -/
def notes (input : Input) : List Token :=
  if input.isAt '#' then [.between .idNote input.advance (afterNote input)]
  else if input.advance.isClass isTagWord then [.between .classNote input.advance (afterNote input)]
  else []

/-- A dot with nothing after it on its line. -/
def EndsInDot (input : Input) : Prop :=
  input.isAt '.' = true ∧ ¬input.advance.isClass isTagWord = true ∧ input.advance.atLineEnd = true

theorem not_atEnd_of_isAt {input : Input} {char : Char} (found : input.isAt char = true) :
    ¬input.atEnd = true := by
  obtain ⟨pos, _ | ⟨first, rest⟩⟩ := input
  · cases found
  · exact Bool.false_ne_true

/-- Another character is not there. -/
theorem not_isAt {input : Input} {char other : Char} (found : input.isAt char = true)
    (different : (char == other) = false) : ¬input.isAt other = true := by
  obtain ⟨pos, _ | ⟨first, rest⟩⟩ := input
  · cases found
  · obtain rfl : first = char := eq_of_beq found
    exact Bool.eq_false_iff.mp different

/-- A place at which no note, list or expression begins, and at which the parts of a tag do not end. -/
def Ordinary (input : Input) : Prop :=
  input.atEnd = false ∧ ∀ char ∈ [':', '.', '#', '(', '&'], input.isAt char = false

theorem ordinary_of {input : Input} (more : ¬input.atEnd = true) (colon : ¬input.isAt ':' = true)
    (marked : ¬(input.isAt '.' = true ∨ input.isAt '#' = true)) (opens : ¬input.isAt '(' = true)
    (ampersand : ¬input.isAt '&' = true) : Ordinary input := by
  obtain ⟨dot, sharp⟩ := not_or.mp marked
  refine ⟨Bool.not_eq_true _ ▸ more, ?_⟩
  simp only [List.forall_mem_cons, ← Bool.not_eq_true]
  exact ⟨colon, dot, sharp, opens, ampersand, List.forall_mem_nil _⟩

/-- The tag that is made of its name and its parts. -/
def bracketedToken (start input stop : Input) (parts : List Token) : Token :=
  (Token.between .tagLine start stop).withChildren (Token.between .tag input (input.dropWhile isTagWord) :: parts)

/-! The induction. -/

/-- What is to be shown of the text, the tag in brackets, or the parts of a tag that are read at a place. -/
abbrev OfText := Bool → ∀ input : Input, Except LexError (Parsed (List Piece) input) → Prop

abbrev OfTag := Input → ∀ input : Input, Except LexError (Parsed Token input) → Prop

abbrev OfParts := Bool → ∀ input : Input, Except LexError (Parsed (List Token) input) → Prop

/-- Each way to read text, a tag in brackets, and the parts of a tag. What is to be shown of it may be taken to
hold of what is read further on. -/
structure Cases (texts : OfText) (tags : OfTag) (parts : OfParts) : Prop where
  ended : ∀ {bracketed input}, ends bracketed input = true → texts bracketed input (.ok (.here input []))
  escaped : ∀ {bracketed input} (reached : input.Reaches (afterEscape input)),
    ends bracketed input = false → input.isAt '\\' = true →
    texts bracketed (afterEscape input) (readPieces bracketed (afterEscape input)) →
    texts bracketed input ((readPieces bracketed (afterEscape input)).map fun more =>
      (more.map (escapePiece input :: ·)).widen reached)
  output : ∀ {bracketed input kind} (reached : ∀ output : Parsed Token (input.advanceBy 2), input.Reaches output.rest),
    ends bracketed input = false → input.isAt '\\' = false → outputMark? input = some kind →
    (∀ output : Parsed Token (input.advanceBy 2), texts bracketed output.rest (readPieces bracketed output.rest)) →
    texts bracketed input (readOutput kind (input.advanceBy 2) >>= fun output =>
      (readPieces bracketed output.rest).map fun more =>
        (more.map (.part output.value :: ·)).widen (reached output))
  nested : ∀ {bracketed input} (reached : ∀ tag : Parsed Token (input.advanceBy 2), input.Reaches tag.rest),
    ends bracketed input = false → input.isAt '\\' = false → outputMark? input = none →
    input.startsWith ['#', '['] = true →
    tags input (input.advanceBy 2) (readBracketedTag input (input.advanceBy 2)) →
    (∀ tag : Parsed Token (input.advanceBy 2), texts bracketed tag.rest (readPieces bracketed tag.rest)) →
    texts bracketed input (readBracketedTag input (input.advanceBy 2) >>= fun tag =>
      (readPieces bracketed tag.rest).map fun more =>
        (more.map (.part tag.value :: ·)).widen (reached tag))
  char : ∀ {bracketed input}, ends bracketed input = false → input.isAt '\\' = false → outputMark? input = none →
    input.startsWith ['#', '['] = false → texts bracketed input.advance (readPieces bracketed input.advance) →
    texts bracketed input ((readPieces bracketed input.advance).map fun more =>
      (more.map (.literal input.pos (input.rest.take 1) :: ·)).widen (Input.reaches_advance input))
  tag : ∀ {start input} (reached : ∀ parts : Parsed (List Token) (input.dropWhile isTagWord),
      input.Reaches parts.rest.advance),
    parts true (input.dropWhile isTagWord) (readTagParts true (input.dropWhile isTagWord)) →
    tags start input (readTagParts true (input.dropWhile isTagWord) >>= fun parts =>
      if parts.rest.isAt ']' then
        .ok ⟨bracketedToken start input parts.rest.advance parts.value, parts.rest.advance, reached parts⟩
      else .error ⟨.inlineTag, input.pos⟩)
  closed : ∀ {bracketed input}, input.atEnd = true ∨ input.isAt ':' = true →
    parts bracketed input (.ok (.here input []))
  dot : ∀ {bracketed input} (reached : input.Reaches input.advance), EndsInDot input →
    parts bracketed input (.ok ⟨[.between .trailingDot input input.advance], input.advance, reached⟩)
  note : ∀ {bracketed input} (reached : input.Reaches (afterNote input)),
    input.isAt '.' = true ∨ input.isAt '#' = true → ¬EndsInDot input →
    parts bracketed (afterNote input) (readTagParts bracketed (afterNote input)) →
    parts bracketed input ((readTagParts bracketed (afterNote input)).map fun more =>
      (more.map (notes input ++ ·)).widen reached)
  list : ∀ {bracketed input} (reached : ∀ list : Parsed Token input.advance, input.Reaches list.rest),
    input.isAt '(' = true →
    (∀ list : Parsed Token input.advance, parts bracketed list.rest (readTagParts bracketed list.rest)) →
    parts bracketed input (Attribute.readList input.advance >>= fun list =>
      (readTagParts bracketed list.rest).map fun more => (more.map (list.value :: ·)).widen (reached list))
  expr : ∀ {bracketed input} (reached : ∀ expr : Parsed Token input.advance, input.Reaches expr.rest),
    input.isAt '&' = true →
    (∀ expr : Parsed Token input.advance, parts bracketed expr.rest (readTagParts bracketed expr.rest)) →
    parts bracketed input (readAttributeExpr input >>= fun expr =>
      (readTagParts bracketed expr.rest).map fun more => (more.map (expr.value :: ·)).widen (reached expr))
  mark : ∀ {bracketed input next kind} (reached : input.Reaches next.skipSpacing),
    Ordinary input → endMark? input = some (kind, next) →
    parts bracketed input ((readAfterMark bracketed kind next.skipSpacing).map fun after =>
      (after.map (Token.between kind input next :: ·)).widen reached)
  text : ∀ {bracketed input} (reached : input.Reaches input.skipSpacing),
    Ordinary input → endMark? input = none →
    texts bracketed input.skipSpacing (readPieces bracketed input.skipSpacing) →
    parts bracketed input ((readPieces bracketed input.skipSpacing).map fun text =>
      (text.map fun pieces => (Piece.join pieces).map Piece.token).widen reached)

theorem map_eq_bind {α β : Type} (program : Except LexError α) (change : α → β) :
    (program >>= fun value => pure (change value)) = program.map change := by
  cases program <;> rfl

theorem Cases.read {texts : OfText} {tags : OfTag} {parts : OfParts} (cases : Cases texts tags parts) :
    (∀ bracketed input, texts bracketed input (readPieces bracketed input)) ∧
    (∀ start input, tags start input (readBracketedTag start input)) ∧
    ∀ bracketed input, parts bracketed input (readTagParts bracketed input) := by
  refine readPieces.mutual_induct _ _ _ ?atEnd ?ends ?escape ?output ?tag ?char ?bracketed ?none ?colon
    ?dot ?note ?list ?expr ?mark ?text
  case atEnd =>
    intro bracketed input atEnd
    have ended : ends bracketed input = true := by
      unfold ends Input.atLineEnd
      rw [atEnd, Bool.true_or, Bool.true_or]
    rw [readPieces_ended ended]
    exact cases.ended ended
  case ends =>
    intro bracketed input _ ended
    rw [readPieces_ended ended]
    exact cases.ended ended
  case escape =>
    intro bracketed input _ goesOn escapes next after _ step
    have goesOn := Bool.not_eq_true _ ▸ goesOn
    obtain ⟨reached, read⟩ := readPieces_escaped goesOn escapes
    rw [read]
    exact cases.escaped reached goesOn escapes step
  case output =>
    intro bracketed input _ goesOn unescaped kind found step
    have goesOn := Bool.not_eq_true _ ▸ goesOn
    have unescaped := Bool.not_eq_true _ ▸ unescaped
    obtain ⟨reached, read⟩ := readPieces_output goesOn unescaped found
    rw [read]
    exact cases.output reached goesOn unescaped found step
  case tag =>
    intro bracketed input _ goesOn unescaped opens unmarked first step
    have goesOn := Bool.not_eq_true _ ▸ goesOn
    have unescaped := Bool.not_eq_true _ ▸ unescaped
    have unmarked := Option.eq_none_iff_forall_ne_some.mpr unmarked
    obtain ⟨reached, read⟩ := readPieces_tag goesOn unescaped unmarked opens
    rw [read]
    exact cases.nested reached goesOn unescaped unmarked opens first step
  case char =>
    intro bracketed input _ goesOn unescaped untagged unmarked step
    have goesOn := Bool.not_eq_true _ ▸ goesOn
    have unescaped := Bool.not_eq_true _ ▸ unescaped
    have untagged := Bool.not_eq_true _ ▸ untagged
    have unmarked := Option.eq_none_iff_forall_ne_some.mpr unmarked
    rw [readPieces_char goesOn unescaped unmarked untagged]
    exact cases.char goesOn unescaped unmarked untagged step
  case bracketed =>
    intro start input named _ step
    rw [readBracketedTag]
    exact cases.tag _ step
  case none =>
    intro bracketed input atEnd
    rw [readTagParts, dif_pos atEnd]
    exact cases.closed (.inl atEnd)
  case colon =>
    intro bracketed input more colon
    rw [readTagParts, dif_neg more, if_pos colon]
    exact cases.closed (.inr colon)
  case dot =>
    intro bracketed input more colon marked word after _ dot
    rw [readTagParts, dif_neg more, if_neg colon, if_pos marked, if_pos dot]
    exact cases.dot _ dot
  case note =>
    intro bracketed input more colon marked word after _ dot step
    rw [readTagParts, dif_neg more, if_neg colon, if_pos marked, if_neg dot, map_eq_bind]
    exact cases.note _ marked dot step
  case list =>
    intro bracketed input more colon marked opens step
    rw [readTagParts, dif_neg more, if_neg colon, if_neg marked, if_pos opens]
    simp only [map_eq_bind]
    exact cases.list (fun list => (Input.reaches_advance _).trans list.reached) opens step
  case expr =>
    intro bracketed input more colon marked opens ampersand step
    rw [readTagParts, dif_neg more, if_neg colon, if_neg marked, if_neg opens, if_pos ampersand]
    simp only [map_eq_bind]
    exact cases.expr (fun expr => (Input.reaches_advance _).trans expr.reached) ampersand step
  case mark =>
    intro bracketed input more colon marked opens ampersand kind next found
    rw [readTagParts, dif_neg more, if_neg colon, if_neg marked, if_neg opens, if_neg ampersand]
    split
    · rename_i mark
      cases found.symm.trans mark
      rw [map_eq_bind]
      exact cases.mark _ (ordinary_of more colon marked opens ampersand) found
    · rename_i mark
      cases found.symm.trans mark
  case text =>
    intro bracketed input more colon marked opens ampersand unmarked step
    rw [readTagParts, dif_neg more, if_neg colon, if_neg marked, if_neg opens, if_neg ampersand]
    split
    · rename_i mark
      cases unmarked.symm.trans mark
    · rw [map_eq_bind]
      exact cases.text _ (ordinary_of more colon marked opens ampersand) unmarked step

/-! What the leaves give. -/

/-- What holds of pieces, and of two that touch together, holds of the pieces when those that touch are one. -/
theorem forall_join {good : Piece → Prop}
    (touching : ∀ {pos chars more}, good (.literal pos chars) → good (.literal (pos + byteLength chars) more) →
      good (.literal pos (chars ++ more)))
    {pieces : List Piece} (each : ∀ piece ∈ pieces, good piece) : ∀ piece ∈ Piece.join pieces, good piece := by
  induction pieces with
  | nil => exact List.forall_mem_nil _
  | cons piece rest step =>
    obtain ⟨first, others⟩ := List.forall_mem_cons.mp each
    have joined := step others
    cases piece with
    | part token => exact List.forall_mem_cons.mpr ⟨first, joined⟩
    | literal pos chars =>
      unfold Piece.join
      split
      · rename_i next more inner same
        rw [same] at joined
        obtain ⟨second, later⟩ := List.forall_mem_cons.mp joined
        split
        · rename_i touches
          subst touches
          exact List.forall_mem_cons.mpr ⟨touching first second, later⟩
        · exact List.forall_mem_cons.mpr ⟨first, joined⟩
      · exact List.forall_mem_cons.mpr ⟨first, joined⟩

/-- The marks of a tag: kinds of parts with nothing in them. -/
def tagMarks : List TokenKind :=
  [.trailingDot, .idNote, .classNote, .trailingSlash, .trailingOutput, .trailingRawOutput]

theorem endMark?_mem {input next : Input} {kind : TokenKind} (found : endMark? input = some (kind, next)) :
    kind ∈ tagMarks := by
  unfold endMark? at found
  split at found
  · cases found
    decide
  · split at found
    · cases found
      decide
    · split at found
      · cases found
        decide
      · cases found

theorem outputMark?_kind {input : Input} {kind : TokenKind} (found : outputMark? input = some kind) :
    kind = .escapedOutput ∨ kind = .rawOutput := by
  unfold outputMark? at found
  split at found
  · cases found
    exact .inl rfl
  · split at found
    · cases found
      exact .inr rfl
    · cases found

/-- Pieces of text and parts of tags are good, and errors fine, if this holds of what is read by itself, from any
place that is valid. -/
structure Leaves (valid : Input → Prop) (fine : LexError → Prop) (good : Piece → Prop) (part : Token → Prop) :
    Prop where
  later : ∀ {input later : Input}, valid input → input.Reaches later → valid later
  fault : ∀ {input} fault, valid input → fine ⟨fault, input.pos⟩
  escaped : ∀ {input}, valid input → input.isAt '\\' = true → good (escapePiece input)
  char : ∀ {bracketed input}, valid input → ends bracketed input = false →
    good (.literal input.pos (input.rest.take 1))
  touching : ∀ {pos chars more}, good (.literal pos chars) → good (.literal (pos + byteLength chars) more) →
    good (.literal pos (chars ++ more))
  nested : ∀ {token}, part token → good (.part token)
  token : ∀ {piece : Piece}, good piece → part piece.token
  output : ∀ {input kind}, valid input → kind = .escapedOutput ∨ kind = .rawOutput →
    Reading.Outcome (fun parsed => part parsed.value) fine (readOutput kind input)
  tag : ∀ {start input stop parts}, valid start → start.Reaches input → input.Reaches stop →
    (∀ token ∈ parts, part token) → part (bracketedToken start input stop parts)
  mark : ∀ {first last kind}, valid first → first.Reaches last → kind ∈ tagMarks →
    part (.between kind first last)
  list : ∀ {input}, valid input →
    Reading.Outcome (fun parsed => part parsed.value) fine (Attribute.readList input)
  expr : ∀ {input}, valid input →
    Reading.Outcome (fun parsed => part parsed.value) fine (readAttributeExpr input)
  afterMark : ∀ {bracketed kind input}, valid input →
    Reading.Outcome (fun parsed => ∀ token ∈ parsed.value, part token) fine (readAfterMark bracketed kind input)

namespace Leaves

variable {valid : Input → Prop} {fine : LexError → Prop} {good : Piece → Prop} {part : Token → Prop}

theorem notes (leaves : Leaves valid fine good part) {input : Input} (begun : valid input) :
    ∀ token ∈ Inline.notes input, part token := by
  have noted {kind : TokenKind} (mark : kind ∈ tagMarks) :
      ∀ token ∈ [Token.between kind input.advance (afterNote input)], part token :=
    List.forall_mem_singleton.mpr (leaves.mark (leaves.later begun (Input.reaches_advance input))
      (Input.reaches_dropWhile ..) mark)
  unfold Inline.notes
  split
  · exact noted (by decide)
  · split
    · exact noted (by decide)
    · exact List.forall_mem_nil _

theorem joined (leaves : Leaves valid fine good part) {pieces : List Piece}
    (each : ∀ piece ∈ pieces, good piece) : ∀ token ∈ (Piece.join pieces).map Piece.token, part token :=
  List.forall_mem_map.mpr fun piece member => leaves.token (forall_join leaves.touching each piece member)

theorem cases (leaves : Leaves valid fine good part) :
    Cases
      (fun _ input => fun read => valid input →
        Reading.Outcome (fun parsed => ∀ piece ∈ parsed.value, good piece) fine read)
      (fun start input => fun read => valid start → start.Reaches input →
        Reading.Outcome (fun parsed => part parsed.value) fine read)
      (fun _ input => fun read => valid input →
        Reading.Outcome (fun parsed => ∀ token ∈ parsed.value, part token) fine read) where
  ended _ _ := List.forall_mem_nil _
  escaped reached _ escapes more begun :=
    .map (more (leaves.later begun reached)) fun _ rest => List.forall_mem_cons.mpr ⟨leaves.escaped begun escapes, rest⟩
  output reached _ _ found more begun := by
    have inside := leaves.later begun (Input.reaches_advanceBy 2 _)
    refine .bind (leaves.output inside (outputMark?_kind found)) fun output first => ?_
    refine .map (more output (leaves.later inside output.reached)) fun _ rest => ?_
    exact List.forall_mem_cons.mpr ⟨leaves.nested first, rest⟩
  nested reached _ _ _ _ first more begun := by
    refine .bind (first begun (Input.reaches_advanceBy 2 _)) fun tag first => ?_
    refine .map (more tag (leaves.later begun (reached tag))) fun _ rest => ?_
    exact List.forall_mem_cons.mpr ⟨leaves.nested first, rest⟩
  char goesOn _ _ _ more begun :=
    .map (more (leaves.later begun (Input.reaches_advance _))) fun _ rest =>
      List.forall_mem_cons.mpr ⟨leaves.char begun goesOn, rest⟩
  tag reached more begun reachedTag := by
    have inside := leaves.later begun reachedTag
    refine .bind (more (leaves.later inside (Input.reaches_dropWhile ..))) fun parts all => ?_
    split
    · exact leaves.tag begun reachedTag (reached parts) all
    · exact leaves.fault _ inside
  closed _ _ := List.forall_mem_nil _
  dot reached _ begun := List.forall_mem_singleton.mpr (leaves.mark begun reached (by decide))
  note reached _ _ more begun :=
    .map (more (leaves.later begun reached)) fun _ rest => List.forall_mem_append.mpr ⟨leaves.notes begun, rest⟩
  list reached _ more begun := by
    refine .bind (leaves.list (leaves.later begun (Input.reaches_advance _))) fun list first => ?_
    refine .map (more list (leaves.later begun (reached list))) fun _ rest => ?_
    exact List.forall_mem_cons.mpr ⟨first, rest⟩
  expr reached _ more begun := by
    refine .bind (leaves.expr begun) fun expr first => ?_
    refine .map (more expr (leaves.later begun (reached expr))) fun _ rest => ?_
    exact List.forall_mem_cons.mpr ⟨first, rest⟩
  mark reached _ found begun := by
    refine .map (leaves.afterMark (leaves.later begun reached)) fun _ rest => ?_
    exact List.forall_mem_cons.mpr ⟨leaves.mark begun (reaches_of_endMark? found) (endMark?_mem found), rest⟩
  text reached _ _ more begun := .map (more (leaves.later begun reached)) fun _ each => leaves.joined each

variable (leaves : Leaves valid fine good part)
include leaves

theorem readTagParts (bracketed : Bool) {input : Input} (begun : valid input) :
    Reading.Outcome (fun parsed => ∀ token ∈ parsed.value, part token) fine (Inline.readTagParts bracketed input) :=
  leaves.cases.read.2.2 bracketed input begun

theorem readText {input : Input} (begun : valid input) :
    Reading.Outcome (fun parsed => ∀ token ∈ parsed.value, part token) fine (Inline.readText input) :=
  .map (leaves.cases.read.1 false input begun) fun _ each => leaves.joined each

end Leaves

end Inline

end HtmlTemplate
