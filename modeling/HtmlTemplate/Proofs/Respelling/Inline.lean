import HtmlTemplate.Proofs.Reading.Inline
import HtmlTemplate.Proofs.Respelling.Attributes

/-! What stands on a line of markup in two texts that differ in blanks. -/

namespace HtmlTemplate.Respelling

open CharClass Inline Quoting

variable {spelling : Spelling}

/-! Pieces of text. -/

/-- Two pieces of text, or two parts. -/
inductive Matched (spelling : Spelling) : Piece → Piece → Prop where
  | literal {pos place : Nat} {chars others : List Char} (alike : Alike spelling.shows chars others) :
      Matched spelling (.literal pos chars) (.literal place others)
  | part {token twin : Token} (akin : Akin spelling token twin) : Matched spelling (.part token) (.part twin)

/-- Whether some pieces begin with text at a place. -/
def touches (pos : Nat) : List Piece → Bool
  | .literal place _ :: _ => place == pos
  | _ => false

/-- Pieces that are read from two places on correspond when those that touch are joined, and they begin
with text at these places both or neither. -/
structure Aligned (spelling : Spelling) (start stop : Nat) (pieces others : List Piece) : Prop where
  matched : List.Forall₂ (Matched spelling) (Piece.join pieces) (Piece.join others)
  touching : touches stop (Piece.join others) = touches start (Piece.join pieces)

theorem join_literal (pos : Nat) (chars : List Char) (pieces : List Piece) :
    (touches (pos + byteLength chars) (Piece.join pieces) = false ∧
      Piece.join (.literal pos chars :: pieces) = .literal pos chars :: Piece.join pieces) ∨
    ∃ more joined, Piece.join pieces = .literal (pos + byteLength chars) more :: joined ∧
      Piece.join (.literal pos chars :: pieces) = .literal pos (chars ++ more) :: joined := by
  rw [Piece.join]
  split
  · rename_i next more joined found
    split
    · rename_i same
      exact .inr ⟨more, joined, by rw [found, same], rfl⟩
    · rename_i apart
      exact .inl ⟨by rw [found]; exact beq_false_of_ne (Ne.symm apart), by rw [found]⟩
  · rename_i other
    refine .inl ⟨?_, rfl⟩
    unfold touches
    split
    · rename_i found
      exact absurd found (other _ _ _)
    · rfl

/-- Text that is joined begins where it began. -/
theorem touches_join (place pos : Nat) (chars : List Char) (pieces : List Piece) :
    touches place (Piece.join (.literal pos chars :: pieces)) = (pos == place) := by
  rcases join_literal pos chars pieces with ⟨-, same⟩ | ⟨_, _, -, same⟩ <;> rw [same] <;> rfl

namespace Aligned

variable {start stop pos place : Nat} {chars others : List Char} {pieces more : List Piece}

theorem nil (start stop : Nat) : Aligned spelling start stop [] [] := ⟨.nil, rfl⟩

/-- Text before the pieces. -/
theorem literal (aligned : Aligned spelling (pos + byteLength chars) (place + byteLength others) pieces more)
    (alike : Alike spelling.shows chars others) (begun : (place == stop) = (pos == start)) :
    Aligned spelling start stop (.literal pos chars :: pieces) (.literal place others :: more) := by
  refine ⟨?_, by rw [touches_join, touches_join, begun]⟩
  obtain ⟨matched, touching⟩ := aligned
  rcases join_literal pos chars pieces with ⟨apart, joined⟩ | ⟨text, rest, found, joined⟩ <;>
    rcases join_literal place others more with ⟨away, combined⟩ | ⟨copy, other, sought, combined⟩ <;>
    rw [joined, combined]
  · exact .cons (.literal alike) matched
  · rw [sought, apart] at touching
    simp [touches] at touching
  · rw [found, away] at touching
    simp [touches] at touching
  · rw [found, sought] at matched
    cases matched with
    | cons first rest =>
      cases first with
      | literal more => exact .cons (.literal (alike.append more)) rest

/-- A part before the pieces. -/
theorem part {first second : Nat} (aligned : Aligned spelling first second pieces more) {token twin : Token}
    (akin : Akin spelling token twin) : Aligned spelling start stop (.part token :: pieces) (.part twin :: more) :=
  ⟨.cons (.part akin) aligned.matched, rfl⟩

theorem tokens (aligned : Aligned spelling start stop pieces more) :
    List.Forall₂ (Akin spelling) ((Piece.join pieces).map Piece.token) ((Piece.join more).map Piece.token) := by
  rw [List.forall₂_map_left_iff, List.forall₂_map_right_iff]
  refine aligned.matched.imp fun piece twin matched => ?_
  cases matched with
  | literal alike => exact .written rfl alike.agrees .nil
  | part akin => exact akin

end Aligned

/-! The blanks that stand for one in text. -/

/-- Characters are pieces of their own. -/
def literals (pos : Nat) : List Char → List Piece
  | [] => []
  | char :: chars => .literal pos [char] :: literals (pos + char.utf8Size) chars

/-- Characters that touch are joined. -/
theorem join_literals (pos : Nat) (char : Char) (chars : List Char) (pieces : List Piece) :
    Piece.join (literals pos (char :: chars) ++ pieces) = Piece.join (.literal pos (char :: chars) :: pieces) := by
  induction chars generalizing pos char with
  | nil => rfl
  | cons next chars step =>
    have rest := step (pos + char.utf8Size) next
    have front : Piece.join (literals pos (char :: next :: chars) ++ pieces) =
        Piece.join (.literal pos [char] :: (literals (pos + char.utf8Size) (next :: chars) ++ pieces)) := rfl
    have byte : pos + byteLength [char] = pos + char.utf8Size := rfl
    have size : pos + byteLength (char :: next :: chars) =
        pos + char.utf8Size + byteLength (next :: chars) := (Nat.add_assoc ..).symm
    rw [front]
    rcases join_literal pos [char] (literals (pos + char.utf8Size) (next :: chars) ++ pieces) with
      ⟨apart, -⟩ | ⟨more, joined, found, same⟩
    · rw [rest, touches_join, byte, beq_self_eq_true] at apart
      cases apart
    · rw [same]
      rw [rest, byte] at found
      rcases join_literal (pos + char.utf8Size) (next :: chars) pieces with
        ⟨apart, alone⟩ | ⟨text, others, begins, whole⟩
      · rw [alone] at found
        obtain ⟨rfl, rfl⟩ : next :: chars = more ∧ Piece.join pieces = joined := by
          simpa using found
        rcases join_literal pos (char :: next :: chars) pieces with ⟨-, alone⟩ | ⟨text, others, begins, -⟩
        · rw [alone]
          rfl
        · rw [size] at begins
          rw [begins] at apart
          simp [touches] at apart
      · rw [whole] at found
        obtain ⟨rfl, rfl⟩ : next :: chars ++ text = more ∧ others = joined := by
          simpa using found
        rcases join_literal pos (char :: next :: chars) pieces with ⟨apart, -⟩ | ⟨copy, rest, other, whole⟩
        · rw [size, begins] at apart
          simp [touches] at apart
        · rw [size, begins] at other
          obtain ⟨rfl, rfl⟩ : text = copy ∧ others = rest := by simpa using other
          rw [whole]
          rfl

/-- Text before the pieces, which has been read one character at a time. -/
theorem Aligned.literals {pos place : Nat} {chars others : List Char} {pieces more : List Piece}
    (aligned : Aligned spelling (pos + byteLength chars) (place + byteLength others) pieces more)
    (alike : Alike spelling.shows chars others) :
    Aligned spelling pos place (.literal pos chars :: pieces) (literals place others ++ more) := by
  have joined : Piece.join (Respelling.literals place others ++ more) =
      Piece.join (.literal place others :: more) := by
    obtain ⟨char, rest, rfl⟩ := List.exists_cons_of_ne_nil alike.other
    exact join_literals place char rest more
  obtain ⟨matched, touching⟩ := aligned.literal alike
    (show (place == place) = (pos == pos) by rw [beq_self_eq_true, beq_self_eq_true])
  exact ⟨joined ▸ matched, joined ▸ touching⟩

/-- Spacing is read one character at a time. -/
theorem readPieces_spacing (bracketed : Bool) {run text : List Char} (spacing : ∀ char ∈ run, isSpacing char = true)
    {pos stop : Nat} (passed : stop = pos + byteLength run) :
    ∃ reached, readPieces bracketed ⟨pos, run ++ text⟩ = (readPieces bracketed ⟨stop, text⟩).map fun more =>
      (more.map (literals pos run ++ ·)).widen reached := by
  induction run generalizing pos with
  | nil =>
    obtain rfl : stop = pos := passed
    refine ⟨.refl _, ?_⟩
    change readPieces bracketed ⟨stop, text⟩ = (readPieces bracketed ⟨stop, text⟩).map _
    cases readPieces bracketed ⟨stop, text⟩ <;> rfl
  | cons char run step =>
    obtain ⟨here, spacing⟩ := List.forall_mem_cons.mp spacing
    have plain : ends bracketed ⟨pos, char :: (run ++ text)⟩ = false ∧
        Input.isAt '\\' ⟨pos, char :: (run ++ text)⟩ = false ∧
        outputMark? ⟨pos, char :: (run ++ text)⟩ = none ∧
        Input.startsWith ['#', '['] ⟨pos, char :: (run ++ text)⟩ = false := by
      rcases Bool.or_eq_true_iff.mp here with same | same <;> rw [beq_iff_eq.mp same] <;>
        exact ⟨by cases bracketed <;> rfl, rfl, rfl, rfl⟩
    obtain ⟨goesOn, unescaped, unmarked, untagged⟩ := plain
    have one := readPieces_char goesOn unescaped unmarked untagged
    obtain ⟨further, more⟩ := step spacing (passed.trans (Nat.add_assoc pos char.utf8Size _).symm)
    change _ = (readPieces bracketed ⟨pos + char.utf8Size, run ++ text⟩).map _ at one
    rw [more] at one
    refine ⟨(Input.reaches_advance ⟨pos, char :: (run ++ text)⟩).trans further, one.trans ?_⟩
    cases readPieces bracketed ⟨stop, text⟩ <;> rfl

/-! The parts of a tag. -/

section

variable {first second : Input} (beside : Beside spelling first second)
include beside

theorem ends_same (bracketed : Bool) : ends bracketed second = ends bracketed first := by
  unfold ends
  rw [beside.atLineEnd, beside.isAt rfl]

theorem outputMark_same : outputMark? second = outputMark? first := by
  unfold outputMark?
  rw [beside.startsWith (by decide), beside.startsWith (by decide)]

/-- The text of a word is the same. -/
theorem word_text (kind : TokenKind) : (Token.between kind second (second.dropWhile isTagWord)).text =
    (Token.between kind first (first.dropWhile isTagWord)).text := by
  change String.ofList (Input.textTo ..) = String.ofList (Input.textTo ..)
  rw [Input.textTo_dropWhile, Input.textTo_dropWhile, beside.takeWhile ⟨rfl, rfl, rfl, rfl⟩]

theorem word_akin {kind : TokenKind} (name : kind.isName = true) :
    Akin spelling (.between kind first (first.dropWhile isTagWord))
      (.between kind second (second.dropWhile isTagWord)) :=
  .name name (word_text beside kind) .nil

theorem outputMark_beside {kind : TokenKind} (mark : outputMark? first = some kind) :
    kind.isInert = true ∧ Beside spelling (first.advanceBy 2) (second.advanceBy 2) := by
  unfold outputMark? at mark
  split at mark
  · rename_i starts
    cases mark
    exact ⟨rfl, beside.advanceBy starts (by decide)⟩
  · split at mark
    · rename_i starts
      cases mark
      exact ⟨rfl, beside.advanceBy starts (by decide)⟩
    · cases mark

theorem output_reads {kind : TokenKind} (inert : kind.isInert = true) :
    Lexes (Meets spelling (Akin spelling)) (readOutput kind first) (readOutput kind second) := by
  refine .bind (embedded_alike rfl rfl _ beside) fun x y echo => ?_
  rw [echo.leads.beside.isAt rfl]
  split
  · rename_i closes
    exact .ok ⟨echo.leads.beside.advance_isAt closes rfl, echo.token inert⟩
  · exact .error rfl

theorem tagOutput_reads (bracketed : Bool) (kind : TokenKind) :
    Lexes (Meets spelling (List.Forall₂ (Akin spelling))) (readTagOutput bracketed kind first)
      (readTagOutput bracketed kind second) := by
  refine .bind (embedded_alike rfl rfl _ beside) fun x y echo => ?_
  rw [ends_same echo.leads.beside]
  split
  · refine .ok ⟨echo.leads.beside, .cons (echo.token ?_) .nil⟩
    split <;> rfl
  · exact .error rfl

theorem afterMark_reads (bracketed : Bool) (kind : TokenKind) :
    Lexes (Meets spelling (List.Forall₂ (Akin spelling))) (readAfterMark bracketed kind first)
      (readAfterMark bracketed kind second) := by
  unfold readAfterMark
  rw [ends_same beside]
  split
  · exact .ok ⟨beside, .nil⟩
  · split
    · exact .error rfl
    · exact tagOutput_reads beside bracketed kind

theorem attributeExpr_reads (found : first.isAt '&' = true) :
    Lexes (Meets spelling (Akin spelling)) (readAttributeExpr first) (readAttributeExpr second) := by
  have word : Visible "attributes(".toList := by decide
  have eaten := (beside.advance_isAt found rfl).eatWord word
  unfold readAttributeExpr
  split
  · rename_i none
    rw [none] at eaten
    split
    · exact .error rfl
    · rename_i some
      rw [some] at eaten
      cases eaten
  · rename_i next some
    rw [some] at eaten
    split
    · rename_i none
      rw [none] at eaten
      cases eaten
    · rename_i follow other
      rw [other] at eaten
      cases eaten with
      | some after =>
        refine .bind (embedded_alike rfl rfl _ after) fun x y echo => ?_
        rw [echo.leads.beside.isAt rfl]
        split
        · rename_i closes
          exact .ok ⟨echo.leads.beside.advance_isAt closes rfl, echo.token rfl⟩
        · exact .error rfl

/-- The mark that ends the notes of a tag, and the place after it. -/
theorem endMark_rel : Option.Rel (fun x y => y.1 = x.1 ∧ x.1.isInert = true ∧ Beside spelling x.2 y.2)
    (endMark? first) (endMark? second) := by
  have word : Visible ['!', '='] := by decide
  unfold endMark?
  rw [beside.isAt rfl, beside.isAt rfl, beside.startsWith word]
  split
  · rename_i found
    exact .some ⟨rfl, rfl, beside.advance_isAt found rfl⟩
  · split
    · rename_i found
      exact .some ⟨rfl, rfl, beside.advance_isAt found rfl⟩
    · split
      · rename_i starts
        exact .some ⟨rfl, rfl, beside.advanceBy starts word⟩
      · exact .none

end

/-! Backslashes. -/

/-- The mark after a backslash is a word of two characters. -/
theorem word_of_startsMark {input : Input} (mark : startsMark input = true) :
    ∃ word, word.length = 2 ∧ Visible word ∧ input.startsWith word = true := by
  unfold startsMark at mark
  rcases Bool.or_eq_true_iff.mp mark with mark | mark
  · rcases Bool.or_eq_true_iff.mp mark with mark | mark
    · exact ⟨_, rfl, by decide, mark⟩
    · exact ⟨_, rfl, by decide, mark⟩
  · exact ⟨_, rfl, by decide, mark⟩

theorem take_of_startsWith {word : List Char} {input : Input} (starts : input.startsWith word = true) :
    input.rest.take word.length = word :=
  (List.prefix_iff_eq_take.mp (List.isPrefixOf_iff_prefix.mp starts)).symm

theorem escape_passes {input : Input} (escapes : input.isAt '\\' = true) : input.Passes (afterEscape input) := by
  refine (Input.passes_advance_of_isClass escapes).of_reaches ?_
  unfold afterEscape
  split
  · exact Input.reaches_advanceBy ..
  · exact Input.reaches_advance _

theorem rest_of_isAt {char : Char} {input : Input} (found : input.isAt char = true) :
    input.rest = char :: input.advance.rest := by
  obtain ⟨first, text, rest, same⟩ := cons_of_isClass found
  rw [Reading.rest_advance, rest, beq_iff_eq.mp same, List.tail_cons]

section

variable {first second : Input} (beside : Beside spelling first second) (escapes : first.isAt '\\' = true)
include beside escapes

theorem startsMark_same : startsMark second.advance = startsMark first.advance := by
  have after := beside.advance_isAt escapes rfl
  unfold startsMark
  rw [after.startsWith (by decide), after.startsWith (by decide), after.startsWith (by decide)]

/-- The character after a backslash is the same in both texts. -/
theorem escaped_same : Beside spelling first.advance.advance second.advance.advance ∧
    second.advance.rest.take 1 = first.advance.rest.take 1 := by
  have texts : spelling.beside first.rest second.rest := beside
  have after : spelling.beside first.advance.rest second.advance.rest := beside.advance_isAt escapes rfl
  have others := rest_of_isAt ((beside.isAt rfl).trans escapes)
  rw [rest_of_isAt escapes, others] at texts
  unfold Beside
  rw [Reading.rest_advance first.advance, Reading.rest_advance second.advance]
  cases rest : first.advance.rest with
  | nil =>
    rw [rest] at after
    have none := spelling.nil_iff after |>.mpr rfl
    rw [none] at after ⊢
    exact ⟨after, rfl⟩
  | cons char text =>
    rw [rest] at texts
    obtain ⟨more, same, further, -⟩ := spelling.escaped texts
    rw [(List.cons.inj same).2]
    exact ⟨further, rfl⟩

theorem afterEscape_beside : Beside spelling (afterEscape first) (afterEscape second) := by
  unfold afterEscape
  rw [startsMark_same beside escapes]
  split
  · rename_i mark
    obtain ⟨word, length, visible, starts⟩ := word_of_startsMark mark
    have after := (beside.advance_isAt escapes rfl).advanceBy starts visible
    rwa [length] at after
  · exact (escaped_same beside escapes).1

/-- What is read at a backslash, before the pieces after it. -/
theorem Aligned.escape {pieces others : List Piece}
    (aligned : Aligned spelling (afterEscape first).pos (afterEscape second).pos pieces others) :
    Aligned spelling first.pos second.pos (escapePiece first :: pieces) (escapePiece second :: others) := by
  have other : second.isAt '\\' = true := (beside.isAt rfl).trans escapes
  have one {input : Input} (escapes : input.isAt '\\' = true) : input.advance.pos = input.pos + 1 :=
    pos_advance (rest_of_isAt escapes)
  have same := startsMark_same beside escapes
  unfold afterEscape at aligned
  unfold escapePiece
  rw [same] at aligned ⊢
  split
  · rename_i mark
    rw [if_pos mark, if_pos mark, pos_advanceBy, pos_advanceBy] at aligned
    obtain ⟨word, length, visible, starts⟩ := word_of_startsMark mark
    have others := ((beside.advance_isAt escapes rfl).startsWith visible).trans starts
    have texts := take_of_startsWith starts
    have copied := take_of_startsWith others
    rw [length] at texts copied
    rw [texts, copied] at aligned ⊢
    refine aligned.literal (.refl fun none => ?_) ?_
    · rw [none] at length
      cases length
    · rw [one escapes, one other, beq_false_of_ne (Nat.succ_ne_self _), beq_false_of_ne (Nat.succ_ne_self _)]
  · rename_i mark
    rw [if_neg mark, if_neg mark] at aligned
    have two {input : Input} (escapes : input.isAt '\\' = true) :
        input.rest.take 2 = '\\' :: input.advance.rest.take 1 := by
      rw [rest_of_isAt escapes]
      rfl
    have past {input : Input} (escapes : input.isAt '\\' = true) :
        input.advance.advance.pos = input.pos + byteLength (input.rest.take 2) := pos_advanceBy 2 input
    rw [past escapes, past other] at aligned
    rw [two escapes, two other, (escaped_same beside escapes).2] at aligned ⊢
    exact aligned.literal (.refl (List.cons_ne_nil _ _)) (by rw [beq_self_eq_true, beq_self_eq_true])

end

/-! Text, and tags in it. -/

/-- A character of text, or the spacing that stands for it in the second text. -/
theorem readPieces_letter {bracketed : Bool} {input : Input} {char : Char} {copies text : List Char}
    (rest : input.rest = copies ++ text) (letter : copies = [char] ∨ ∀ copy ∈ copies, isSpacing copy = true)
    (goesOn : ends bracketed input = false) (unescaped : input.isAt '\\' = false)
    (unmarked : outputMark? input = none) (untagged : input.startsWith ['#', '['] = false) :
    ∃ reached, readPieces bracketed input = (readPieces bracketed ⟨input.pos + byteLength copies, text⟩).map fun more =>
      (more.map (literals input.pos copies ++ ·)).widen reached := by
  obtain ⟨pos, whole⟩ := input
  subst rest
  rcases letter with rfl | spacing
  · exact ⟨Input.reaches_advance _, readPieces_char goesOn unescaped unmarked untagged⟩
  · exact readPieces_spacing bracketed spacing rfl

mutual

theorem pieces_reads (bracketed : Bool) {first second : Input} (beside : Beside spelling first second) :
    Lexes (Meets spelling (Aligned spelling first.pos second.pos)) (readPieces bracketed first)
      (readPieces bracketed second) := by
  cases ended : ends bracketed first with
  | true =>
    rw [readPieces_ended ended, readPieces_ended ((ends_same beside _).trans ended)]
    exact .ok ⟨beside, .nil _ _⟩
  | false =>
    have goesOn := (ends_same beside bracketed).trans ended
    have more : 0 < first.size := by
      refine Nat.pos_of_ne_zero fun none => ?_
      have atEnd := atEnd_of_ends ended
      rw [(Input.atEnd_iff first).mpr none] at atEnd
      cases atEnd
    cases escapes : first.isAt '\\' with
    | true =>
      obtain ⟨reached, one⟩ := readPieces_escaped ended escapes
      obtain ⟨follows, two⟩ := readPieces_escaped goesOn ((beside.isAt rfl).trans escapes)
      have shorter := (escape_passes escapes).2
      rw [one, two]
      exact .map (pieces_reads bracketed (afterEscape_beside beside escapes)) fun x y pieces =>
        ⟨pieces.beside, .escape beside escapes pieces.values⟩
    | false =>
      have unescaped : second.isAt '\\' = false := (beside.isAt rfl).trans escapes
      cases mark : outputMark? first with
      | some kind =>
        obtain ⟨reached, one⟩ := readPieces_output ended escapes mark
        obtain ⟨follows, two⟩ := readPieces_output goesOn unescaped ((outputMark_same beside).trans mark)
        obtain ⟨inert, after⟩ := outputMark_beside beside mark
        rw [one, two]
        refine .bind (output_reads after inert) fun x y output => ?_
        have := x.le
        have := Input.size_advanceBy 2 first
        exact .map (pieces_reads bracketed output.beside) fun z w pieces =>
          ⟨pieces.beside, pieces.values.part output.values⟩
      | none =>
        have unmarked := (outputMark_same beside).trans mark
        cases opens : first.startsWith ['#', '['] with
        | true =>
          obtain ⟨reached, one⟩ := readPieces_tag ended escapes mark opens
          obtain ⟨follows, two⟩ := readPieces_tag goesOn unescaped unmarked
            ((beside.startsWith (by decide)).trans opens)
          have after : Beside spelling (first.advanceBy 2) (second.advanceBy 2) := beside.advanceBy opens (by decide)
          have := Input.size_advanceBy 2 first
          rw [one, two]
          refine .bind (bracketedTag_reads beside (Input.reaches_advanceBy ..) (Input.reaches_advanceBy ..) after)
            fun x y tag => ?_
          have := x.le
          exact .map (pieces_reads bracketed tag.beside) fun z w pieces =>
            ⟨pieces.beside, pieces.values.part tag.values⟩
        | false =>
          have untagged := (beside.startsWith (by decide)).trans opens
          have shorter := (Input.passes_advance more).2
          cases start : first.rest with
          | nil =>
            rw [Input.size, start] at more
            cases more
          | cons char text =>
            have within : isLineEnd char = false := by
              unfold ends Input.atLineEnd at ended
              have inside := (Bool.or_eq_false_iff.mp (Bool.or_eq_false_iff.mp ended).1).2
              rwa [Reading.isClass_eq start] at inside
            have texts : spelling.beside first.rest second.rest := beside
            rw [start] at texts
            obtain ⟨copies, other, follow, alike, rest, letter⟩ := spelling.letter within texts
            obtain ⟨reached, two⟩ := readPieces_letter follow (letter.imp_right And.right) goesOn unescaped unmarked
              untagged
            have past : first.advance.rest = text := by rw [Reading.rest_advance, start, List.tail_cons]
            have next : Beside spelling first.advance ⟨second.pos + byteLength copies, other⟩ := by
              unfold Beside
              rwa [past]
            rw [readPieces_char ended escapes mark opens, two]
            refine .map (pieces_reads bracketed next) fun z w pieces => ⟨pieces.beside, ?_⟩
            have aligned := pieces.values
            rw [pos_advance start] at aligned
            rw [start]
            exact aligned.literals alike
termination_by 3 * first.size
decreasing_by all_goals omega

theorem bracketedTag_reads {start stop first second : Input} (begun : Beside spelling start stop)
    (reached : start.Reaches first) (arrived : stop.Reaches second) (beside : Beside spelling first second) :
    Lexes (Meets spelling (Akin spelling)) (readBracketedTag start first) (readBracketedTag stop second) := by
  have named : Beside spelling (first.dropWhile isTagWord) (second.dropWhile isTagWord) :=
    beside.dropWhile ⟨rfl, rfl, rfl⟩
  have shorter := Input.size_dropWhile_le isTagWord first
  rw [readBracketedTag, readBracketedTag]
  refine .bind (tagParts_reads true named) fun x y parts => ?_
  rw [parts.beside.isAt rfl]
  split
  · rename_i closes
    have after := parts.beside.advance_isAt closes rfl
    have passed {start input : Input} (reached : start.Reaches input) {rest : Input}
        (parts : (input.dropWhile isTagWord).Reaches rest) : start.Reaches rest.advance :=
      (reached.trans ((Input.reaches_dropWhile ..).trans parts)).trans (Input.reaches_advance _)
    have kept := between_kept begun (passed reached x.reached) (passed arrived y.reached) after
    exact .ok ⟨after, .tag kept (word_akin beside rfl) (word_text beside _) parts.values⟩
  · exact .error rfl
termination_by 3 * first.size + 2
decreasing_by all_goals omega

theorem tagParts_reads (bracketed : Bool) {first second : Input} (beside : Beside spelling first second) :
    Lexes (Meets spelling (List.Forall₂ (Akin spelling))) (readTagParts bracketed first)
      (readTagParts bracketed second) := by
  have more (goesOn : ¬ first.atEnd = true) : 0 < first.size :=
    Nat.pos_of_ne_zero fun none => goesOn ((Input.atEnd_iff first).mpr none)
  have marks := endMark_rel beside
  rw [readTagParts, readTagParts, beside.atEnd, beside.isAt rfl, beside.isAt rfl, beside.isAt rfl,
    beside.isAt rfl, beside.isAt rfl]
  split
  · exact .ok ⟨beside, .nil⟩
  rename_i goesOn
  have later := (Input.passes_advance (more goesOn)).2
  split
  · exact .ok ⟨beside, .nil⟩
  split
  · rename_i note
    have word : Beside spelling first.advance second.advance := by
      rcases note with dot | hash
      · exact beside.advance_isAt dot rfl
      · exact beside.advance_isAt hash rfl
    have after : Beside spelling (first.advance.dropWhile isTagWord) (second.advance.dropWhile isTagWord) :=
      word.dropWhile ⟨rfl, rfl, rfl⟩
    have shorter := Input.size_dropWhile_le isTagWord first.advance
    dsimp only
    rw [word.isClass ⟨rfl, rfl⟩, word.atLineEnd]
    split
    · have kept := between_kept beside (Input.reaches_advance _) (Input.reaches_advance _) word
      exact .ok ⟨word, .cons (.inert rfl kept .nil) .nil⟩
    · refine .bind (tagParts_reads bracketed after) fun x y parts => .ok ⟨parts.beside, ?_⟩
      refine List.rel_append ?_ parts.values
      split
      · exact .cons (word_akin word rfl) .nil
      · split
        · exact .cons (word_akin word rfl) .nil
        · exact .nil
  split
  · rename_i opens
    refine .bind (attributeList_reads (beside.advance_isAt opens rfl)) fun x y list => ?_
    have := x.le
    exact .bind (tagParts_reads bracketed list.beside) fun z w parts =>
      .ok ⟨parts.beside, .cons list.values parts.values⟩
  split
  · rename_i opens
    refine .bind (attributeExpr_reads beside opens) fun x y expr => ?_
    have := x.le
    exact .bind (tagParts_reads bracketed expr.beside) fun z w parts =>
      .ok ⟨parts.beside, .cons expr.values parts.values⟩
  split
  · rename_i kind next marked
    rw [marked] at marks
    split
    · rename_i other follow found
      rw [found] at marks
      cases marks with
      | some related =>
        obtain ⟨same, inert, after⟩ := related
        obtain rfl : other = kind := same
        have kept := between_kept beside (reaches_of_endMark? marked) (reaches_of_endMark? found) after
        exact .bind (afterMark_reads after.skipSpacing bracketed other) fun x y parts =>
          .ok ⟨parts.beside, .cons (.inert inert kept .nil) parts.values⟩
    · rename_i found
      rw [found] at marks
      cases marks
  · rename_i marked
    rw [marked] at marks
    split
    · rename_i found
      rw [found] at marks
      cases marks
    · have := Input.size_skipSpacing_le first
      exact .bind (pieces_reads bracketed beside.skipSpacing) fun x y text =>
        .ok ⟨text.beside, text.values.tokens⟩
termination_by 3 * first.size + 1
decreasing_by all_goals omega

end

theorem text_reads {first second : Input} (beside : Beside spelling first second) :
    Lexes (Meets spelling (List.Forall₂ (Akin spelling))) (readText first) (readText second) :=
  .map (pieces_reads false beside) fun _ _ pieces => ⟨pieces.beside, pieces.values.tokens⟩

end HtmlTemplate.Respelling
