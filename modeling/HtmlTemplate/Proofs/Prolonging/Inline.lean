import HtmlTemplate.Proofs.Offsets.Parts
import HtmlTemplate.Proofs.Prolonging.Expressions
import HtmlTemplate.Proofs.Respelling.Inline

/-! Text and tags in a source that goes on in the next line. An attribute list, an output or a tag in brackets that is
read of the source is closed in it. -/

namespace HtmlTemplate.Prolonging

open Attribute CharClass Inline Respelling Statements

variable {tail : List Char} {first second start stop : Input}

/-! Attribute lists. -/

theorem piece_prolonged {quote : Char} (begun : (first.dropWhile (isPlain quote)).rest ≠ []) :
    piece quote (first.prolonged tail) = piece quote first := by
  unfold piece
  rw [Input.dropWhile_within begun, Input.between_prolonged _ (Input.reaches_dropWhile ..)]
  rfl

theorem readQuoted_prolongs (quote : Char) (start : Nat) {first second : Input} (same : second = first.prolonged tail) :
    Prolongs tail (readQuoted quote start first) (readQuoted quote start second) := by
  cases rest : (first.dropWhile (isPlain quote)).rest with
  | nil =>
    rw [readQuoted_ended start rest]
    exact .error
  | cons char text =>
    have begun : (first.dropWhile (isPlain quote)).rest ≠ [] := rest ▸ List.cons_ne_nil char text
    have marked : second.dropWhile (isPlain quote) = (first.dropWhile (isPlain quote)).prolonged tail :=
      same ▸ Input.dropWhile_within begun
    have longer : (second.dropWhile (isPlain quote)).rest = char :: (text ++ tail) := by
      rw [marked, Input.prolonged, rest, List.cons_append]
    have front : piece quote second = piece quote first := same ▸ piece_prolonged begun
    have past : (second.dropWhile (isPlain quote)).advance =
        (first.dropWhile (isPlain quote)).advance.prolonged tail := by
      rw [marked, Input.advance_prolonged begun]
    by_cases closes : char = quote
    · subst closes
      obtain ⟨_, one⟩ := readQuoted_closed start rest
      obtain ⟨_, two⟩ := readQuoted_closed start longer
      rw [one, two]
      exact .ok front past
    · cases text with
      | nil =>
        rw [readQuoted_broken start closes rest]
        exact .error
      | cons next text =>
        have escaped : (first.dropWhile (isPlain quote)).advance.rest ≠ [] := by
          rw [Reading.rest_advance, rest, List.tail_cons]
          exact List.cons_ne_nil next text
        have after : (second.dropWhile (isPlain quote)).advance.advance =
            (first.dropWhile (isPlain quote)).advance.advance.prolonged tail := by
          rw [past, Input.advance_prolonged escaped]
        have shorter : (first.dropWhile (isPlain quote)).advance.advance.size < first.size := by
          have := Input.size_dropWhile_le (isPlain quote) first
          have := (Input.passes_advance (List.length_pos_iff.mpr escaped)).2
          have := (Input.passes_advance (List.length_pos_iff.mpr begun)).2
          omega
        obtain ⟨_, one⟩ := readQuoted_escaped start closes rest
        obtain ⟨_, two⟩ := readQuoted_escaped start closes longer
        rw [one, two]
        refine .map (readQuoted_prolongs quote start after) fun x reached => ⟨?_, rfl⟩
        change piece quote second ++ Token.between .plainText (second.dropWhile (isPlain quote)).advance
          (second.dropWhile (isPlain quote)).advance.advance :: x.value = _
        rw [front, after, past, Input.between_prolonged _ (Input.reaches_advance _)]
        rfl
termination_by first.size

section

variable (ended : Ended tail) (same : second = first.prolonged tail)
include ended same

theorem isAt_eq {char : Char} (within : isLineEnd char = false) : second.isAt char = first.isAt char := by
  rw [same]
  refine Input.isClass_prolonged fun mark member => beq_false_of_ne ?_
  rintro rfl
  exact Bool.false_ne_true (within.symm.trans (ended mark member))

theorem atLineEnd_eq : second.atLineEnd = first.atLineEnd :=
  ended.atLineEnd_eq (same ▸ Input.extends_prolonged tail first)

theorem startsWith_eq {word : List Char} (flat : word.any isLineEnd = false) :
    second.startsWith word = first.startsWith word :=
  same ▸ Input.startsWith_prolonged (ended.plain flat)

theorem skipSpacing_eq : second.skipSpacing = first.skipSpacing.prolonged tail :=
  same ▸ Input.dropWhile_prolonged (ended.apart rfl rfl)

theorem word_eq : second.dropWhile isTagWord = (first.dropWhile isTagWord).prolonged tail :=
  same ▸ Input.dropWhile_prolonged (ended.apart rfl rfl)

omit ended

theorem advance_eq {class? : Char → Bool} (found : first.isClass class? = true) :
    second.advance = first.advance.prolonged tail :=
  same ▸ Input.advance_prolonged (Input.rest_ne_nil_of_isClass found)

theorem advanceBy_eq {word : List Char} (starts : first.startsWith word = true) :
    second.advanceBy word.length = (first.advanceBy word.length).prolonged tail :=
  same ▸ Input.advanceBy_prolonged (Input.length_le_of_startsWith starts)

theorem between_eq (kind : TokenKind) (reached : first.Reaches stop) :
    Token.between kind second (stop.prolonged tail) = Token.between kind first stop :=
  same ▸ Input.between_prolonged kind reached

end

section

variable (ended : Ended tail) (same : second = first.prolonged tail)
include ended same

theorem attrWord_eq : second.takeWhile isAttrWord = first.takeWhile isAttrWord :=
  same ▸ Input.takeWhile_prolonged (ended.apart rfl rfl)

theorem bareName_eq (some : first.takeWhile isAttrWord ≠ []) : (bareName second).value = (bareName first).value ∧
    (bareName second).rest = (bareName first).rest.prolonged tail := by
  have word := attrWord_eq ended same
  have starts := startsWith_takeWhile isAttrWord first
  have after := advanceBy_eq same starts
  have short := bareLength_le some (first.advanceBy (first.takeWhile isAttrWord).length)
  have within := Input.length_le_of_startsWith starts
  have length : bareLength (second.takeWhile isAttrWord) (second.advanceBy (second.takeWhile isAttrWord).length) =
      bareLength (first.takeWhile isAttrWord) (first.advanceBy (first.takeWhile isAttrWord).length) := by
    unfold bareLength
    rw [word, isAt_eq ended after rfl, isAt_eq ended after rfl]
  unfold bareName
  dsimp only
  rw [length]
  generalize bareLength (first.takeWhile isAttrWord) _ - 1 = count at short
  have begun : 0 < first.size := Nat.lt_of_lt_of_le (Nat.zero_lt_succ count) (short.trans within)
  have inside : count ≤ first.advance.size := by
    rw [Input.size_advance]
    exact Nat.le_sub_one_of_lt (short.trans within)
  have stop : second.advance.advanceBy count = (first.advance.advanceBy count).prolonged tail := by
    rw [same, Input.advance_prolonged (List.length_pos_iff.mp begun), Input.advanceBy_prolonged inside]
  have reached : first.Reaches (first.advance.advanceBy count) :=
    (Input.reaches_advance _).trans (Input.reaches_advanceBy ..)
  unfold nameWith
  dsimp only
  rw [stop, between_eq same _ reached, between_eq same _ reached]
  exact ⟨rfl, rfl⟩

theorem readName_prolongs : Prolongs tail (readName first) (readName second) := by
  cases rest : first.rest with
  | nil =>
    unfold readName
    rw [rest]
    exact .error
  | cons char text =>
    have longer : second.rest = char :: (text ++ tail) := by rw [same, Input.prolonged, rest, List.cons_append]
    cases quotes : Quoting.isQuote char with
    | false =>
      rw [readName_unquoted rest quotes, readName_unquoted longer quotes, attrWord_eq ended same]
      refine .ite (fun _ => .error) fun some => ?_
      obtain ⟨value, stop⟩ := bareName_eq ended same fun none => some (List.isEmpty_iff.mpr none)
      exact .ok value stop
    | true =>
      have advanced : second.advance = first.advance.prolonged tail :=
        same ▸ Input.advance_prolonged (rest ▸ List.cons_ne_nil char text)
      have place : second.pos = first.pos := by
        rw [same]
        rfl
      unfold readName
      rw [rest, longer]
      dsimp only
      rw [if_pos (Quoting.isQuote_iff.mp quotes), if_pos (Quoting.isQuote_iff.mp quotes), place]
      refine .map (readQuoted_prolongs char first.pos advanced) fun x reached => ⟨?_, rfl⟩
      exact congrArg (·.withChildren x.value)
        (between_eq same .attributeName ((Input.reaches_advance _).trans x.reached))

theorem readValue_prolongs (kind : TokenKind) (name : Token) (begun : start.Reaches first) :
    Prolongs tail (readValue kind start name first) (readValue kind (start.prolonged tail) name second) := by
  intro result read
  obtain ⟨x, found, read⟩ := Reading.bind_eq_ok.mp read
  obtain ⟨last, reached, span, -⟩ : Offsets.Spelled x :=
    (Offsets.embedded_settles .inline .attributeValue (Input.Reaches.refl first)).of_ok found
  have text : (start.prolonged tail).textTo x.value.span.stop = start.textTo x.value.span.stop := by
    rw [span]
    exact Input.textTo_prolonged (begun.trans reached)
  obtain ⟨arrived, again⟩ := embedded_prolongs lined_inline ended .attributeValue same x found
  obtain rfl := Except.ok.inj read
  unfold readValue
  rw [again]
  refine Prolongs.found ?_ rfl
  rw [← text]
  rfl

/-- After a name something follows that begins a value or ends the pair. -/
theorem readPair_prolongs : Prolongs tail (readPair first) (readPair second) := by
  refine .bind (readName_prolongs ended same) fun x reached => ?_
  have begun : first.Reaches x.rest := (Input.reaches_advance _).trans x.reached
  dsimp only
  rw [startsWith_eq ended rfl rfl, isAt_eq ended rfl rfl]
  refine .ite (fun starts => ?_) fun _ => .ite (fun found => ?_) fun _ => ?_
  · obtain rfl := same
    have reached : first.Reaches (x.rest.advanceBy 2) := begun.trans (Input.reaches_advanceBy ..)
    exact .bind (readValue_prolongs ended (advanceBy_eq rfl starts) .rawPair x.value reached) fun z _ => .ok rfl rfl
  · obtain rfl := same
    have reached : first.Reaches x.rest.advance := begun.trans (Input.reaches_advance _)
    exact .bind (readValue_prolongs ended (advance_eq rfl found) .escapedPair x.value reached) fun z _ => .ok rfl rfl
  · split
    · rename_i ends
      have filled : x.rest.rest ≠ [] := Input.rest_ne_nil_of_isClass ends
      rw [if_pos ((Elements.Extends.isClass_begun (Input.extends_prolonged tail x.rest) filled _).trans ends)]
      refine .ok ?_ rfl
      exact congrArg (·.withChildren [x.value]) (between_eq same .escapedPair begun)
    · exact .error

end

theorem skipSeparator_within (begun : (skipSeparator first).rest ≠ []) :
    skipSeparator (first.prolonged tail) = (skipSeparator first).prolonged tail := by
  unfold skipSeparator at begun ⊢
  dsimp only at begun ⊢
  split at begun
  · rename_i comma
    have spaced : (first.prolonged tail).skipWhitespace = first.skipWhitespace.prolonged tail :=
      Input.dropWhile_within (Input.rest_ne_nil_of_isClass comma)
    have filled := Input.rest_ne_nil_of_isClass comma
    have again : (first.prolonged tail).skipWhitespace.isAt ',' = true := by
      rw [spaced]
      exact (Elements.Extends.isClass_begun (Input.extends_prolonged tail _) filled _).trans comma
    rw [if_pos again, if_pos comma, advance_eq spaced comma]
    exact Input.dropWhile_within begun
  · rename_i other
    have spaced : (first.prolonged tail).skipWhitespace = first.skipWhitespace.prolonged tail :=
      Input.dropWhile_within begun
    have again : ¬ (first.prolonged tail).skipWhitespace.isAt ',' = true := by
      rw [spaced, Input.isAt, Elements.Extends.isClass_begun (Input.extends_prolonged tail _) begun]
      exact other
    rw [if_neg again, if_neg other, spaced]

/-- The pairs of a list that goes on after them. -/
theorem readPairs_within (ended : Ended tail) {first second : Input} (same : second = first.prolonged tail)
    {parsed : Parsed (List Token) first} (read : readPairs first = .ok parsed) (within : parsed.rest.rest ≠ []) :
    ∃ reached, readPairs second = .ok ⟨parsed.value, parsed.rest.prolonged tail, reached⟩ := by
  have begun : first.rest ≠ [] :=
    List.length_pos_iff.mp (Nat.lt_of_lt_of_le (List.length_pos_iff.mpr within) parsed.le)
  have goes : (second.atEnd = true ∨ second.isAt ')' = true) ↔ first.atEnd = true ∨ first.isAt ')' = true := by
    rw [isAt_eq ended same rfl, Input.atEnd_iff, Input.atEnd_iff, same]
    simp [Input.prolonged, begun]
  rw [readPairs] at read
  split at read
  · rename_i stops
    obtain rfl := Except.ok.inj read
    rw [readPairs, if_pos (goes.mpr stops)]
    exact Prolongs.found rfl same
  · rename_i goesOn
    obtain ⟨pair, found, read⟩ := Reading.bind_eq_ok.mp read
    obtain ⟨more, others, read⟩ := Reading.bind_eq_ok.mp read
    obtain rfl := Except.ok.inj read
    obtain ⟨arrived, again⟩ := readPair_prolongs ended same pair found
    have filled : (skipSeparator pair.rest).rest ≠ [] :=
      List.length_pos_iff.mp (Nat.lt_of_lt_of_le (List.length_pos_iff.mpr within) more.le)
    have shorter : (skipSeparator pair.rest).size < first.size := by
      have := (reaches_skipSeparator pair.rest).size_le
      have := pair.le
      have := (Input.passes_advance (List.length_pos_iff.mpr begun)).2
      omega
    obtain ⟨reached, later⟩ := readPairs_within ended (skipSeparator_within filled) others within
    rw [readPairs, if_neg (mt goes.mp goesOn), again]
    change ∃ reached, (readPairs (skipSeparator (pair.rest.prolonged tail)) >>= _) = _
    rw [later]
    exact Prolongs.found rfl rfl
termination_by first.size

theorem readList_prolongs (ended : Ended tail) (same : second = first.prolonged tail) :
    Prolongs tail (readList first) (readList second) := by
  intro result read
  obtain ⟨pairs, found, read⟩ := Reading.bind_eq_ok.mp read
  split at read
  · rename_i closes
    have within : pairs.rest.rest ≠ [] := Input.rest_ne_nil_of_isClass closes
    have begun : first.skipWhitespace.rest ≠ [] :=
      List.length_pos_iff.mp (Nat.lt_of_lt_of_le (List.length_pos_iff.mpr within) pairs.le)
    have inner : second.skipWhitespace = first.skipWhitespace.prolonged tail := same ▸ Input.dropWhile_within begun
    obtain ⟨reached, again⟩ := readPairs_within ended inner found within
    have closed : (pairs.rest.prolonged tail).isAt ')' = true := (isAt_eq ended rfl rfl).trans closes
    obtain rfl := Except.ok.inj read
    unfold readList
    rw [again]
    change ∃ reached, (if (pairs.rest.prolonged tail).isAt ')' = true then _ else _) = _
    rw [if_pos closed]
    refine Prolongs.found ?_ (advance_eq rfl closes)
    exact congrArg (·.withChildren pairs.value)
      (between_eq same .attributeList ((Input.reaches_skipWhitespace _).trans pairs.reached))
  · cases read

/-! Outputs and the parts of a tag. -/

section

variable (ended : Ended tail) (same : second = first.prolonged tail)
include ended same

theorem ends_eq (bracketed : Bool) : ends bracketed second = ends bracketed first := by
  unfold ends
  rw [atLineEnd_eq ended same, isAt_eq ended same rfl]

theorem readOutput_prolongs (kind : TokenKind) : Prolongs tail (readOutput kind first) (readOutput kind second) := by
  refine .bind (embedded_prolongs lined_inline ended .interpolation same) fun x reached => ?_
  dsimp only
  rw [isAt_eq ended rfl rfl]
  exact .ite (fun closes => .ok rfl (advance_eq rfl closes)) fun _ => .error

theorem readTagOutput_prolongs (bracketed : Bool) (kind : TokenKind) :
    Prolongs tail (readTagOutput bracketed kind first) (readTagOutput bracketed kind second) := by
  refine .bind (embedded_prolongs lined_output ended .tagOutput same) fun x reached => ?_
  dsimp only
  rw [ends_eq ended rfl]
  exact .ite (fun _ => .ok rfl rfl) fun _ => .error

theorem readAfterMark_prolongs (bracketed : Bool) (kind : TokenKind) :
    Prolongs tail (readAfterMark bracketed kind first) (readAfterMark bracketed kind second) := by
  unfold readAfterMark
  rw [ends_eq ended same]
  exact .ite (fun _ => .ok rfl same) fun _ =>
    .ite (fun _ => .error) fun _ => readTagOutput_prolongs ended same bracketed kind

theorem readAttributeExpr_prolongs (found : first.isAt '&' = true) :
    Prolongs tail (readAttributeExpr first) (readAttributeExpr second) := by
  have advanced := advance_eq same found
  unfold readAttributeExpr
  split
  · exact .error
  · rename_i next eaten
    have further : Elements.Extends tail first.advance second.advance := advanced ▸ Input.extends_prolonged tail _
    obtain ⟨follow, again, after⟩ := further.eatWord_some eaten
    have later : follow = next.prolonged tail := by
      refine Input.eq_prolonged (Input.reaches_of_eatWord? eaten) ?_ after
      rw [← advanced]
      exact Input.reaches_of_eatWord? again
    split
    · rename_i none
      cases again.symm.trans none
    · rename_i other some
      obtain rfl := Option.some.inj (again.symm.trans some)
      refine .bind (embedded_prolongs lined_inline ended .attributes later) fun x reached => ?_
      dsimp only
      rw [isAt_eq ended rfl rfl]
      exact .ite (fun closes => .ok rfl (advance_eq rfl closes)) fun _ => .error

/-- The mark that ends the notes of a tag is the same. -/
theorem endMark_eq : endMark? second = (endMark? first).map fun (kind, next) => (kind, next.prolonged tail) := by
  unfold endMark?
  rw [isAt_eq ended same rfl, isAt_eq ended same rfl, startsWith_eq ended same rfl]
  split
  · rename_i found
    rw [advance_eq same found]
    rfl
  · split
    · rename_i found
      rw [advance_eq same found]
      rfl
    · split
      · rename_i starts
        have after : second.advanceBy 2 = (first.advanceBy 2).prolonged tail := advanceBy_eq same starts
        rw [after]
        rfl
      · rfl

/-! Backslashes. -/

theorem startsMark_eq : startsMark second = startsMark first := by
  unfold startsMark
  rw [startsWith_eq ended same rfl, startsWith_eq ended same rfl, startsWith_eq ended same rfl]

theorem outputMark_eq : outputMark? second = outputMark? first := by
  unfold outputMark?
  rw [startsWith_eq ended same rfl, startsWith_eq ended same rfl]

omit ended in
theorem advanceBy_outputMark {kind : TokenKind} (mark : outputMark? first = some kind) :
    second.advanceBy 2 = (first.advanceBy 2).prolonged tail := by
  unfold outputMark? at mark
  split at mark
  · exact advanceBy_eq same ‹_›
  · split at mark
    · exact advanceBy_eq same ‹_›
    · cases mark

/-- What a backslash stands before, if it is not the last character. -/
theorem escape_eq (escapes : first.isAt '\\' = true) (more : first.advance.rest ≠ []) :
    escapePiece second = escapePiece first ∧ afterEscape second = (afterEscape first).prolonged tail := by
  have advanced := advance_eq same escapes
  have take {input : Input} (within : 2 ≤ input.size) : (input.prolonged tail).rest.take 2 = input.rest.take 2 :=
    List.take_append_of_le_length within
  unfold escapePiece afterEscape
  rw [advanced, startsMark_eq ended rfl]
  cases mark : startsMark first.advance with
  | true =>
    have within : 2 ≤ first.advance.size := by
      obtain ⟨word, length, -, starts⟩ := word_of_startsMark mark
      exact length ▸ Input.length_le_of_startsWith starts
    simp only [if_true, take within]
    exact ⟨rfl, Input.advanceBy_prolonged within⟩
  | false =>
    have within : 2 ≤ first.size := by
      have filled : 0 < first.advance.size := List.length_pos_iff.mpr more
      have := (Input.passes_advance_of_isClass escapes).2
      omega
    simp only [Bool.false_eq_true, if_false, same, take within]
    exact ⟨rfl, Input.advance_prolonged more⟩

end

/-! Text, and tags in it. -/

/-- A text that does not end in a backslash does not end in one from a later place on. -/
theorem unescaped_of_reaches (reached : first.Reaches stop) (unescaped : first.rest.getLast? ≠ some '\\') :
    stop.rest.getLast? ≠ some '\\' := by
  obtain ⟨read, rest, -⟩ := reached
  intro last
  rw [rest, List.getLast?_append, last] at unescaped
  exact unescaped rfl

theorem advance_ne_nil (unescaped : first.rest.getLast? ≠ some '\\') (escapes : first.isAt '\\' = true) :
    first.advance.rest ≠ [] := by
  intro none
  rw [rest_of_isAt escapes, none] at unescaped
  exact unescaped rfl

/-- Where a line ends, there are no more parts of a tag. -/
theorem readTagParts_ended (ended : Ended tail) (bracketed : Bool) {input : Input} (rest : input.rest = tail) :
    ∃ reached, readTagParts bracketed input = .ok ⟨[], input, reached⟩ := by
  refine ⟨.refl input, ?_⟩
  have other (char : Char) (within : isLineEnd char = false) : input.isAt char = false := ended.isAt within rest
  have unequal : input.startsWith ['!', '='] = false := Bool.eq_false_iff.mpr fun starts => by
    obtain ⟨more, whole⟩ := List.isPrefixOf_iff_prefix.mp starts
    exact Bool.false_ne_true ((other '!' rfl).symm.trans (Reading.isClass_eq whole.symm _))
  have unmarked : endMark? input = none := by
    unfold endMark?
    rw [other _ rfl, other _ rfl, unequal]
    rfl
  have spaced : input.skipSpacing = input := by
    refine Reading.dropWhile_outside (Bool.eq_false_iff.mpr fun spacing => ?_)
    obtain ⟨char, more, whole⟩ := List.exists_cons_of_ne_nil (Input.rest_ne_nil_of_isClass spacing)
    have apart : Elements.Apart isSpacing tail := ended.apart rfl rfl
    have within := apart char (by rw [← rest, whole]; rfl)
    rw [Reading.isClass_eq whole, within] at spacing
    cases spacing
  have stops : readPieces bracketed input.skipSpacing = .ok (.here input.skipSpacing []) := by
    refine readPieces_ended ?_
    rw [spaced, ends, ended.atLineEnd rest, Bool.true_or]
  rw [readTagParts]
  split
  · rfl
  · simp only [other ':' rfl, other '.' rfl, other '#' rfl, other '(' rfl, other '&' rfl, Bool.false_eq_true,
      if_false, or_self]
    split
    · rename_i found
      cases unmarked.symm.trans found
    · rw [stops]
      exact congrArg Except.ok ((Parsed.mk.injEq ..).mpr ⟨rfl, spaced⟩)

mutual

theorem readPieces_prolongs (ended : Ended tail) (bracketed : Bool) {first second : Input}
    (same : second = first.prolonged tail) (unescaped : first.rest.getLast? ≠ some '\\') :
    Prolongs tail (readPieces bracketed first) (readPieces bracketed second) := by
  have stops := ends_eq ended same bracketed
  cases goesOn : ends bracketed first with
  | true =>
    rw [readPieces_ended goesOn, readPieces_ended (stops.trans goesOn)]
    exact .ok rfl same
  | false =>
    have longer := stops.trans goesOn
    have begun : 0 < first.size := by
      refine Nat.pos_of_ne_zero fun none => ?_
      exact Bool.false_ne_true ((atEnd_of_ends goesOn).symm.trans ((Input.atEnd_iff first).mpr none))
    have shorter := (Input.passes_advance begun).2
    have past := Input.size_advanceBy 2 first
    cases escapes : first.isAt '\\' with
    | true =>
      -- A backslash takes the next character with it. The last one of a line would take the end of the line.
      have passes := escape_passes escapes
      obtain ⟨piece, after⟩ := escape_eq ended same escapes (advance_ne_nil unescaped escapes)
      obtain ⟨_, one⟩ := readPieces_escaped goesOn escapes
      obtain ⟨_, two⟩ := readPieces_escaped longer ((isAt_eq ended same rfl).trans escapes)
      have more := unescaped_of_reaches passes.1 unescaped
      have := passes.2
      rw [one, two]
      exact .map (readPieces_prolongs ended bracketed after more) fun x _ => ⟨congrArg (· :: x.value) piece, rfl⟩
    | false =>
      have unmarked : second.isAt '\\' = false := (isAt_eq ended same rfl).trans escapes
      cases mark : outputMark? first with
      | some kind =>
        have after := advanceBy_outputMark same mark
        obtain ⟨_, one⟩ := readPieces_output goesOn escapes mark
        obtain ⟨_, two⟩ := readPieces_output longer unmarked ((outputMark_eq ended same).trans mark)
        rw [one, two]
        refine .bind (readOutput_prolongs ended after kind) fun x reached => ?_
        have := x.le
        have more := unescaped_of_reaches ((Input.reaches_advanceBy ..).trans x.reached) unescaped
        exact .map (readPieces_prolongs ended bracketed rfl more) fun z _ => ⟨rfl, rfl⟩
      | none =>
        have silent := (outputMark_eq ended same).trans mark
        have tagged : second.startsWith ['#', '['] = first.startsWith ['#', '['] := startsWith_eq ended same rfl
        cases opens : first.startsWith ['#', '['] with
        | true =>
          have after : second.advanceBy 2 = (first.advanceBy 2).prolonged tail := advanceBy_eq same opens
          obtain ⟨_, one⟩ := readPieces_tag goesOn escapes mark opens
          obtain ⟨_, two⟩ := readPieces_tag longer unmarked silent (tagged.trans opens)
          have inner := unescaped_of_reaches (Input.reaches_advanceBy 2 first) unescaped
          rw [one, two]
          have tag := readBracketedTag_prolongs ended (Input.reaches_advanceBy ..) same after inner
          refine .bind tag fun x reached => ?_
          have := x.le
          have more := unescaped_of_reaches x.reached inner
          exact .map (readPieces_prolongs ended bracketed rfl more) fun z _ => ⟨rfl, rfl⟩
        | false =>
          have advanced : second.advance = first.advance.prolonged tail :=
            same ▸ Input.advance_prolonged (List.length_pos_iff.mp begun)
          have more := unescaped_of_reaches (Input.reaches_advance first) unescaped
          have letter : Piece.literal second.pos (second.rest.take 1) = .literal first.pos (first.rest.take 1) := by
            rw [same]
            exact congrArg (Piece.literal first.pos) (List.take_append_of_le_length begun)
          rw [readPieces_char goesOn escapes mark opens,
            readPieces_char longer unmarked silent (tagged.trans opens)]
          exact .map (readPieces_prolongs ended bracketed advanced more) fun x _ =>
            ⟨congrArg (· :: x.value) letter, rfl⟩
termination_by 3 * first.size
decreasing_by all_goals omega

theorem readBracketedTag_prolongs (ended : Ended tail) {start stop first second : Input} (begun : start.Reaches first)
    (place : stop = start.prolonged tail) (same : second = first.prolonged tail)
    (unescaped : first.rest.getLast? ≠ some '\\') :
    Prolongs tail (readBracketedTag start first) (readBracketedTag stop second) := by
  have named := word_eq ended same
  have shorter := Input.size_dropWhile_le isTagWord first
  have inner := unescaped_of_reaches (Input.reaches_dropWhile isTagWord first) unescaped
  rw [readBracketedTag, readBracketedTag]
  refine .bind (readTagParts_prolongs ended true named inner) fun x reached => ?_
  dsimp only
  rw [isAt_eq ended rfl rfl]
  refine .ite (fun closes => .ok ?_ (advance_eq rfl closes)) fun _ => .error
  have passed : start.Reaches x.rest.advance :=
    begun.trans ((Input.reaches_dropWhile ..).trans (x.reached.trans (Input.reaches_advance _)))
  dsimp only
  rw [advance_eq rfl closes, named, between_eq place _ passed, between_eq same _ (Input.reaches_dropWhile ..)]
termination_by 3 * first.size + 2
decreasing_by all_goals omega

theorem readTagParts_prolongs (ended : Ended tail) (bracketed : Bool) {first second : Input}
    (same : second = first.prolonged tail) (unescaped : first.rest.getLast? ≠ some '\\') :
    Prolongs tail (readTagParts bracketed first) (readTagParts bracketed second) := by
  by_cases done : first.atEnd = true
  · have rest : second.rest = tail := by
      rw [same, Input.prolonged, List.isEmpty_iff.mp done, List.nil_append]
    obtain ⟨_, two⟩ := readTagParts_ended ended bracketed rest
    rw [readTagParts, dif_pos done, two]
    exact .ok rfl same
  have begun : first.rest ≠ [] := fun none => done (List.isEmpty_iff.mpr none)
  have longer : ¬ second.atEnd = true := by
    rw [Input.atEnd_iff, same]
    simp [Input.prolonged, begun]
  have marks := endMark_eq ended same
  have advanced : second.advance = first.advance.prolonged tail := same ▸ Input.advance_prolonged begun
  have later := (Input.passes_advance (List.length_pos_iff.mpr begun)).2
  rw [readTagParts, readTagParts, dif_neg done, dif_neg longer, isAt_eq ended same rfl, isAt_eq ended same rfl,
    isAt_eq ended same rfl, isAt_eq ended same rfl, isAt_eq ended same rfl]
  refine .ite (fun _ => .ok rfl same) fun _ => .ite (fun note => ?_) fun _ => .ite (fun opens => ?_) fun _ =>
    .ite (fun opens => ?_) fun _ => ?_
  · have after := word_eq ended advanced
    have shorter := Input.size_dropWhile_le isTagWord first.advance
    have letters : second.advance.isClass isTagWord = first.advance.isClass isTagWord :=
      advanced ▸ Input.isClass_prolonged (ended.apart rfl rfl)
    dsimp only
    rw [letters, atLineEnd_eq ended advanced]
    refine .ite (fun _ => .ok ?_ advanced) fun _ => ?_
    · dsimp only
      rw [advanced, between_eq same _ (Input.reaches_advance _)]
    · have more := unescaped_of_reaches ((Input.reaches_advance first).trans
        (Input.reaches_dropWhile isTagWord _)) unescaped
      have word (kind : TokenKind) : Token.between kind second.advance (second.advance.dropWhile isTagWord) =
          .between kind first.advance (first.advance.dropWhile isTagWord) := by
        rw [after, between_eq advanced _ (Input.reaches_dropWhile ..)]
      rw [word, word]
      exact .bind (readTagParts_prolongs ended bracketed after more) fun x _ => .ok rfl rfl
  · refine .bind (readList_prolongs ended advanced) fun x reached => ?_
    have := x.le
    have more := unescaped_of_reaches ((Input.reaches_advance first).trans x.reached) unescaped
    exact .bind (readTagParts_prolongs ended bracketed rfl more) fun z _ => .ok rfl rfl
  · refine .bind (readAttributeExpr_prolongs ended same opens) fun x reached => ?_
    have := x.le
    have more := unescaped_of_reaches ((Input.reaches_advance first).trans x.reached) unescaped
    exact .bind (readTagParts_prolongs ended bracketed rfl more) fun z _ => .ok rfl rfl
  · split
    · rename_i kind next marked
      rw [marked] at marks
      split
      · rename_i twin follow found
        obtain ⟨rfl, rfl⟩ := Prod.mk.inj (Option.some.inj (found.symm.trans marks))
        refine .bind (readAfterMark_prolongs ended (skipSpacing_eq ended rfl) bracketed twin) fun x _ => .ok ?_ rfl
        exact congrArg (· :: x.value) (between_eq same twin (reaches_of_endMark? marked))
      · rename_i none
        cases marks.symm.trans none
    · rename_i marked
      rw [marked] at marks
      split
      · rename_i some
        cases marks.symm.trans some
      · have := Input.size_skipSpacing_le first
        have more := unescaped_of_reaches (Input.reaches_skipSpacing first) unescaped
        exact .bind (readPieces_prolongs ended bracketed (skipSpacing_eq ended same) more) fun x _ => .ok rfl rfl
termination_by 3 * first.size + 1
decreasing_by all_goals omega

end

theorem readText_prolongs (ended : Ended tail) (same : second = first.prolonged tail)
    (unescaped : first.rest.getLast? ≠ some '\\') : Prolongs tail (readText first) (readText second) :=
  .map (readPieces_prolongs ended false same unescaped) fun _ _ => ⟨rfl, rfl⟩

/-! Where text ends. -/

theorem readPieces_stops (bracketed : Bool) {input : Input} {parsed : Parsed (List Piece) input}
    (read : readPieces bracketed input = .ok parsed) : ends bracketed parsed.rest = true := by
  cases goesOn : ends bracketed input with
  | true =>
    rw [readPieces_ended goesOn] at read
    cases read
    exact goesOn
  | false =>
    have begun : 0 < input.size := by
      refine Nat.pos_of_ne_zero fun none => ?_
      exact Bool.false_ne_true ((atEnd_of_ends goesOn).symm.trans ((Input.atEnd_iff input).mpr none))
    have shorter := (Input.passes_advance begun).2
    have past := Input.size_advanceBy 2 input
    cases escapes : input.isAt '\\' with
    | true =>
      have := (escape_passes escapes).2
      obtain ⟨_, whole⟩ := readPieces_escaped goesOn escapes
      obtain ⟨more, found, rfl⟩ := Reading.map_eq_ok.mp (whole.symm.trans read)
      have stops : ends bracketed more.rest = true := readPieces_stops bracketed found
      exact stops
    | false =>
      cases mark : outputMark? input with
      | some kind =>
        obtain ⟨_, whole⟩ := readPieces_output goesOn escapes mark
        obtain ⟨output, -, read⟩ := Reading.bind_eq_ok.mp (whole.symm.trans read)
        obtain ⟨more, found, rfl⟩ := Reading.map_eq_ok.mp read
        have := output.le
        have stops : ends bracketed more.rest = true := readPieces_stops bracketed found
        exact stops
      | none =>
        cases opens : input.startsWith ['#', '['] with
        | true =>
          obtain ⟨_, whole⟩ := readPieces_tag goesOn escapes mark opens
          obtain ⟨tag, -, read⟩ := Reading.bind_eq_ok.mp (whole.symm.trans read)
          obtain ⟨more, found, rfl⟩ := Reading.map_eq_ok.mp read
          have := tag.le
          have stops : ends bracketed more.rest = true := readPieces_stops bracketed found
          exact stops
        | false =>
          have whole := readPieces_char goesOn escapes mark opens
          obtain ⟨more, found, rfl⟩ := Reading.map_eq_ok.mp (whole.symm.trans read)
          have stops : ends bracketed more.rest = true := readPieces_stops bracketed found
          exact stops
termination_by input.size
decreasing_by all_goals omega

/-- Text goes up to the end of its line. -/
theorem readText_stops {input : Input} {parsed : Parsed (List Token) input} (read : readText input = .ok parsed) :
    parsed.rest.atLineEnd = true := by
  obtain ⟨pieces, found, rfl⟩ := Reading.map_eq_ok.mp read
  have stops := readPieces_stops false found
  rwa [ends, Bool.false_and, Bool.or_false] at stops

end HtmlTemplate.Prolonging
