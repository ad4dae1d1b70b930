import HtmlTemplate.Proofs.Respelling.Parts
import HtmlTemplate.Token.Attribute

/-! The attribute list of a tag in two texts that differ in blanks. -/

namespace HtmlTemplate.Respelling

open Attribute CharClass Quoting

variable {spelling : Spelling} {first second : Input}

/-! Names in quotes. -/

/-- Something is skipped just where something is found. -/
theorem pos_dropWhile_eq (class? : Char → Bool) (input : Input) :
    (input.dropWhile class?).pos = input.pos ↔ input.isClass class? = false := by
  obtain ⟨pos, text⟩ := input
  cases text with
  | nil => exact iff_of_true rfl rfl
  | cons char text =>
    change (if class? char = true then Input.dropFrom class? (pos + char.utf8Size) text else _).pos = pos ↔
      class? char = false
    cases inside : class? char with
    | false => exact iff_of_true rfl rfl
    | true =>
      obtain ⟨read, -, after⟩ := Input.reaches_dropFrom class? (pos + char.utf8Size) text
      have := Char.utf8Size_pos char
      refine iff_of_false ?_ (by decide)
      rw [if_pos rfl, after]
      dsimp only
      omega

/-- Two pieces of a name with the same text. -/
inductive Copies : Token → Token → Prop where
  | intro (span twin : Span) (text : String) :
      Copies ⟨.plainText, span, text, none, []⟩ ⟨.plainText, twin, text, none, []⟩

theorem Copies.akin {token twin : Token} (copies : Copies token twin) : Akin spelling token twin := by
  cases copies
  exact .written rfl (.refl _ _) .nil

theorem texts_of_copies {tokens twins : List Token} (copies : List.Forall₂ Copies tokens twins) :
    twins.map Token.text = tokens.map Token.text := by
  induction copies with
  | nil => rfl
  | cons first _ step =>
    cases first
    rw [List.map_cons, List.map_cons, step]

theorem copies_between {start stop other final : Input} (same : other.textTo final.pos = start.textTo stop.pos) :
    Copies (.between .plainText start stop) (.between .plainText other final) := by
  unfold Token.between
  rw [same]
  exact .intro ..

/-- The pieces of a name, up to its closing quote. They are the same unless the name spans lines. -/
structure Pieces (spelling : Spelling) (x : Parsed (List Token) first) (y : Parsed (List Token) second) :
    Prop where
  beside : Beside spelling x.rest y.rest
  same : spelling.keeps ∨ Inside spelling first second ∧ (∀ char ∈ first.textTo x.rest.pos, isLineEnd char = false) →
    List.Forall₂ Copies x.value y.value

/-- Whether a character of a name in quotes stands for itself. -/
def isPlain (quote char : Char) : Bool := !(char == quote || char == '\\')

/-- The piece of a name before a quote or a backslash. -/
def piece (quote : Char) (input : Input) : List Token :=
  if (input.dropWhile (isPlain quote)).pos = input.pos then []
  else [.between .plainText input (input.dropWhile (isPlain quote))]

theorem isPlain_of_blank {quote char : Char} (quotes : isQuote quote = true) (blank : isWhitespace char = true) :
    isPlain quote char = true := by
  obtain ⟨inner, plain⟩ := plain_of_blank quotes blank
  rw [isPlain, beq_false_of_ne inner, beq_false_of_ne plain]
  rfl

theorem isPlain_skips {quote : Char} (quotes : isQuote quote = true) : Skips (isPlain quote) := by
  have plain {blank : Char} (white : isWhitespace blank = true) := isPlain_of_blank quotes white
  constructor
  · rw [plain rfl, plain rfl]
  · rw [plain rfl, plain rfl]
  · rw [plain rfl, plain rfl]
    rfl

section

variable {quote : Char} {input : Input} (start : Nat)

theorem readQuoted_ended (rest : (input.dropWhile (isPlain quote)).rest = []) :
    readQuoted quote start input = .error ⟨.attributeName, start⟩ := by
  rw [readQuoted]
  split
  · rfl
  · rename_i other
    cases rest.symm.trans other

theorem readQuoted_closed {text : List Char} (rest : (input.dropWhile (isPlain quote)).rest = quote :: text) :
    ∃ reached, readQuoted quote start input =
      .ok ⟨piece quote input, (input.dropWhile (isPlain quote)).advance, reached⟩ := by
  refine ⟨(Input.reaches_dropWhile ..).trans (Input.reaches_advance _), ?_⟩
  rw [readQuoted]
  split
  · rename_i other
    cases rest.symm.trans other
  · rename_i other
    cases rest.symm.trans other
    rw [if_pos rfl]
    rfl

variable {char : Char} (inner : char ≠ quote)
include inner

theorem readQuoted_broken (rest : (input.dropWhile (isPlain quote)).rest = [char]) :
    readQuoted quote start input = .error ⟨.attributeName, start⟩ := by
  rw [readQuoted]
  split
  · rfl
  · rename_i other
    cases rest.symm.trans other
    rw [if_neg inner]
    rfl

theorem readQuoted_escaped {next : Char} {text : List Char}
    (rest : (input.dropWhile (isPlain quote)).rest = char :: next :: text) :
    ∃ reached, readQuoted quote start input =
      (readQuoted quote start (input.dropWhile (isPlain quote)).advance.advance).map fun more =>
        (more.map (piece quote input ++ .between .plainText (input.dropWhile (isPlain quote)).advance
          (input.dropWhile (isPlain quote)).advance.advance :: ·)).widen reached := by
  refine ⟨(Input.reaches_dropWhile ..).trans ((Input.reaches_advance _).trans (Input.reaches_advance _)), ?_⟩
  rw [readQuoted]
  split
  · rename_i other
    cases rest.symm.trans other
  · rename_i other
    cases rest.symm.trans other
    rw [if_neg inner, List.isEmpty_cons, if_neg Bool.false_ne_true]
    change (readQuoted quote start (input.dropWhile (isPlain quote)).advance.advance >>= _) = _
    cases readQuoted quote start (input.dropWhile (isPlain quote)).advance.advance <;> rfl

end

theorem piece_copies {quote : Char} (quotes : isQuote quote = true) (beside : Beside spelling first second)
    (same : second.takeWhile (isPlain quote) = first.takeWhile (isPlain quote)) :
    List.Forall₂ Copies (piece quote first) (piece quote second) := by
  have found := beside.isClass (isPlain_skips quotes).blind
  unfold piece
  simp only [pos_dropWhile_eq, found]
  split
  · exact .nil
  · refine .cons (copies_between ?_) .nil
    rw [Input.textTo_dropWhile, Input.textTo_dropWhile, same]

/-- What is read of a name, from its piece on. -/
theorem textTo_piece {quote : Char} {input stop : Input} {read : List Char} (reached : input.Reaches stop)
    (rest : (input.dropWhile (isPlain quote)).rest = read ++ stop.rest) :
    input.textTo stop.pos = input.takeWhile (isPlain quote) ++ read := by
  refine Input.textTo_of_reaches ?_ reached
  rw [List.append_assoc, ← rest, Input.rest_dropWhile]
  exact List.takeWhile_append_dropWhile.symm

theorem readQuoted_reads {quote : Char} (quotes : isQuote quote = true) (start stop : Nat) {first second : Input}
    (beside : Beside spelling first second) :
    Lexes (Pieces spelling) (readQuoted quote start first) (readQuoted quote stop second) := by
  have skips := isPlain_skips quotes
  have after : spelling.beside (first.dropWhile (isPlain quote)).rest (second.dropWhile (isPlain quote)).rest :=
    beside.dropWhile skips
  -- The piece before a quote or a backslash, if the name is on one line up to there.
  have front (same : spelling.keeps ∨ Inside spelling first second ∧
      ∀ char ∈ first.takeWhile (isPlain quote), isLineEnd char = false) :
      List.Forall₂ Copies (piece quote first) (piece quote second) := by
    refine piece_copies quotes beside ?_
    rcases same with keeps | ⟨line, flat⟩
    · exact congrArg (List.takeWhile _) (spelling.same keeps beside)
    · exact (spelling.takeWhile_flat skips.blind flat line).1
  cases rest : (first.dropWhile (isPlain quote)).rest with
  | nil =>
    rw [rest] at after
    rw [readQuoted_ended start rest, readQuoted_ended stop (spelling.nil_iff after |>.mpr rfl)]
    exact .error rfl
  | cons char text =>
    have marks : isPlain quote char = false := by
      have first := List.head?_dropWhile_not (isPlain quote) first.rest
      rw [← Input.rest_dropWhile, rest] at first
      exact first
    have visible : isWhitespace char = false := Bool.eq_false_iff.mpr fun blank =>
      Bool.false_ne_true (marks.symm.trans (isPlain_of_blank quotes blank))
    rw [rest] at after
    obtain ⟨other, others, further⟩ := spelling.visible visible after
    by_cases closes : char = quote
    · subst closes
      obtain ⟨reached, one⟩ := readQuoted_closed start rest
      obtain ⟨follows, two⟩ := readQuoted_closed stop others
      have past : (first.dropWhile (isPlain char)).advance.rest = text := by
        rw [Reading.rest_advance, rest, List.tail_cons]
      have later : Beside spelling (first.dropWhile (isPlain char)).advance
          (second.dropWhile (isPlain char)).advance := by
        unfold Beside
        rw [past, Reading.rest_advance, others, List.tail_cons]
        exact spelling.weaken further
      rw [one, two]
      refine .ok ⟨later, fun same => front (same.imp_right fun both => ⟨both.1, ?_⟩)⟩
      have read : (first.dropWhile (isPlain char)).rest =
          [char] ++ (first.dropWhile (isPlain char)).advance.rest := by rw [rest, past]; rfl
      have flat := both.2
      rw [textTo_piece reached read] at flat
      exact (List.forall_mem_append.mp flat).1
    · have escapes : char = '\\' := by simpa [isPlain, closes] using marks
      subst escapes
      cases text with
      | nil =>
        have none := spelling.nil_iff (spelling.weaken further) |>.mpr rfl
        rw [readQuoted_broken start closes rest, readQuoted_broken stop closes (others.trans (by rw [none]))]
        exact .error rfl
      | cons next text =>
        obtain ⟨more, others, beyond, begun⟩ := spelling.escaped after
        obtain ⟨reached, one⟩ := readQuoted_escaped start closes rest
        obtain ⟨follows, two⟩ := readQuoted_escaped stop closes others
        have one_more (input : Input) {text : List Char}
            (rest : (input.dropWhile (isPlain quote)).rest = '\\' :: next :: text) :
            (input.dropWhile (isPlain quote)).advance.rest = next :: text ∧
              (input.dropWhile (isPlain quote)).advance.advance.rest = text := by
          rw [Reading.rest_advance (Input.advance _), Reading.rest_advance, rest]
          exact ⟨rfl, rfl⟩
        obtain ⟨escaped, past⟩ := one_more first rest
        obtain ⟨copied, follow⟩ := one_more second others
        have shorter : (first.dropWhile (isPlain quote)).advance.advance.size < first.size := by
          have := Input.size_dropWhile_le (isPlain quote) first
          rw [Input.size, rest, List.length_cons, List.length_cons] at this
          rw [Input.size, past]
          omega
        rw [← past, ← follow] at beyond begun
        rw [one, two]
        refine .map (readQuoted_reads quotes start stop beyond) fun x y read => ⟨read.beside, fun same => ?_⟩
        have texts_of {input : Input} {text : List Char} (rest : input.rest = next :: text) :
            input.textTo input.advance.pos = [next] := by
          refine Input.textTo_of_reaches ?_ (Input.reaches_advance input)
          rw [Reading.rest_advance, rest]
          rfl
        obtain ⟨later, laterRest, -⟩ := id x.reached
        have whole : (first.dropWhile (isPlain quote)).rest = ('\\' :: next :: later) ++ x.rest.rest := by
          rw [rest, ← past, laterRest]
          rfl
        have arrives : first.Reaches x.rest := reached.trans x.reached
        change spelling.keeps ∨ Inside spelling first second ∧
          ∀ mark ∈ first.textTo x.rest.pos, isLineEnd mark = false at same
        rw [textTo_piece arrives whole] at same
        have following : List.Forall₂ Copies x.value y.value := by
          refine read.same (same.imp_right fun both => ?_)
          obtain ⟨-, there⟩ := List.forall_mem_append.mp both.2
          obtain ⟨-, there⟩ := List.forall_mem_cons.mp there
          obtain ⟨within, there⟩ := List.forall_mem_cons.mp there
          refine ⟨begun within, ?_⟩
          rwa [Input.textTo_of_reaches laterRest x.reached]
        refine List.rel_append (front (same.imp_right fun both =>
          ⟨both.1, (List.forall_mem_append.mp both.2).1⟩)) (.cons (copies_between ?_) following)
        rw [texts_of escaped, texts_of copied]
termination_by first.size

/-! Names. -/

/-- Two names that are the same unless they span lines. -/
structure Called (spelling : Spelling) (name twin : Token) : Prop where
  akin : Akin spelling name twin
  kind : name.kind = .attributeName
  same : spelling.SparesName name.text → twin.children.map Token.text = name.children.map Token.text

theorem called_of_copies {span place : Span} {text other : String} {pieces others : List Token}
    (kept : spelling.keeps → other = text) (copies : spelling.SparesName text → List.Forall₂ Copies pieces others) :
    Called spelling ⟨.attributeName, span, text, none, pieces⟩ ⟨.attributeName, place, other, none, others⟩ :=
  ⟨.called kept fun spares => (copies spares).imp fun _ _ => Copies.akin, rfl,
    fun spares => texts_of_copies (copies spares)⟩

theorem Called.titled {name twin : Token} (called : Called spelling name twin) {kind : TokenKind}
    {span place : Span} {text other : String} {expr copy : Option Expr} {rest more : List Token} :
    Titled spelling ⟨kind, span, text, expr, name :: rest⟩ ⟨kind, place, other, copy, twin :: more⟩ := fun flat =>
  congrArg String.join (called.same (flat name List.mem_cons_self called.kind))

/-- A name in quotes, which may span lines. -/
theorem quotedName_called {quote : Char} {text : List Char} (rest : first.rest = quote :: text)
    (beside : Beside spelling first second) (inside : Inside spelling first.advance second.advance)
    {x : Parsed (List Token) first.advance} {y : Parsed (List Token) second.advance} (read : Pieces spelling x y) :
    Called spelling ((Token.between .attributeName first x.rest).withChildren x.value)
      ((Token.between .attributeName second y.rest).withChildren y.value) := by
  have reached : first.Reaches x.rest := (Input.reaches_advance _).trans x.reached
  refine called_of_copies (fun keeps => ?_) fun spares => read.same (spares.imp_right fun flat => ⟨inside, ?_⟩)
  · exact between_kept beside reached ((Input.reaches_advance _).trans y.reached) read.beside keeps
  · obtain ⟨later, laterRest, -⟩ := id x.reached
    have past : first.advance.rest = text := by rw [Reading.rest_advance, rest, List.tail_cons]
    have whole : first.rest = (quote :: later) ++ x.rest.rest := by
      rw [rest, ← past, laterRest]
      rfl
    change ∀ char ∈ (String.ofList (first.textTo x.rest.pos)).toList, isLineEnd char = false at flat
    rw [String.toList_ofList, Input.textTo_of_reaches whole reached] at flat
    rw [Input.textTo_of_reaches laterRest x.reached]
    exact (List.forall_mem_cons.mp flat).2

/-- How many characters of a word are a name, which is one at least. -/
theorem bareLength_le {word : List Char} (some : word ≠ []) (after : Input) :
    bareLength word after - 1 + 1 ≤ word.length := by
  have := List.length_pos_iff.mpr some
  unfold bareLength
  split <;> omega

theorem visible_attrWord (input : Input) : Visible (input.takeWhile isAttrWord) := fun char member =>
  (show Solid isAttrWord from ⟨rfl, rfl, rfl, rfl⟩).visible (List.all_eq_true.mp List.all_takeWhile char member)

theorem startsWith_takeWhile (class? : Char → Bool) (input : Input) :
    input.startsWith (input.takeWhile class?) = true :=
  List.isPrefixOf_iff_prefix.mpr (List.takeWhile_prefix class?)

/-- A name without quotes that has some characters after its first one. -/
def nameWith (count : Nat) (input : Input) : Parsed Token input.advance :=
  let stop := input.advance.advanceBy count
  ⟨(Token.between .attributeName input stop).withChildren [.between .plainText input stop], stop,
    Input.reaches_advanceBy ..⟩

/-- A name without quotes. -/
def bareName (input : Input) : Parsed Token input.advance :=
  let word := input.takeWhile isAttrWord
  nameWith (bareLength word (input.advanceBy word.length) - 1) input

/-- A word that is read, and its first character at least. -/
theorem textTo_word {word : List Char} (starts : first.startsWith word = true) {count : Nat}
    (length : word.length = count + 1) : first.textTo (first.advance.advanceBy count).pos = word := by
  obtain ⟨rest, whole⟩ := List.isPrefixOf_iff_prefix.mp starts
  refine Input.textTo_of_reaches ?_ ((Input.reaches_advance _).trans (Input.reaches_advanceBy ..))
  change first.rest = word ++ (first.advanceBy (count + 1)).rest
  rw [Reading.rest_advanceBy, ← length, ← whole, List.drop_left]

theorem bareName_meets (beside : Beside spelling first second) (some : first.takeWhile isAttrWord ≠ []) :
    Meets spelling (Called spelling) (bareName first) (bareName second) := by
  have same : second.takeWhile isAttrWord = first.takeWhile isAttrWord := beside.takeWhile ⟨rfl, rfl, rfl, rfl⟩
  have visible := visible_attrWord first
  have starts := startsWith_takeWhile isAttrWord first
  have after := beside.advanceBy starts visible
  have short := bareLength_le some (first.advanceBy (first.takeWhile isAttrWord).length)
  have counts : bareLength (second.takeWhile isAttrWord) (second.advanceBy (second.takeWhile isAttrWord).length) =
      bareLength (first.takeWhile isAttrWord) (first.advanceBy (first.takeWhile isAttrWord).length) := by
    unfold bareLength
    rw [same, after.isAt rfl, after.isAt rfl]
  unfold bareName
  dsimp only
  rw [counts]
  generalize bareLength (first.takeWhile isAttrWord) _ - 1 = count at short
  generalize first.takeWhile isAttrWord = word at visible starts short
  have length : (word.take (count + 1)).length = count + 1 := List.length_take_of_le short
  have starts : first.startsWith (word.take (count + 1)) = true :=
    List.isPrefixOf_iff_prefix.mpr ((List.take_prefix ..).trans (List.isPrefixOf_iff_prefix.mp starts))
  have visible : Visible (word.take (count + 1)) := fun char member => visible char (List.mem_of_mem_take member)
  have others := (beside.startsWith visible).trans starts
  have further := beside.advanceBy starts visible
  rw [length] at further
  have texts :
      second.textTo (second.advance.advanceBy count).pos = first.textTo (first.advance.advanceBy count).pos := by
    rw [textTo_word starts length, textTo_word others length]
  exact ⟨further, called_of_copies (fun _ => congrArg String.ofList texts) fun _ => .cons (copies_between texts) .nil⟩

theorem readName_unquoted {input : Input} {char : Char} {text : List Char} (rest : input.rest = char :: text)
    (plain : isQuote char = false) :
    readName input = if (input.takeWhile isAttrWord).isEmpty then .error ⟨.attributeName, input.pos⟩
      else .ok (bareName input) := by
  have other : ¬ (char = '"' ∨ char = '\'') := by
    rintro (rfl | rfl) <;> cases plain
  unfold readName
  split
  · rename_i none
    cases rest.symm.trans none
  · rename_i some
    cases rest.symm.trans some
    rw [if_neg other]
    rfl

theorem attributeName_reads (beside : Beside spelling first second) :
    Lexes (Meets spelling (Called spelling)) (readName first) (readName second) := by
  have bare : Lexes (Meets spelling (Called spelling))
      (if (first.takeWhile isAttrWord).isEmpty then .error ⟨.attributeName, first.pos⟩
        else .ok (bareName first))
      (if (second.takeWhile isAttrWord).isEmpty then .error ⟨.attributeName, second.pos⟩
        else .ok (bareName second)) := by
    have same : second.takeWhile isAttrWord = first.takeWhile isAttrWord := beside.takeWhile ⟨rfl, rfl, rfl, rfl⟩
    rw [same]
    split
    · exact .error rfl
    · rename_i some
      exact .ok (bareName_meets beside fun none => some (List.isEmpty_iff.mpr none))
  have heads := beside.heads
  cases rest : first.rest with
  | nil =>
    rw [rest] at heads
    generalize others : second.rest = other at heads
    cases heads
    unfold readName
    rw [rest, others]
    exact .error rfl
  | cons char text =>
    rw [rest] at heads
    generalize others : second.rest = other at heads
    cases heads with
    | @cons _ mark _ other alike =>
      have quoted : isQuote mark = isQuote char := Blind.eq ⟨rfl, rfl⟩ alike
      cases quotes : isQuote char with
      | false =>
        rw [readName_unquoted rest quotes, readName_unquoted others (quoted.trans quotes)]
        exact bare
      | true =>
        obtain rfl : mark = char := eq_of_look (step_quote quotes).2 alike
        have found : first.isAt mark = true := (Reading.isClass_eq rest _).trans (beq_self_eq_true mark)
        have inside := beside.enter (solid_of_visible (step_quote quotes).2) found
        unfold readName
        rw [rest, others]
        dsimp only
        rw [if_pos (isQuote_iff.mp quotes), if_pos (isQuote_iff.mp quotes)]
        refine .map (readQuoted_reads quotes first.pos second.pos inside.beside) fun x y read => ?_
        exact ⟨read.beside, quotedName_called rest beside inside read⟩

/-! Pairs. -/

/-- Two pairs of a name and perhaps a value. -/
structure Paired (spelling : Spelling) (pair twin : Token) : Prop where
  akin : Akin spelling pair twin
  titled : Titled spelling pair twin

theorem attributeValue_reads {kind : TokenKind} (inert : kind.isInert = true) {start stop : Input}
    {name twin : Token} (called : Called spelling name twin) (begun : Beside spelling start stop)
    (reached : start.Reaches first) (arrived : stop.Reaches second) (beside : Beside spelling first second) :
    Lexes (Meets spelling (Paired spelling)) (readValue kind start name first) (readValue kind stop twin second) := by
  refine .bind (embedded_alike rfl rfl _ beside) fun x y echo => .ok ⟨echo.leads.beside, ?_⟩
  refine ⟨.inert inert (fun keeps => ?_) (.cons called.akin (.cons (echo.token rfl) .nil)), called.titled⟩
  obtain ⟨count, here, there⟩ := echo.ahead keeps
  rw [here, there, textTo_ahead keeps begun reached arrived beside]

theorem attributePair_reads (beside : Beside spelling first second) :
    Lexes (Meets spelling (Paired spelling)) (readPair first) (readPair second) := by
  refine .bind (attributeName_reads beside) fun x y name => ?_
  have word : Visible ['!', '='] := by decide
  have reached : first.Reaches x.rest := (Input.reaches_advance _).trans x.reached
  have arrived : second.Reaches y.rest := (Input.reaches_advance _).trans y.reached
  dsimp only
  rw [name.beside.startsWith word, name.beside.isAt rfl, name.beside.isClass ⟨rfl, rfl⟩]
  split
  · rename_i starts
    have after := name.beside.advanceBy starts word
    exact .bind (attributeValue_reads rfl name.values beside (reached.trans (Input.reaches_advanceBy ..))
      (arrived.trans (Input.reaches_advanceBy ..)) after) fun z w pair => .ok ⟨pair.beside, pair.values⟩
  · split
    · rename_i found
      have after := name.beside.advance_isAt found rfl
      exact .bind (attributeValue_reads rfl name.values beside (reached.trans (Input.reaches_advance _))
        (arrived.trans (Input.reaches_advance _)) after) fun z w pair => .ok ⟨pair.beside, pair.values⟩
    · split
      · exact .ok ⟨name.beside, .inert rfl (between_kept beside reached arrived name.beside)
          (.cons name.values.akin .nil), name.values.titled⟩
      · exact .error rfl

theorem skipSeparator_beside (beside : Beside spelling first second) :
    Beside spelling (skipSeparator first) (skipSeparator second) := by
  have spaced := beside.skipWhitespace
  unfold skipSeparator
  dsimp only
  rw [spaced.isAt rfl]
  split
  · rename_i comma
    exact (spaced.advance_isAt comma rfl).skipWhitespace
  · exact spaced

theorem attributePairs_reads {first second : Input} (beside : Beside spelling first second) :
    Lexes (Meets spelling (List.Forall₂ (Paired spelling))) (readPairs first) (readPairs second) := by
  rw [readPairs, readPairs, beside.atEnd, beside.isAt rfl]
  split
  · exact .ok ⟨beside, .nil⟩
  · rename_i more
    refine .bind (attributePair_reads beside) fun x y pair => ?_
    have shorter : (skipSeparator x.rest).size < first.size := by
      have := (reaches_skipSeparator x.rest).size_le
      have := x.le
      have nonempty : 0 < first.size :=
        Nat.pos_of_ne_zero fun none => more (.inl ((Input.atEnd_iff first).mpr none))
      have := (Input.passes_advance nonempty).2
      omega
    exact .bind (attributePairs_reads (skipSeparator_beside pair.beside)) fun z w pairs =>
      .ok ⟨pairs.beside, .cons pair.values pairs.values⟩
termination_by first.size

theorem attributeList_reads (beside : Beside spelling first second) :
    Lexes (Meets spelling (Akin spelling)) (readList first) (readList second) := by
  refine .bind (attributePairs_reads beside.skipWhitespace) fun x y pairs => ?_
  rw [pairs.beside.isAt rfl]
  split
  · rename_i closes
    have akin := pairs.values.imp fun _ _ => Paired.akin
    have titled := pairs.values.imp fun _ _ => Paired.titled
    have kept := between_kept beside ((Input.reaches_skipWhitespace _).trans x.reached)
      ((Input.reaches_skipWhitespace _).trans y.reached) pairs.beside
    exact .ok ⟨pairs.beside.advance_isAt closes rfl, .list kept titled akin⟩
  · exact .error rfl

end HtmlTemplate.Respelling
