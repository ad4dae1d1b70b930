import HtmlTemplate.Proofs.Respelling.Unchanged

/-! Templates that begin with a tag and a list of one bare name. A bracket is a character of names too, so a name
ends at the bracket that closes its list only if what follows the bracket does not go on with the name. Where that
is so, a blank before the bracket does not matter. -/

namespace HtmlTemplate.Naming

open Attribute CharClass Document Respelling Token

/-! Bare names. -/

/-- A word of letters, digits, dashes and underscores. -/
structure Word (word : List Char) : Prop where
  some : word ≠ []
  letters : ∀ char ∈ word, isTagWord char = true

/-- What follows a bracket does not take it for a part of a name. -/
def Apart (rest : List Char) : Prop := ∀ char ∈ rest.head?, isAttrWord char = false ∧ char ≠ '=' ∧ char ≠ '!'

/-- The kinds of parts whose texts are compared: those that hold a whole line or a whole list are left out. -/
def shown (kind : TokenKind) : Bool :=
  kind != .root && kind != .line && kind != .tagLine && kind != .attributeList

/-- The list of one name without a value. -/
def listed (name : String) : Token :=
  ⟨.attributeList, ⟨0, 0⟩, "", none,
    [⟨.escapedPair, ⟨0, 0⟩, name, none,
      [⟨.attributeName, ⟨0, 0⟩, name, none, [⟨.plainText, ⟨0, 0⟩, name, none, []⟩]⟩]⟩]⟩

theorem isAttrWord_of_isTagWord {char : Char} (word : isTagWord char = true) : isAttrWord char = true := by
  simp only [isTagWord, isAttrWord, Bool.or_eq_true] at word ⊢
  rcases word with (word | word) | word <;> simp only [word, true_or, or_true]

theorem visible_of_isTagWord {char : Char} (word : isTagWord char = true) : isWhitespace char = false :=
  (show Solid isTagWord from ⟨rfl, rfl, rfl, rfl⟩).visible word

section

variable {input : Input} {name closing rest : List Char} (word : Word name)
  (start : input.rest = name ++ (closing ++ ')' :: rest))
include word start

theorem cons_of_word : ∃ char text, input.rest = char :: text ∧ isTagWord char = true := by
  obtain ⟨char, text, rfl⟩ := List.exists_cons_of_ne_nil word.some
  exact ⟨char, _, start, word.letters char List.mem_cons_self⟩

/-- A bare name ends before blanks, and before a bracket that nothing of a name follows. -/
theorem bareName_eq (blank : ∀ char ∈ closing, isWhitespace char = true) (apart : closing = [] → Apart rest) :
    bareName input = nameWith (name.length - 1) input := by
  have letters : ∀ char ∈ name, isAttrWord char = true := fun char member =>
    isAttrWord_of_isTagWord (word.letters char member)
  have plain : name.getLast? ≠ some ')' := fun bracket => by
    have inside := word.letters _ (List.mem_of_getLast? bracket)
    cases inside
  unfold bareName
  cases closing with
  | nil =>
    have follows := apart rfl
    have whole : input.takeWhile isAttrWord = name ++ [')'] := by
      rw [Input.takeWhile, start, List.nil_append, List.append_cons]
      refine Reading.takeWhile_append (fun char member => ?_) fun char first => (follows char first).1
      rcases List.mem_append.mp member with member | member
      · exact letters char member
      · rw [List.mem_singleton.mp member]
        rfl
    have after : (input.advanceBy (name ++ [')']).length).rest = rest := by
      rw [Reading.rest_advanceBy, start, List.nil_append, List.append_cons name ')' rest, List.drop_left]
    have other {mark : Char} (apart : ∀ char ∈ rest.head?, char ≠ mark) :
        (input.advanceBy (name ++ [')']).length).isAt mark = false := by
      unfold Input.isAt Input.isClass
      rw [after]
      cases rest with
      | nil => rfl
      | cons char rest => exact beq_false_of_ne (apart char rfl)
    have length : bareLength (name ++ [')']) (input.advanceBy (name ++ [')']).length) = name.length := by
      unfold bareLength
      rw [List.getLast?_concat, other fun char first => (follows char first).2.1,
        other fun char first => (follows char first).2.2, if_pos ⟨rfl, rfl, rfl⟩, List.length_append]
      rfl
    rw [whole]
    dsimp only
    rw [length]
  | cons char closing =>
    have blank := blank char List.mem_cons_self
    have whole : input.takeWhile isAttrWord = name := by
      rw [Input.takeWhile, start]
      refine Reading.takeWhile_append letters fun mark first => Bool.eq_false_iff.mpr fun inside => ?_
      cases first
      have visible := (show Solid isAttrWord from ⟨rfl, rfl, rfl, rfl⟩).visible inside
      rw [blank] at visible
      cases visible
    rw [whole]
    dsimp only
    rw [bareLength, if_neg fun both => plain both.1]

theorem bareName_reads (blank : ∀ char ∈ closing, isWhitespace char = true) (apart : closing = [] → Apart rest) :
    ∃ found : Parsed Token input.advance, readName input = .ok found ∧ found.rest.rest = closing ++ ')' :: rest ∧
      input.textTo found.rest.pos = name ∧ found.value.unplaced shown =
        ⟨.attributeName, ⟨0, 0⟩, String.ofList name, none, [⟨.plainText, ⟨0, 0⟩, String.ofList name, none, []⟩]⟩ := by
  obtain ⟨char, text, first, letter⟩ := cons_of_word word start
  have plain : Quoting.isQuote char = false := Bool.eq_false_iff.mpr fun quotes => by
    rcases Quoting.isQuote_iff.mp quotes with rfl | rfl <;> cases letter
  have some : (input.takeWhile isAttrWord).isEmpty = false := by
    rw [Input.takeWhile, first, List.takeWhile_cons_of_pos (isAttrWord_of_isTagWord letter)]
    rfl
  have length : name.length = name.length - 1 + 1 :=
    (Nat.sub_add_cancel (List.length_pos_iff.mpr word.some)).symm
  have starts : input.startsWith name = true :=
    List.isPrefixOf_iff_prefix.mpr ⟨_, start.symm⟩
  have texts := textTo_word starts length
  refine ⟨nameWith (name.length - 1) input, ?_, ?_, texts, ?_⟩
  · rw [readName_unquoted first plain, some, if_neg Bool.false_ne_true, bareName_eq word start blank apart]
  · change (input.advanceBy (name.length - 1 + 1)).rest = _
    rw [← length, Reading.rest_advanceBy, start, List.drop_left]
  · unfold nameWith Token.between Token.withChildren
    dsimp only
    rw [texts]
    rfl

theorem pair_reads (blank : ∀ char ∈ closing, isWhitespace char = true) (apart : closing = [] → Apart rest) :
    ∃ found : Parsed Token input.advance, readPair input = .ok found ∧ found.rest.rest = closing ++ ')' :: rest ∧
      [found.value.unplaced shown] = (listed (String.ofList name)).children := by
  obtain ⟨called, read, after, texts, same⟩ := bareName_reads word start blank apart
  obtain ⟨char, text, first, ends⟩ : ∃ char text, closing ++ ')' :: rest = char :: text ∧
      (isWhitespace char = true ∨ char = ')') := by
    cases closing with
    | nil => exact ⟨_, _, rfl, .inr rfl⟩
    | cons char closing => exact ⟨_, _, rfl, .inl (blank char List.mem_cons_self)⟩
  have follows := after.trans first
  have signs : char ≠ '!' ∧ char ≠ '=' := by
    rcases ends with blank | rfl
    · exact ⟨fun same => (by rw [same] at blank; cases blank), fun same => (by rw [same] at blank; cases blank)⟩
    · exact ⟨by decide, by decide⟩
  have unsigned : called.rest.startsWith ['!', '='] = false := by
    rw [Input.startsWith, follows, List.isPrefixOf, beq_false_of_ne signs.1.symm, Bool.false_and]
  have unequal : called.rest.isAt '=' = false := (Reading.isClass_eq follows _).trans (beq_false_of_ne signs.2)
  have closes : (called.rest.isClass fun char => isWhitespace char || char == ',' || char == ')') = true := by
    rw [Reading.isClass_eq follows]
    rcases ends with blank | rfl
    · rw [blank]
      rfl
    · rfl
  refine ⟨⟨(Token.between .escapedPair input called.rest).withChildren [called.value], called.rest, called.reached⟩,
    ?_, after, ?_⟩
  · unfold readPair
    rw [read]
    change (if _ then _ else _) = _
    rw [unsigned, unequal, closes, if_neg Bool.false_ne_true, if_neg Bool.false_ne_true, if_pos rfl]
    rfl
  · dsimp only
    rw [unplaced_eq]
    unfold Token.between Token.withChildren
    dsimp only
    rw [texts, List.map_singleton, same]
    rfl

/-- A list of one bare name is the same with blanks before its closing bracket. -/
theorem list_reads (blank : ∀ char ∈ closing, isWhitespace char = true) (apart : closing = [] → Apart rest) :
    ∃ found : Parsed Token input, readList input = .ok found ∧ found.rest.rest = rest ∧
      found.value.unplaced shown = listed (String.ofList name) := by
  obtain ⟨char, text, first, letter⟩ := cons_of_word word start
  have visible := visible_of_isTagWord letter
  have begun : input.skipWhitespace.rest = input.rest := by
    rw [Input.skipWhitespace, Input.rest_dropWhile, first, List.dropWhile_cons_of_neg (by rw [visible]; decide)]
  obtain ⟨pair, read, after, same⟩ := pair_reads word (begun.trans start) blank apart
  -- After the name come blanks, and no comma.
  have spaced : pair.rest.skipWhitespace.rest = ')' :: rest := by
    rw [Input.skipWhitespace, Input.rest_dropWhile, after]
    exact Reading.dropWhile_append blank fun _ first => by cases first; rfl
  have further : (skipSeparator pair.rest).rest = ')' :: rest := by
    unfold skipSeparator
    dsimp only
    rw [Input.isAt, Reading.isClass_eq spaced, if_neg (by decide), spaced]
  have closes (class? : Char → Bool) (bracket : class? ')' = true) :
      (skipSeparator pair.rest).isClass class? = true := (Reading.isClass_eq further _).trans bracket
  have opened : ¬ (input.skipWhitespace.atEnd = true ∨ input.skipWhitespace.isAt ')' = true) := by
    rw [Input.atEnd, Input.isAt, Reading.isClass_eq (begun.trans first), begun, first]
    rintro (ended | bracket)
    · cases ended
    · rw [beq_iff_eq.mp bracket] at letter
      cases letter
  obtain ⟨reached, pairs⟩ : ∃ reached, readPairs input.skipWhitespace =
      .ok ⟨[pair.value], skipSeparator pair.rest, reached⟩ := by
    refine ⟨(Input.reaches_advance _).trans (pair.reached.trans (reaches_skipSeparator _)), ?_⟩
    rw [readPairs, if_neg opened, read]
    change (readPairs (skipSeparator pair.rest) >>= _) = _
    rw [readPairs, if_pos (.inr (closes _ rfl))]
    rfl
  refine ⟨⟨(Token.between .attributeList input (skipSeparator pair.rest)).withChildren [pair.value],
    (skipSeparator pair.rest).advance,
    (Input.reaches_skipWhitespace _).trans (reached.trans (Input.reaches_advance _))⟩,
    ?_, ?_, ?_⟩
  · unfold readList
    rw [pairs]
    exact if_pos (closes _ rfl)
  · rw [Reading.rest_advance, further, List.tail_cons]
  · rw [unplaced_eq]
    exact congrArg (Token.mk .attributeList ⟨0, 0⟩ "" none) same

end

/-! Parts that are the same. -/

variable {first second start stop : Input} {tag name closing rest : List Char}

/-- Two parts that are the same wherever they stand. -/
def Same (token twin : Token) : Prop := twin.unplaced shown = token.unplaced shown

/-- Two rows of parts that are the same. -/
def Copied (tokens twins : List Token) : Prop := twins.map (unplaced shown) = tokens.map (unplaced shown)

theorem copied_of_akin {tokens twins : List Token} (akin : List.Forall₂ (Akin .unchanged) tokens twins) :
    Copied tokens twins := by
  unfold Copied
  rw [← allUnplaced_eq, ← allUnplaced_eq, allUnplaced_of_akin shown akin]

/-! The first line. -/

/-- A list and what follows it on its line. -/
theorem tagParts_list (bracketed : Bool) {input : Input} {text : List Char} (opens : input.rest = '(' :: text)
    {list : Parsed Token input.advance} (read : readList input.advance = .ok list) :
    ∃ reached, Inline.readTagParts bracketed input = (Inline.readTagParts bracketed list.rest).map fun more =>
      (more.map (list.value :: ·)).widen reached := by
  refine ⟨(Input.reaches_advance _).trans list.reached, ?_⟩
  have begins (class? : Char → Bool) : input.isClass class? = class? '(' := Reading.isClass_eq opens class?
  have filled : input.atEnd = false := by
    rw [Input.atEnd, opens]
    rfl
  rw [Inline.readTagParts, filled]
  simp only [Input.isAt, begins]
  change (readList input.advance >>= _) = _
  rw [read]
  change (Inline.readTagParts bracketed list.rest >>= _) = _
  cases Inline.readTagParts bracketed list.rest <;> rfl

/-- What follows the name of a tag is the same after lists of the same name. -/
theorem afterName_reads (word : Word name) (apart : Apart rest) (here : first.rest = '(' :: (name ++ ')' :: rest))
    (there : second.rest = '(' :: (name ++ ' ' :: ')' :: rest)) :
    Lexes (Meets .unchanged Copied) (Line.readAfterName first) (Line.readAfterName second) := by
  have past {input : Input} {text : List Char} (opens : input.rest = '(' :: text) : input.advance.rest = text := by
    rw [Reading.rest_advance, opens, List.tail_cons]
  have unspaced {input : Input} {text : List Char} (opens : input.rest = '(' :: text) :
      Line.readAfterName input = Inline.readTagParts false input := by
    rw [Line.readAfterName, Reading.isClass_eq opens, if_neg (by decide)]
  obtain ⟨list, read, after, same⟩ := @list_reads _ _ [] _ word (past here) (List.forall_mem_nil _) fun _ => apart
  obtain ⟨twin, found, follows, alike⟩ := @list_reads _ _ [' '] _ word (past there)
    (List.forall_mem_singleton.mpr rfl) fun none => absurd none (List.cons_ne_nil _ _)
  obtain ⟨reached, one⟩ := tagParts_list false here read
  obtain ⟨arrived, two⟩ := tagParts_list false there found
  rw [unspaced here, unspaced there, one, two]
  have beside : Beside .unchanged list.rest twin.rest := follows.trans after.symm
  refine .map (tagParts_reads false beside) fun x y parts => ⟨parts.beside, ?_⟩
  change (twin.value :: y.value).map (unplaced shown) = (list.value :: x.value).map (unplaced shown)
  rw [List.map_cons, List.map_cons, same, alike, copied_of_akin parts.values]

theorem word_of_start {input : Input} {text : List Char} (letters : ∀ char ∈ tag, isTagWord char = true)
    (begins : input.rest = tag ++ '(' :: text) :
    input.takeWhile isTagWord = tag ∧ (input.dropWhile isTagWord).rest = '(' :: text := by
  have outside : ∀ char ∈ ('(' :: text).head?, isTagWord char = false := fun _ first => by cases first; rfl
  rw [Input.rest_dropWhile, Input.takeWhile, begins]
  exact ⟨Reading.takeWhile_append letters outside, Reading.dropWhile_append letters outside⟩

/-- A word before a bracket is no statement, but "else" and "default" may not stand there. -/
theorem readWord_eq {input : Input} {text : List Char} (letters : ∀ char ∈ tag, isTagWord char = true)
    (begins : input.rest = tag ++ '(' :: text) : Line.readWord input =
      if String.ofList tag = "else" then .error ⟨.elseLine, (input.dropWhile isTagWord).skipSpacing.pos⟩
      else if String.ofList tag = "default" then .error ⟨.defaultLine, (input.dropWhile isTagWord).skipSpacing.pos⟩
      else (Line.readAfterName (input.dropWhile isTagWord)).map fun parts =>
        Line.complete .tagLine ((parts.map (Token.between .tag input (input.dropWhile isTagWord) :: ·)).widen
          (Input.reaches_dropWhile ..)) := by
  obtain ⟨word, after⟩ := word_of_start letters begins
  have spaced : (input.dropWhile isTagWord).isClass isSpacing = false := Reading.isClass_eq after _
  have follows : (input.dropWhile isTagWord).skipSpacing.rest = '(' :: text := by
    rw [Input.skipSpacing, Input.rest_dropWhile, after]
    rfl
  have ends : (input.dropWhile isTagWord).skipSpacing.atLineEnd = false := by
    rw [Input.atLineEnd, Input.atEnd, Reading.isClass_eq follows, follows]
    rfl
  have colon : (input.dropWhile isTagWord).skipSpacing.isAt ':' = false := Reading.isClass_eq follows _
  unfold Line.readWord
  dsimp only
  rw [spaced, word, ends, if_neg Bool.false_ne_true]
  dsimp only
  rw [Bool.false_and, Bool.false_and, if_neg Bool.false_ne_true]
  unfold Line.readAlone Line.endsStatement
  rw [ends, colon]
  simp only [Bool.or_self, Bool.false_eq_true, if_false, and_false]
  split
  · rfl
  split
  · rfl
  · cases Line.readAfterName (input.dropWhile isTagWord) <;> rfl

/-- A line that begins with a word. -/
theorem line_eq {lineStart input : Input} {char : Char} {text : List Char} (begins : input.rest = char :: text)
    (letter : isTagWord char = true) (dash : char ≠ '-') : Line.read lineStart input =
      if isLatin char then Line.readWord input else .error ⟨.unknownLine, input.pos⟩ := by
  have apart (mark : Char) (outside : isTagWord mark = false) : (char == mark) = false := by
    refine beq_false_of_ne ?_
    rintro rfl
    rw [letter] at outside
    cases outside
  have unstarted (mark : Char) (more : List Char) (outside : isTagWord mark = false) :
      input.startsWith (mark :: more) = false := by
    rw [Input.startsWith, begins, List.isPrefixOf, BEq.comm, apart mark outside, Bool.false_and]
  unfold Line.read
  simp only [Input.isAt, Reading.isClass_eq begins, unstarted '/' ['/'] rfl, unstarted '!' ['='] rfl, apart '.' rfl,
    apart '#' rfl, apart '(' rfl, apart '&' rfl, apart '|' rfl, apart '=' rfl, apart '+' rfl, apart '<' rfl,
    beq_false_of_ne dash, Bool.or_self, Bool.and_false, Bool.false_and, Bool.false_eq_true, if_false]

/-- The text of the first line up to its list does not matter for where the line begins. -/
theorem indent_after {before read : List Char} {char : Char} (letter : isWhitespace char = false)
    (flat : ∀ mark ∈ before, isLineEnd mark = false) : (lastLine (char :: before ++ read)).takeWhile isSpacing =
      if read.any isLineEnd then (lastLine read).takeWhile isSpacing else [] := by
  have flats : ∀ mark ∈ char :: before, isLineEnd mark = false :=
    List.forall_mem_cons.mpr ⟨isLineEnd_of_visible letter, flat⟩
  obtain ⟨front, split, closed, within⟩ := lastLine_split read
  cases closed with
  | nil =>
    have none : read.any isLineEnd = false := by
      rw [split]
      exact List.any_eq_false.mpr fun mark member => Bool.eq_false_iff.mp (within mark member)
    have whole : lastLine (char :: before ++ read) = char :: before ++ read := by
      refine lastLine_of_closed .nil (List.forall_mem_append.mpr ⟨flats, ?_⟩)
      rw [split]
      exact within
    rw [none, whole, List.cons_append, List.takeWhile_cons_of_neg (by rw [isSpacing_of_visible letter]; decide)]
    rfl
  | @line front mark ends =>
    have some : read.any isLineEnd = true := by
      rw [split]
      exact List.any_eq_true.mpr ⟨mark, List.mem_append_left _ List.mem_concat_self, ends⟩
    have last : lastLine (char :: before ++ read) = lastLine read := by
      conv_lhs => rw [split, ← List.append_assoc, ← List.append_assoc]
      exact lastLine_of_closed (.line _ ends) within
    rw [some, last, if_pos rfl]

/-- A place in both texts, before which one of them has a space more, is after that space. -/
theorem rest_after {before after text read copy : List Char} (apart : before.getLast? ≠ some ' ')
    (here : before ++ after = read ++ text) (there : before ++ ' ' :: after = copy ++ text) :
    ∃ between, after = between ++ text := by
  rcases List.append_eq_append_iff.mp here with ⟨between, -, same⟩ | ⟨more, split, same⟩
  · exact ⟨between, same⟩
  · rw [same, List.append_cons, ← List.append_assoc] at there
    have last := congrArg List.getLast? (List.append_cancel_right there)
    rw [List.getLast?_concat, List.getLast?_append] at last
    rw [split, List.getLast?_append] at apart
    cases none : more.getLast? with
    | none =>
      obtain rfl := List.getLast?_eq_none_iff.mp none
      exact ⟨[], same.symm⟩
    | some char =>
      rw [none] at last apart
      exact absurd last.symm apart

/-- From the starts of two lines that go on the same after their lists, blocks are read alike. -/
theorem blocks_of_lists (tagged : Word tag) (word : Word name)
    (here : start.rest = tag ++ '(' :: (name ++ ')' :: rest))
    (there : stop.rest = tag ++ '(' :: (name ++ ' ' :: ')' :: rest)) : Blocks .unchanged start stop := by
  intro first second reached arrived found beside
  obtain ⟨read, whole, -⟩ := id reached
  obtain ⟨copy, others, -⟩ := id arrived
  have same : second.rest = first.rest := beside
  have ended : (tag ++ '(' :: name).getLast? ≠ some ' ' := by
    intro last
    rw [List.getLast?_append, List.getLast?_cons] at last
    cases named : name.getLast? with
    | none => exact word.some (List.getLast?_eq_none_iff.mp named)
    | some char =>
      rw [named] at last
      obtain rfl : char = ' ' := Option.some.inj last
      have letter := word.letters _ (List.mem_of_getLast? named)
      cases letter
  have one : start.rest = (tag ++ '(' :: name) ++ ')' :: rest := by rw [here, List.append_assoc, List.cons_append]
  have two : stop.rest = (tag ++ '(' :: name) ++ ' ' :: ')' :: rest := by
    rw [there, List.append_assoc, List.cons_append]
  obtain ⟨between, after⟩ := rest_after ended (one.symm.trans whole) (two.symm.trans (others.trans (by rw [same])))
  obtain ⟨char, more, rfl⟩ := List.exists_cons_of_ne_nil tagged.some
  obtain ⟨letter, letters⟩ := List.forall_mem_cons.mp tagged.letters
  have flat : ∀ mark ∈ more ++ '(' :: name, isLineEnd mark = false := by
    refine List.forall_mem_append.mpr ⟨fun mark member => ?_, List.forall_mem_cons.mpr ⟨rfl, fun mark member => ?_⟩⟩
    · exact isLineEnd_of_visible (visible_of_isTagWord (letters mark member))
    · exact isLineEnd_of_visible (visible_of_isTagWord (word.letters mark member))
  have shorter : start.textTo first.pos = char :: (more ++ '(' :: name) ++ between :=
    Input.textTo_of_reaches (by rw [one, after]; simp only [List.append_assoc, List.cons_append]) reached
  have longer : stop.textTo second.pos = char :: (more ++ '(' :: name ++ [' ']) ++ between :=
    Input.textTo_of_reaches (by rw [two, after, same]; simp only [List.append_assoc, List.cons_append, List.nil_append])
      arrived
  have outer : Line.outerIndent stop second = Line.outerIndent start first := by
    change (lastLine (stop.textTo second.pos)).takeWhile isSpacing =
      (lastLine (start.textTo first.pos)).takeWhile isSpacing
    rw [shorter, longer, indent_after (visible_of_isTagWord letter) flat, indent_after (visible_of_isTagWord letter)
      (List.forall_mem_append.mpr ⟨flat, List.forall_mem_singleton.mpr rfl⟩)]
  exact block_reads .unchanged outer .none nofun (beside.advance_isAt found rfl)

/-- The first lines are the same. -/
theorem line_reads (tagged : Word tag) (dash : tag.head? ≠ some '-') (word : Word name) (apart : Apart rest)
    (here : first.rest = tag ++ '(' :: (name ++ ')' :: rest))
    (there : second.rest = tag ++ '(' :: (name ++ ' ' :: ')' :: rest)) :
    Lexes (Meets .unchanged Same) (Line.read start first) (Line.read stop second) := by
  obtain ⟨char, more, rfl⟩ := List.exists_cons_of_ne_nil tagged.some
  have letter := tagged.letters char List.mem_cons_self
  have other : char ≠ '-' := fun same => dash (congrArg some same)
  obtain ⟨-, after⟩ := word_of_start tagged.letters here
  obtain ⟨-, follows⟩ := word_of_start tagged.letters there
  rw [line_eq here letter other, line_eq there letter other, readWord_eq tagged.letters here,
    readWord_eq tagged.letters there]
  refine .ite (fun _ => .ite (fun _ => .error rfl) fun _ => .ite (fun _ => .error rfl) fun _ => ?_) fun _ => .error rfl
  refine .map (afterName_reads word apart after follows) fun x y parts => ⟨parts.beside, ?_⟩
  have named : Same (.between .tag first (first.dropWhile isTagWord))
      (.between .tag second (second.dropWhile isTagWord)) := by
    unfold Same Token.between
    rw [Input.textTo_dropWhile, Input.textTo_dropWhile, (word_of_start tagged.letters here).1,
      (word_of_start tagged.letters there).1]
    rfl
  have data {token twin : Token} {tokens twins : List Token} (same : Same token twin) (copied : Copied tokens twins) :
      Copied (token :: tokens) (twin :: twins) := by
    unfold Copied
    rw [List.map_cons, List.map_cons, same, copied]
  have line (kind : TokenKind) (hidden : shown kind = false) {tokens twins : List Token} {span place : Span}
      {text other : String} (copied : Copied tokens twins) :
      Same ⟨kind, span, text, none, tokens⟩ ⟨kind, place, other, none, twins⟩ := by
    unfold Same
    rw [unplaced_eq, unplaced_eq]
    dsimp only
    rw [hidden, copied]
    rfl
  exact line .line rfl (data (line .tagLine rfl (data named parts.values)) rfl)

/-! Rows. -/

theorem row_unplaced {row twin : Row} (matched : Matches .unchanged row twin) :
    twin.unplaced shown = row.unplaced shown := by
  unfold Row.unplaced
  rw [matched.depth, matched.line.unplaced_eq shown, copied_of_akin matched.chained]

/-- The first rows are the same. -/
theorem row_reads (tagged : Word tag) (dash : tag.head? ≠ some '-') (word : Word name) (apart : Apart rest)
    (blocks : Blocks .unchanged start stop) (reached : start.Reaches first) (arrived : stop.Reaches second)
    (here : first.rest = tag ++ '(' :: (name ++ ')' :: rest))
    (there : second.rest = tag ++ '(' :: (name ++ ' ' :: ')' :: rest)) :
    Lexes (Meets .unchanged fun row twin => twin.unplaced shown = row.unplaced shown) (readRow .start start first)
      (readRow .start stop second) := by
  refine .bind (line_reads tagged dash word apart here there) fun x y line => ?_
  refine .bind (chained_reads blocks line.beside (reached.trans x.reached) (arrived.trans y.reached))
    fun z w chained => .ok ⟨chained.beside, ?_⟩
  change Row.mk 0 (y.value.unplaced shown) (w.value.map (unplaced shown)) =
    Row.mk 0 (x.value.unplaced shown) (z.value.map (unplaced shown))
  rw [line.values, copied_of_akin chained.values]

/-- What is nested in a row is text in both texts. -/
theorem innermost_nestsText {row twin : Row} (same : twin.unplaced shown = row.unplaced shown) :
    twin.innermost.nestsText = row.innermost.nestsText := by
  rw [← nestsText_unplaced shown, ← nestsText_unplaced shown row.innermost, ← Row.innermost_unplaced,
    ← Row.innermost_unplaced, same]

/-- Both texts have the same rows. -/
theorem rows_read (tagged : Word tag) (dash : tag.head? ≠ some '-') (word : Word name) (apart : Apart rest)
    (here : start.rest = tag ++ '(' :: (name ++ ')' :: rest))
    (there : stop.rest = tag ++ '(' :: (name ++ ' ' :: ')' :: rest)) :
    Both (fun error other => other.fault = error.fault)
      (fun rows twins => twins.map (Row.unplaced shown) = rows.map (Row.unplaced shown)) (readRows .start start)
      (readRows .start stop) := by
  have blocks : Blocks .unchanged start stop := blocks_of_lists tagged word here there
  obtain ⟨char, more, rfl⟩ := List.exists_cons_of_ne_nil tagged.some
  have letter := visible_of_isTagWord (tagged.letters char List.mem_cons_self)
  -- The line is not indented.
  have begun {input : Input} {text : List Char} (rest : input.rest = char :: text) :
      input.skipSpacing.rest = input.rest ∧ input.takeWhile isSpacing = [] := by
    have other : ¬ isSpacing char = true := by rw [isSpacing_of_visible letter]; decide
    rw [Input.skipSpacing, Input.rest_dropWhile, Input.takeWhile, rest]
    exact ⟨List.dropWhile_cons_of_neg other, List.takeWhile_cons_of_neg other⟩
  have read {input : Input} {text : List Char} (rest : input.rest = char :: text) : readRows .start input =
      readRow .start input input.skipSpacing >>= fun row =>
        readRows { Outline.start with last := some row.value.innermost.nestsText } (finishLine row.rest) >>= fun rows =>
          .ok (row.value :: rows) := by
    obtain ⟨content, spacing⟩ := begun rest
    have filled : ¬ input.atEnd = true := by
      rw [Input.atEnd, rest]
      exact Bool.false_ne_true
    have within : ¬ input.skipSpacing.atLineEnd = true := by
      rw [Input.atLineEnd, Input.atEnd, Reading.isClass_eq (content.trans rest), content, rest,
        isLineEnd_of_visible letter]
      exact Bool.false_ne_true
    rw [readRows_eq, if_neg filled, if_neg within, spacing]
    rfl
  rw [read here, read there]
  refine .bind (row_reads tagged dash word apart blocks (Input.reaches_skipSpacing _) (Input.reaches_skipSpacing _)
    ((begun here).1.trans here) ((begun there).1.trans there)) fun x y row => ?_
  rw [innermost_nestsText row.values]
  have starts : Beside .unchanged (finishLine x.rest) (finishLine y.rest) :=
    finishLine_starts .unchanged row.beside rfl
  refine .bind (paced_unchanged.rows _ starts) fun rows twins matched => .ok ?_
  rw [List.map_cons, List.map_cons, row.values]
  refine congrArg _ ?_
  induction matched with
  | nil => rfl
  | cons first _ step => rw [List.map_cons, List.map_cons, row_unplaced first, step]

/-! Templates. -/

/-- A blank before the closing bracket of a list does not matter: with a list of one bare name at the end of the first
tag, a template has the same parts, or is refused with the same message. What follows the bracket may not go on with
the name or give it a value. -/
theorem space_after_name (tagged : Word tag) (dash : tag.head? ≠ some '-') (word : Word name) (apart : Apart rest) :
    Both (fun error other => other.fault = error.fault) Same (Token.ofSource (tag ++ '(' :: (name ++ ')' :: rest)))
      (Token.ofSource (tag ++ '(' :: (name ++ ' ' :: ')' :: rest))) := by
  refine .bind (@rows_read (.ofText _) (.ofText _) _ _ _ tagged dash word apart rfl rfl) fun rows twins same => .ok ?_
  have nested (rows : List Row) : ((Row.nest rows).map Prod.snd).map (unplaced shown) =
      (Row.nest (rows.map (Row.unplaced shown))).map Prod.snd := by
    rw [← Row.nest_unplaced, List.map_map, List.map_map]
    rfl
  unfold Same
  rw [unplaced_eq, unplaced_eq]
  dsimp only
  rw [nested, nested, same]
  rfl

theorem word_of_all {word : List Char} (some : word ≠ []) (all : word.all isTagWord = true) : Word word :=
  ⟨some, List.all_eq_true.mp all⟩

theorem checkbox_spaced :
    Word "input".toList ∧ "input".toList.head? ≠ some '-' ∧ Word "checked".toList ∧ Apart "#all: b\n\t| text".toList ∧
      Both (fun error other => other.fault = error.fault) Same
        (Token.ofSource ("input".toList ++ '(' :: ("checked".toList ++ ')' :: "#all: b\n\t| text".toList)))
        (Token.ofSource ("input".toList ++ '(' :: ("checked".toList ++ ' ' :: ')' :: "#all: b\n\t| text".toList))) := by
  have tagged : Word "input".toList := word_of_all (by decide) (by decide +kernel)
  have dash : "input".toList.head? ≠ some '-' := by decide
  have word : Word "checked".toList := word_of_all (by decide) (by decide +kernel)
  have apart : Apart "#all: b\n\t| text".toList := fun char first => by
    obtain rfl : char = '#' := (Option.some.inj first).symm
    decide
  exact ⟨tagged, dash, word, apart, space_after_name tagged dash word apart⟩

/-- A class after the list: it is taken for more of the name, up to its end. -/
theorem class_after_name : Word "a".toList ∧ Word "checked".toList ∧
    ¬ Both (fun error other => other.fault = error.fault) Same
      (Token.ofSource ("a".toList ++ '(' :: ("checked".toList ++ ')' :: ".foo".toList)))
      (Token.ofSource ("a".toList ++ '(' :: ("checked".toList ++ ' ' :: ')' :: ".foo".toList))) := by
  have refused : (Token.ofSource ("a".toList ++ '(' :: ("checked".toList ++ ')' :: ".foo".toList))).toOption.isSome =
      false := by
    decide +kernel
  have read : (Token.ofSource ("a".toList ++ '(' ::
      ("checked".toList ++ ' ' :: ')' :: ".foo".toList))).toOption.isSome = true := by
    decide +kernel
  refine ⟨word_of_all (by decide) (by decide +kernel), word_of_all (by decide) (by decide +kernel), fun both => ?_⟩
  generalize Token.ofSource ("a".toList ++ '(' :: ("checked".toList ++ ')' :: ".foo".toList)) = one at refused both
  generalize Token.ofSource ("a".toList ++ '(' :: ("checked".toList ++ ' ' :: ')' :: ".foo".toList)) = two at read both
  cases both with
  | ok => cases refused
  | error => cases read

end HtmlTemplate.Naming
