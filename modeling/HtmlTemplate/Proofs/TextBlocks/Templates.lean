import HtmlTemplate.Proofs.Content.Compilation
import HtmlTemplate.Proofs.Respelling.Dumps
import HtmlTemplate.Proofs.TextBlocks.Lines

/-! Templates of a tag with text below it, in two spellings: the text is bare if the tag ends in a dot, else each line
of it comes after a bar. -/

namespace HtmlTemplate.TextBlocks

open Building CharClass Compilation Document Elements Inline Reading Relining Respelling Statements

/-- The id of a tag, or one of its classes. -/
structure Note where
  isId : Bool
  word : List Char
  spelled : Naming.Word word

namespace Note

variable (note : Note)

def kind : TokenKind := if note.isId then .idNote else .classNote

def text : List Char := (if note.isId then '#' else '.') :: note.word

/-- The part that a note at a place is read as. -/
def part (pos : Nat) : Token :=
  ⟨note.kind, ⟨pos + 1, pos + 1 + byteLength note.word⟩, String.ofList note.word, none, []⟩

/-- The place after a note. -/
def after (pos : Nat) : Nat := pos + 1 + byteLength note.word

end Note

/-- The name of a tag and its notes. -/
structure Head where
  name : List Char
  letter : ∃ char rest, name = char :: rest ∧ isLatin char = true
  letters : ∀ char ∈ name, isTagWord char = true
  /-- Some words begin other lines where no blank comes after them. -/
  unreserved : String.ofList name ∉ ["else", "default", "doctype"]
  notes : List Note

def Head.text (head : Head) : List Char := head.name ++ head.notes.flatMap Note.text

/-! The tag. -/

/-- A note begins with its mark. -/
theorem apart_notes {class? : Char → Bool} (hash : class? '#' = false) (dot : class? '.' = false) {rest : List Char}
    (apart : Apart class? rest) (notes : List Note) : Apart class? (notes.flatMap Note.text ++ rest) := by
  cases notes with
  | nil => exact apart
  | cons note notes =>
    rintro _ ⟨⟩
    cases note.isId
    · exact dot
    · exact hash

/-- The parts that some notes from a place on are read as. -/
def noteParts (pos : Nat) : List Note → List Token
  | [] => []
  | note :: notes => note.part pos :: noteParts (note.after pos) notes

theorem kind_of_noteParts {pos : Nat} {notes : List Note} :
    ∀ part ∈ noteParts pos notes, part.kind = .idNote ∨ part.kind = .classNote := by
  induction notes generalizing pos with
  | nil => exact List.forall_mem_nil _
  | cons note notes step =>
    refine List.forall_mem_cons.mpr ⟨?_, step⟩
    change note.kind = .idNote ∨ note.kind = .classNote
    unfold Note.kind
    cases note.isId
    · exact .inr rfl
    · exact .inl rfl

/-- A word is skipped as a whole. -/
theorem dropWhile_word {word rest : List Char} (letters : ∀ char ∈ word, isTagWord char = true)
    (apart : Apart isTagWord rest) (pos : Nat) :
    Input.dropWhile isTagWord ⟨pos, word ++ rest⟩ = ⟨pos + byteLength word, rest⟩ := by
  have left : (Input.dropWhile isTagWord ⟨pos, word ++ rest⟩).rest = rest := by
    rw [Input.rest_dropWhile]
    exact dropWhile_append letters apart
  obtain ⟨read, whole, after⟩ := Input.reaches_dropWhile isTagWord ⟨pos, word ++ rest⟩
  rw [left] at whole
  obtain rfl := List.append_cancel_right whole
  generalize Input.dropWhile isTagWord _ = stop at left after
  obtain ⟨_, _⟩ := stop
  obtain rfl := left
  exact congrArg (Input.mk · _) after

/-- A mark with a word after it is a note. -/
theorem readTagParts_marked (bracketed : Bool) {input : Input} {char : Char} {text : List Char} {kind : TokenKind}
    (begins : input.rest = char :: text) (mark : (char = '#' ∧ kind = .idNote) ∨ (char = '.' ∧ kind = .classNote))
    (named : input.advance.isClass isTagWord = true) :
    ∃ reached, readTagParts bracketed input =
      (readTagParts bracketed (input.advance.dropWhile isTagWord)).map fun more =>
        (more.map (Token.between kind input.advance (input.advance.dropWhile isTagWord) :: ·)).widen reached := by
  refine ⟨(Input.reaches_advance _).trans (Input.reaches_dropWhile ..), ?_⟩
  have filled : ¬ input.atEnd = true := by
    rw [Input.atEnd, begins]
    exact Bool.false_ne_true
  have isAt (other : Char) : input.isAt other = (char == other) := isClass_eq begins _
  have colon : ¬ input.isAt ':' = true := by
    rw [isAt]
    rcases mark with ⟨rfl, -⟩ | ⟨rfl, -⟩ <;> decide
  have marked : input.isAt '.' = true ∨ input.isAt '#' = true := by
    rw [isAt, isAt]
    rcases mark with ⟨rfl, -⟩ | ⟨rfl, -⟩
    · exact .inr rfl
    · exact .inl rfl
  have note (stop : Input) : (if input.isAt '#' = true then [Token.between .idNote input.advance stop]
      else [Token.between .classNote input.advance stop]) = [Token.between kind input.advance stop] := by
    rw [isAt]
    rcases mark with ⟨rfl, rfl⟩ | ⟨rfl, rfl⟩ <;> rfl
  rw [readTagParts, dif_neg filled, if_neg colon, if_pos marked]
  dsimp only
  rw [named, if_neg fun both => both.2.1 rfl, if_pos rfl, note]
  cases readTagParts bracketed (input.advance.dropWhile isTagWord) <;> rfl

section

variable {rest : List Char} (apart : Apart isTagWord rest)
include apart

theorem readTagParts_note (bracketed : Bool) (note : Note) (pos : Nat) :
    ∃ reached, readTagParts bracketed ⟨pos, note.text ++ rest⟩ =
      (readTagParts bracketed ⟨note.after pos, rest⟩).map fun more =>
        (more.map (note.part pos :: ·)).widen reached := by
  have word : Input.advance ⟨pos, note.text ++ rest⟩ = ⟨pos + 1, note.word ++ rest⟩ := by
    unfold Note.text
    cases note.isId <;> rfl
  have after := dropWhile_word note.spelled.letters apart (pos + 1)
  have text := Input.textTo_dropWhile isTagWord ⟨pos + 1, note.word ++ rest⟩
  have part : Token.between note.kind ⟨pos + 1, note.word ++ rest⟩ ⟨note.after pos, rest⟩ = note.part pos := by
    rw [Input.takeWhile, takeWhile_append note.spelled.letters apart, after] at text
    rw [Token.between, Note.after, text]
    rfl
  have named : (Input.advance ⟨pos, note.text ++ rest⟩).isClass isTagWord = true := by
    obtain ⟨char, more, same⟩ := List.exists_cons_of_ne_nil note.spelled.some
    rw [word, same]
    exact note.spelled.letters char (by rw [same]; exact List.mem_cons_self)
  have mark : ((if note.isId then '#' else '.') = '#' ∧ note.kind = .idNote) ∨
      ((if note.isId then '#' else '.') = '.' ∧ note.kind = .classNote) := by
    unfold Note.kind
    cases note.isId <;> decide
  have read := readTagParts_marked bracketed rfl mark named
  rw [word, after] at read
  unfold Note.after at part ⊢
  rwa [part] at read

/-- All notes of a tag are read, whatever comes after them. -/
theorem readTagParts_notes (bracketed : Bool) (notes : List Note) (pos : Nat) :
    ∃ stop reached, readTagParts bracketed ⟨pos, notes.flatMap Note.text ++ rest⟩ =
      (readTagParts bracketed ⟨stop, rest⟩).map fun more =>
        (more.map (noteParts pos notes ++ ·)).widen reached := by
  induction notes generalizing pos with
  | nil =>
    refine ⟨pos, .refl _, ?_⟩
    change readTagParts bracketed ⟨pos, rest⟩ = _
    cases readTagParts bracketed ⟨pos, rest⟩ <;> rfl
  | cons note notes step =>
    obtain ⟨reaches, first⟩ := readTagParts_note (apart_notes rfl rfl apart notes) bracketed note pos
    obtain ⟨stop, reached, more⟩ := step (note.after pos)
    rw [List.flatMap_cons, List.append_assoc]
    refine ⟨stop, reaches.trans reached, ?_⟩
    rw [first, more]
    cases readTagParts bracketed ⟨stop, rest⟩ <;> rfl

end

/-- A line of markup that is a tag of some parts, with lines nested in it. -/
def IsTag (parts lines : List Token) (line : Token) : Prop :=
  ∃ data, line.kind = .line ∧ line.children = data :: lines ∧ data.kind = .tagLine ∧ data.children = parts

theorem nestsText_tag {parts lines : List Token} {line : Token} (is : IsTag parts lines line) :
    line.nestsText = parts.getLast?.any fun part => part.kind == .trailingDot := by
  obtain ⟨data, kind, children, tag, rfl⟩ := is
  unfold Token.nestsText
  rw [kind, children]
  dsimp only
  rw [tag]
  rfl

/-- A dot at the end of its line is the last part of a tag. -/
theorem readTagParts_dot {tail : List Char} (ended : Ended tail) (bracketed : Bool) (pos : Nat) :
    ∃ dot reached, dot.kind = .trailingDot ∧
      readTagParts bracketed ⟨pos, '.' :: tail⟩ = .ok ⟨[dot], ⟨pos + 1, tail⟩, reached⟩ := by
  refine ⟨Token.between .trailingDot ⟨pos, '.' :: tail⟩ ⟨pos + 1, tail⟩, Input.reaches_advance ⟨pos, '.' :: tail⟩, rfl,
    ?_⟩
  have filled : ¬ Input.atEnd ⟨pos, '.' :: tail⟩ = true := Bool.false_ne_true
  have colon : ¬ Input.isAt ':' ⟨pos, '.' :: tail⟩ = true := Bool.false_ne_true
  have apart : Apart isTagWord tail := ended.apart rfl rfl
  have nameless : ¬ Input.isClass isTagWord ⟨pos + 1, tail⟩ = true := by
    cases tail with
    | nil => exact Bool.false_ne_true
    | cons char more => exact Bool.eq_false_iff.mp (apart char rfl)
  have last : Input.atLineEnd ⟨pos + 1, tail⟩ = true := ended.atLineEnd rfl
  rw [readTagParts, dif_neg filled, if_neg colon, if_pos (.inl rfl)]
  exact if_pos ⟨rfl, nameless, last⟩

/-- A word with no blank after it is a tag, unless it is one of those that stand alone. -/
theorem readWord_tag {input : Input} {name rest : List Char} (letters : ∀ char ∈ name, isTagWord char = true)
    (unreserved : String.ofList name ∉ ["else", "default", "doctype"]) (begins : input.rest = name ++ rest)
    (apart : Apart isTagWord rest) (unspaced : Apart isSpacing rest) :
    ∃ reached, Line.readWord input = (readTagParts false (input.dropWhile isTagWord)).map fun parts =>
      Line.complete .tagLine
        ((parts.map (Token.between .tag input (input.dropWhile isTagWord) :: ·)).widen reached) := by
  refine ⟨Input.reaches_dropWhile .., ?_⟩
  have word : input.takeWhile isTagWord = name := by
    rw [Input.takeWhile, begins]
    exact takeWhile_append letters apart
  have spaced : (input.dropWhile isTagWord).isClass isSpacing = false := by
    unfold Input.isClass
    rw [Input.rest_dropWhile, begins, dropWhile_append letters apart]
    cases rest with
    | nil => rfl
    | cons char more => exact unspaced char rfl
  obtain ⟨other, another, last⟩ : String.ofList name ≠ "else" ∧ String.ofList name ≠ "default" ∧
      String.ofList name ≠ "doctype" := by
    simpa only [List.mem_cons, List.not_mem_nil, or_false, not_or] using unreserved
  unfold Line.readWord Line.readAfterName
  dsimp only
  rw [spaced, if_neg Bool.false_ne_true, word]
  dsimp only
  rw [Bool.false_and, Bool.false_and, if_neg Bool.false_ne_true, if_neg other, if_neg another,
    if_neg fun both => last both.1, if_neg Bool.false_ne_true]
  cases readTagParts false (input.dropWhile isTagWord) <;> rfl

namespace Head

variable (head : Head)

/-- The parts that the head of a tag is read as. -/
def parts : List Token :=
  ⟨.tag, ⟨0, byteLength head.name⟩, String.ofList head.name, none, []⟩ :: noteParts (byteLength head.name) head.notes

/-- No part of it is a dot. -/
theorem undotted : (head.parts.getLast?.any fun part => part.kind == .trailingDot) = false := by
  have other : ∀ part ∈ head.parts, part.kind = .tag ∨ part.kind = .idNote ∨ part.kind = .classNote :=
    List.forall_mem_cons.mpr ⟨.inl rfl, fun part member => .inr (kind_of_noteParts part member)⟩
  cases last : head.parts.getLast? with
  | none => rfl
  | some part =>
    rw [Option.any_some]
    rcases other part (List.mem_of_getLast? last) with is | is | is <;> rw [is] <;> rfl

theorem begins (rest : List Char) : ∃ char text, head.text ++ rest = char :: text ∧ isWhitespace char = false := by
  obtain ⟨char, more, same, -⟩ := head.letter
  refine ⟨char, more ++ head.notes.flatMap Note.text ++ rest, ?_, ?_⟩
  · rw [text, same]
    rfl
  · exact Naming.visible_of_isTagWord (head.letters char (by rw [same]; exact List.mem_cons_self))

/-- The head of a tag at the start of a source, and what follows it on its line. -/
theorem read_line {rest : List Char} (apart : Apart isTagWord rest) (unspaced : Apart isSpacing rest)
    (lineStart : Input) : ∃ stop reached, Line.read lineStart (.ofText (head.text ++ rest)) =
      (readTagParts false ⟨stop, rest⟩).map fun more =>
        Line.complete .tagLine ((more.map (head.parts ++ ·)).widen reached) := by
  obtain ⟨char, more, same, latin⟩ := head.letter
  have letter : isTagWord char = true := head.letters char (by rw [same]; exact List.mem_cons_self)
  have dash : char ≠ '-' := by
    rintro rfl
    cases latin
  have follows := apart_notes rfl rfl apart head.notes
  have blank := apart_notes rfl rfl unspaced head.notes
  obtain ⟨stop, reached, notes⟩ := readTagParts_notes apart false head.notes (byteLength head.name)
  have whole : head.text ++ rest = head.name ++ (head.notes.flatMap Note.text ++ rest) := List.append_assoc ..
  rw [whole]
  generalize head.notes.flatMap Note.text ++ rest = tail at follows blank reached notes
  have begins : (Input.ofText (head.name ++ tail)).rest = char :: (more ++ tail) := by
    rw [same]
    rfl
  have after : (Input.ofText (head.name ++ tail)).dropWhile isTagWord = ⟨byteLength head.name, tail⟩ := by
    rw [Input.ofText, dropWhile_word head.letters follows, Nat.zero_add]
  have text := Input.textTo_dropWhile isTagWord (.ofText (head.name ++ tail))
  have name : Input.takeWhile isTagWord (.ofText (head.name ++ tail)) = head.name :=
    takeWhile_append head.letters follows
  have tag : Token.between .tag (.ofText (head.name ++ tail)) ⟨byteLength head.name, tail⟩ =
      ⟨.tag, ⟨0, byteLength head.name⟩, String.ofList head.name, none, []⟩ := by
    rw [name, after] at text
    rw [Token.between, text]
    rfl
  have start : (Input.ofText (head.name ++ tail)).rest = head.name ++ tail := rfl
  have line := readWord_tag head.letters head.unreserved start follows blank
  rw [after, tag] at line
  obtain ⟨arrived, line⟩ := line
  rw [notes] at line
  refine ⟨stop, arrived.trans reached, ?_⟩
  rw [Naming.line_eq begins letter dash, if_pos latin, line]
  cases readTagParts false ⟨stop, rest⟩ <;> rfl

/-- The head of a tag that ends in a dot, and the same head alone on its line. -/
theorem lines_read {tail more : List Char} (ended : Ended tail) (other : Ended more) (first second : Input) :
    ∃ x y dot, Line.read first (.ofText (head.text ++ '.' :: tail)) = .ok x ∧
      Line.read second (.ofText (head.text ++ more)) = .ok y ∧ dot.kind = .trailingDot ∧
      IsTag (head.parts ++ [dot]) [] x.value ∧ IsTag head.parts [] y.value ∧ x.rest.rest = tail ∧ y.rest.rest = more := by
  have dotted : Apart isTagWord ('.' :: tail) := fun _ same => by cases same; rfl
  have unspaced : Apart isSpacing ('.' :: tail) := fun _ same => by cases same; rfl
  obtain ⟨stop, _, here⟩ := head.read_line dotted unspaced first
  obtain ⟨place, _, there⟩ := head.read_line (other.apart rfl rfl) (other.apart rfl rfl) second
  obtain ⟨dot, _, is, last⟩ := readTagParts_dot ended false stop
  have rest : (⟨place, more⟩ : Input).rest = more := rfl
  obtain ⟨_, none⟩ := Prolonging.readTagParts_ended other false rest
  rw [last] at here
  rw [none] at there
  refine ⟨_, _, dot, here, there, is, ⟨_, rfl, rfl, rfl, rfl⟩, ⟨_, rfl, rfl, rfl, ?_⟩, rfl, rfl⟩
  exact List.append_nil _

end Head

/-! Rows. -/

/-- Lines of one depth stand side by side. -/
theorem nest_level (lines : List Token) : Row.nest (lines.map below) = lines.map fun line => (1, line) := by
  induction lines with
  | nil => rfl
  | cons line lines step =>
    have none : (lines.map fun line => (1, line)).takeWhile (fun other => decide (1 < other.1)) = [] := by
      cases lines <;> rfl
    have all : (lines.map fun line => (1, line)).dropWhile (fun other => decide (1 < other.1)) =
        lines.map fun line => (1, line) := by
      cases lines <;> rfl
    change Row.nest (⟨1, line, []⟩ :: lines.map below) = _
    rw [Row.nest, step]
    dsimp only
    rw [none, all, List.map_nil, link_alone, List.map_cons]

/-- Lines below a line are nested in it. -/
theorem nest_below (line : Token) (lines : List Token) :
    Row.nest (⟨0, line, []⟩ :: lines.map below) = [(0, line.addChildren lines)] := by
  have deeper : ∀ other ∈ lines.map fun line => (1, line), decide (0 < other.1) = true := fun other member => by
    obtain ⟨_, -, rfl⟩ := List.mem_map.mp member
    rfl
  have all : (lines.map fun line => (1, line)).map Prod.snd = lines := by
    rw [List.map_map]
    exact List.map_id lines
  rw [Row.nest, nest_level]
  dsimp only
  rw [List.takeWhile_eq_self_iff.mpr deeper, List.dropWhile_eq_nil_iff.mpr deeper, all, Row.link]

/-- A source of a tag and lines below it. -/
theorem ofSource_tag {source : List Char} {char : Char} {text : List Char} (begins : source = char :: text)
    (visible : isWhitespace char = false) {line : Parsed Token (.ofText source)}
    (read : Line.read (.ofText source) (.ofText source) = .ok line) (unchained : line.rest.isAt ':' = false)
    {lines : List Token}
    (found : readRows ⟨none, [], some line.value.nestsText⟩ (finishLine line.rest) = .ok (lines.map below))
    {parts : List Token} (tag : IsTag parts [] line.value) :
    ∃ root twin, Token.ofSource source = .ok root ∧ root.children = [twin] ∧ IsTag parts lines twin := by
  subst begins
  have rows : readRows .start (.ofText (char :: text)) = .ok (⟨0, line.value, []⟩ :: lines.map below) := by
    rw [readRows_unindented rfl visible, readRow_unchained read unchained]
    change readRows ⟨none, [], some line.value.nestsText⟩ (finishLine line.rest) >>= _ = _
    rw [found]
    rfl
  rw [Token.ofSource, rows]
  refine ⟨_, line.value.addChildren lines, rfl, congrArg (List.map Prod.snd) (nest_below line.value lines), ?_⟩
  obtain ⟨data, kind, children, is, all⟩ := tag
  refine ⟨data, kind, ?_, is, all⟩
  change line.value.children ++ lines = _
  rw [children]
  rfl

/-! What is built. -/

section

variable (fold : Expr → Option Value) (layout : Layout)

theorem pieces_dotted {dot : Token} (is : dot.kind = .trailingDot) (parts : List Token) :
    pieces fold layout (parts ++ [dot]) = pieces fold layout parts := by
  induction parts with
  | nil => exact Content.pieces_quiet fold layout (by rw [is]; rfl) (by rw [is]; decide) []
  | cons part parts step =>
    obtain ⟨kind, span, text, expr, children⟩ := part
    rw [List.cons_append, pieces.eq_def, pieces.eq_def fold layout (_ :: parts)]
    cases kind <;> dsimp only <;> rw [step]

/-- The dot at the end of a tag puts out nothing. -/
theorem tag_dotted {dot : Token} (is : dot.kind = .trailingDot) {parts : List Token} (filled : parts ≠ [])
    (ownLine : Bool) (offset : Nat) (nested : List Token) :
    tag fold layout ownLine offset (parts ++ [dot]) nested = tag fold layout ownLine offset parts nested := by
  have name : tagName (parts ++ [dot]) = tagName parts := by
    rw [tagName, tagName, List.head?_append_of_ne_nil parts filled]
  have short : shorthand (parts ++ [dot]) = shorthand parts := by
    unfold shorthand
    simp [List.filter_append, is]
  have given : (parts ++ [dot]).forM (attributes fold) = parts.forM (attributes fold) := by
    obtain ⟨kind, _, _, _, _⟩ := dot
    obtain rfl := is
    exact List.forM_append.trans bind_pure_unit
  have slash : ((parts ++ [dot]).any fun part => part.kind == .trailingSlash) =
      parts.any fun part => part.kind == .trailingSlash := by
    rw [List.any_append, List.any_cons, is]
    exact Bool.or_false _
  rw [tag_eq, tag_eq, name, short, given, slash, List.tail_append_of_ne_nil filled, pieces_dotted fold layout is]

theorem statement_tag {parts lines : List Token} {line : Token} (is : IsTag parts lines line) :
    ∃ offset, statement fold layout line = tag fold layout true offset parts lines := by
  obtain ⟨⟨_, span, _, _, _⟩, kind, children, same, all⟩ := is
  obtain ⟨_, _, _, _, _⟩ := line
  obtain rfl := kind
  obtain rfl := children
  obtain rfl := same
  obtain rfl := all
  exact ⟨span.start, by rw [statement, Compilation.line]⟩

theorem block_tag {parts lines : List Token} {line : Token} (is : IsTag parts lines line) :
    ∃ offset, block fold layout false none [line] = tag fold layout true offset parts lines := by
  obtain ⟨offset, same⟩ := statement_tag fold layout is
  obtain ⟨data, kind, children, tag, -⟩ := is
  have placed : misplaced? none line.kind = none := by rw [kind]; rfl
  have markup : isTextLine line = false := by
    rw [isTextLine, kind, children, List.head?_cons, Option.any_some, tag]
    rfl
  refine ⟨offset, ?_⟩
  rw [block_cons, placed, markup, same]
  dsimp only
  rw [if_neg Bool.false_ne_true, block_nil, bind_pure_unit]

/-- Lines of text go like the same lines after bars. -/
theorem block_barred {lines others : List Token} (alike : List.Forall₂ Barred lines others) (afterText : Bool)
    (previous : Option TokenKind) :
    Goes true (block fold layout afterText previous lines) (block fold layout afterText previous others) := by
  have sound := respelling_sound true fold
  have layouts : (respelling true fold).layouts layout layout := rfl
  induction alike generalizing afterText previous with
  | nil =>
    rw [block_nil]
    exact .pure
  | @cons line other lines others first _ step =>
    cases first with
    | @intro span twin place site text other content copy mark parts inserts filled barred akin =>
      have bare : statement fold layout
          ⟨.line, span, text, none, [⟨.textLine, place, content, none, parts⟩]⟩ = pieces fold layout parts := by
        rw [statement, Compilation.line, block_nil, bind_pure_unit]
        exact filled
      have piped : statement fold layout
          ⟨.line, twin, other, none, [⟨.pipedLine, site, copy, none, mark :: inserts⟩]⟩ =
            pieces fold layout inserts := by
        rw [statement, Compilation.line, block_nil, bind_pure_unit,
          Content.pieces_quiet fold layout (by rw [barred]; rfl) (by rw [barred]; decide)]
      have texts : Goes true (pieces fold layout parts) (pieces fold layout inserts) :=
        pieces_woven sound layouts parts (likes akin (.inl trivial))
      -- Both kinds of lines are text, so both are parted from the line before in the same way.
      have apart : (respelling true fold).Weaves none none (parting layout afterText) (parting layout afterText) :=
        sound.parted layouts afterText
      rw [block_cons, block_cons, bare, piped]
      exact .bind apart (.bind texts (step true (some .line)))

/-- A tag with lines of text goes like the same tag with these lines after bars, if one of them ends in a dot. -/
theorem tag_barred {dot : Token} (is : dot.kind = .trailingDot) {parts : List Token} (filled : parts ≠ [])
    (offset place : Nat) {lines others : List Token} (alike : List.Forall₂ Barred lines others) :
    Goes true (tag fold layout true offset (parts ++ [dot]) lines) (tag fold layout true place parts others) := by
  have sound := respelling_sound true fold
  have layouts : (respelling true fold).layouts layout layout := rfl
  have refl (parts : List Token) : (respelling true fold).Twins parts parts :=
    Token.Like.refl_all (fun _ => trivial) (Agrees.refl true) parts
  have pushes (text : String) : (respelling true fold).Weaves none none (Builder.push text) (Builder.push text) :=
    sound.pushed (sound.plain text)
  rw [tag_dotted fold layout is filled, tag_eq, tag_eq]
  refine .bind (sound.opened layouts true _) (.bind (pushes _) (.bind (pushes _)
    (.bind (attributes_woven sound (refl parts)) ?_)))
  split
  · -- A tag that holds nothing is refused in both spellings, once there is a line below it.
    have empty : others.isEmpty = lines.isEmpty := by cases alike <;> rfl
    rw [empty]
    refine .bind (pushes _) ?_
    split
    · exact .throw rfl
    · exact .pure
  · exact .bind (pushes _) (.bind (pieces_woven sound layouts parts.tail (refl parts.tail))
      (sound.nested layouts true _ _ (block_barred fold _ alike false none)))

end

/-! The two spellings. -/

variable {mark last : List Char}

/-- A tag that ends in a dot, and bare text below it. -/
def dotted (mark last : List Char) (head : Head) (texts : List Text) : List Char :=
  head.text ++ '.' :: (beneath mark (texts.map Text.chars) ++ last)

/-- A tag, and text after bars below it. -/
def barred (mark last : List Char) (head : Head) (texts : List Text) : List Char :=
  head.text ++ (beneath mark (texts.map Text.barred) ++ last)

/-- The trees of both spellings: the same tag but for the dot, and lines with the same parts below it. -/
theorem ofSource_spelled (ends : Break mark []) (final : Final last) (head : Head) (texts : List Text) :
    ∃ root twin line other dot lines others, Token.ofSource (dotted mark last head texts) = .ok root ∧
      Token.ofSource (barred mark last head texts) = .ok twin ∧ root.children = [line] ∧ twin.children = [other] ∧
      dot.kind = .trailingDot ∧ IsTag (head.parts ++ [dot]) lines line ∧ IsTag head.parts others other ∧
      List.Forall₂ Barred lines others := by
  have ended := ended_beneath ends (texts.map Text.chars) final
  have others := ended_beneath ends (texts.map Text.barred) final
  obtain ⟨x, y, dot, one, two, is, tag, bare, left, right⟩ :=
    head.lines_read ended others (.ofText (dotted mark last head texts)) (.ofText (barred mark last head texts))
  obtain ⟨lines, twins, found, sought, alike⟩ :=
    rows_read ends final texts (opens_first true) (opens_first false) left right
  have here : x.value.nestsText = true := by
    rw [nestsText_tag tag, List.getLast?_concat, Option.any_some, is]
    rfl
  have there : y.value.nestsText = false := (nestsText_tag bare).trans head.undotted
  rw [← here] at found
  rw [← there] at sought
  obtain ⟨_, _, begins, visible⟩ := head.begins ('.' :: (beneath mark (texts.map Text.chars) ++ last))
  obtain ⟨_, _, starts, letter⟩ := head.begins (beneath mark (texts.map Text.barred) ++ last)
  obtain ⟨root, line, read, children, whole⟩ := ofSource_tag begins visible one (ended.isAt rfl left) found tag
  obtain ⟨twin, other, reads, inner, same⟩ := ofSource_tag starts letter two (others.isAt rfl right) sought bare
  exact ⟨root, twin, line, other, dot, lines, twins, read, reads, children, inner, is, whole, same, alike⟩

/-- Text below a tag that ends in a dot is the same as text after bars below the tag: both are templates that are
dumped alike, or are refused with the same message. -/
theorem text_spelled_alike (options : TemplateOptions) (ends : Break mark []) (final : Final last) (head : Head)
    (texts : List Text) :
    Both (fun error other => other.message = error.message)
      (fun template other => other.describe true = template.describe true)
      (Template.ofSource options (dotted mark last head texts))
      (Template.ofSource options (barred mark last head texts)) := by
  obtain ⟨root, twin, line, other, dot, lines, others, read, reads, children, inner, is, tag, bare, alike⟩ :=
    ofSource_spelled ends final head texts
  refine template_of_compiled options ?_
  rw [read, reads]
  refine .ok (compiled_of_goes ?_)
  rw [children, inner]
  obtain ⟨offset, here⟩ := block_tag Expr.constant? { pretty := options.pretty, depth := 0 } tag
  obtain ⟨place, there⟩ := block_tag Expr.constant? { pretty := options.pretty, depth := 0 } bare
  rw [here, there]
  exact tag_barred _ _ is (List.cons_ne_nil _ _) offset place alike

theorem outside_of_all {class? : Char → Bool} {chars : List Char}
    (all : (chars.all fun char => !class? char) = true) : ∀ char ∈ chars, class? char = false :=
  fun char member => (Bool.not_eq_true' _).mp (List.all_eq_true.mp all char member)

/-- Some characters as a text, if they are one. -/
def Text.ofChars? (chars : List Char) : Option Text :=
  match accepted : Token.ofSource ('|' :: ' ' :: chars) with
  | .error _ => none
  | .ok root =>
    if filled : chars ≠ [] then
      if unbroken : chars.all fun char => !isLineEnd char then
        if unspaced : chars.head?.toList.all fun char => !isSpacing char then
          if unescaped : chars.getLast? ≠ some '\\' then
            some {
              chars, filled, unescaped
              unbroken := outside_of_all unbroken
              unspaced := fun char first => outside_of_all unspaced char (Option.mem_toList.mpr first)
              accepted := ⟨root, accepted⟩ }
          else none
        else none
      else none
    else none

def titled : Head where
  name := ['h', '2']
  letter := ⟨'h', ['2'], rfl, rfl⟩
  letters := List.all_eq_true.mp rfl
  unreserved := by decide +kernel
  notes := [⟨true, ['t', 'o', 'p'], ⟨List.cons_ne_nil _ _, List.all_eq_true.mp rfl⟩⟩,
    ⟨false, ['n', 'e', 'w'], ⟨List.cons_ne_nil _ _, List.all_eq_true.mp rfl⟩⟩]

def greeting : Text := (Text.ofChars? "Hello #{name}, \\#{name}!".toList).get (by decide +kernel)

def slashed : Text := (Text.ofChars? "// #[em no] comment: ".toList).get (by decide +kernel)

theorem samples_spelled :
    dotted ['\r', '\n'] ['\n'] titled [greeting, slashed] =
        "h2#top.new.\r\n\tHello #{name}, \\#{name}!\r\n\t// #[em no] comment: \n".toList ∧
      barred ['\r', '\n'] ['\n'] titled [greeting, slashed] =
        "h2#top.new\r\n\t| Hello #{name}, \\#{name}!\r\n\t| // #[em no] comment: \n".toList ∧
      Both (fun error other => other.message = error.message)
        (fun template other => other.describe true = template.describe true)
        (Template.ofSource { pretty := true, stopOnError := true }
          (dotted ['\r', '\n'] ['\n'] titled [greeting, slashed]))
        (Template.ofSource { pretty := true, stopOnError := true }
          (barred ['\r', '\n'] ['\n'] titled [greeting, slashed])) :=
  ⟨by decide +kernel, by decide +kernel,
    text_spelled_alike { pretty := true, stopOnError := true } (.paired []) (.inr (.newline [])) titled
      [greeting, slashed]⟩

end HtmlTemplate.TextBlocks
