import HtmlTemplate.Expr.Literal
import HtmlTemplate.Proofs.Respelling.Quotes

/-! Numbers, strings and words in two texts that differ in blanks. -/

namespace HtmlTemplate.Respelling

open CharClass Quoting

/-- Two readers of expressions that fail with the same fault, or both succeed. -/
abbrev Reads {α β : Type} (values : α → β → Prop) : Except ParseError α → Except ParseError β → Prop :=
  Both (fun error other => other.fault = error.fault) values

variable {spelling : Spelling} {first second : Input}

/-! Strings. -/

theorem visible_of_isHexDigit {char : Char} (digit : isHexDigit char = true) :
    isWhitespace char = false ∧ isLineEnd char = false ∧ isQuote char = false ∧ char ≠ '\\' := by
  have solid : Solid isHexDigit := ⟨rfl, rfl, rfl, rfl⟩
  have visible := solid.visible digit
  refine ⟨visible, isLineEnd_of_visible visible, @unquoted isHexDigit rfl rfl _ digit, ?_⟩
  rintro rfl
  cases digit

/-- Hexadecimal digits leave a string where it is. -/
theorem scan_hex (quote : Char) (quotes : isQuote quote = true) {digits : List Char}
    (hex : ∀ char ∈ digits, isHexDigit char = true) : (inside quote).scan digits = some (inside quote) := by
  induction digits with
  | nil => rfl
  | cons digit digits step =>
    obtain ⟨first, rest⟩ := List.forall_mem_cons.mp hex
    obtain ⟨-, within, unquoted, other⟩ := visible_of_isHexDigit first
    have inner : digit ≠ quote := by
      rintro rfl
      exact Bool.false_ne_true (unquoted.symm.trans quotes)
    rw [scan_cons, Quoting.step, within, if_neg Bool.false_ne_true, if_neg inner, if_neg other]
    exact step rest

/-- What is read up to some place leads from one place in a quoted string to another one, and both texts
have the same, unless a line ends in it. -/
structure Within (spelling : Spelling) (quoting after : Quoting) (same : Prop) (start stop final : Input) : Prop where
  beside : Beside spelling stop final
  read : ∃ read, start.rest = read ++ stop.rest ∧
    ∀ found, quoting.scan read = some found → found = after ∧ Inside spelling stop final ∧ same

namespace Within

variable {quoting middle after : Quoting} {same other : Prop} {start between stop twin final : Input}

theorem trans (first : Within spelling quoting middle same start between twin)
    (second : Within spelling middle after other between stop final) :
    Within spelling quoting after (same ∧ other) start stop final := by
  obtain ⟨-, text, rest, reached⟩ := first
  obtain ⟨beside, more, further, ends⟩ := second
  refine ⟨beside, text ++ more, by rw [rest, further, List.append_assoc], fun found scanned => ?_⟩
  rw [scan_append] at scanned
  obtain ⟨quoting, scanned, goesOn⟩ := Option.bind_eq_some_iff.mp scanned
  obtain ⟨rfl, -, here⟩ := reached quoting scanned
  obtain ⟨after, inside, there⟩ := ends found goesOn
  exact ⟨after, inside, here, there⟩

theorem mono (within : Within spelling quoting after same start stop final) (more : same → other) :
    Within spelling quoting after other start stop final := by
  obtain ⟨beside, text, rest, ends⟩ := within
  refine ⟨beside, text, rest, fun found scanned => ?_⟩
  obtain ⟨after, inside, here⟩ := ends found scanned
  exact ⟨after, inside, more here⟩

/-- A character before what is read. -/
theorem step {here : Prop} {char : Char} (rest : start.rest = char :: between.rest)
    (steps : ∀ found, quoting.step char = some found → found = middle ∧ here)
    (within : Within spelling middle after same between stop final) :
    Within spelling quoting after (here ∧ same) start stop final := by
  obtain ⟨beside, more, further, ends⟩ := within
  refine ⟨beside, char :: more, by rw [rest, further, List.cons_append], fun found scanned => ?_⟩
  rw [scan_cons] at scanned
  obtain ⟨next, stepped, scanned⟩ := Option.bind_eq_some_iff.mp scanned
  obtain ⟨rfl, here⟩ := steps next stepped
  obtain ⟨after, inside, same⟩ := ends found scanned
  exact ⟨after, inside, here, same⟩

/-- A character that both texts have. -/
theorem char {char : Char} (beside : Beside spelling stop final) (rest : start.rest = char :: stop.rest)
    (steps : ∀ found, quoting.step char = some found → found = after ∧ Inside spelling stop final ∧ same) :
    Within spelling quoting after same start stop final := by
  refine ⟨beside, [char], rest, fun found scanned => ?_⟩
  rw [scan_cons] at scanned
  obtain ⟨next, stepped, last⟩ := Option.bind_eq_some_iff.mp scanned
  cases last
  exact steps _ stepped

/-- With a line that ends in it, a string is not looked at. -/
theorem broken {quote char : Char} {run : List Char} (ends : isLineEnd char = true)
    (rest : start.rest = char :: (run ++ between.rest))
    (within : Within spelling middle after other between stop final) :
    Within spelling (inside quote) after same start stop final := by
  obtain ⟨beside, more, further, -⟩ := within
  refine ⟨beside, char :: (run ++ more), by rw [rest, further, List.cons_append, List.append_assoc], ?_⟩
  intro found scanned
  rw [scan_cons, Quoting.step, if_pos ends] at scanned
  cases scanned

theorem leads {quote : Char} (quotes : isQuote quote = true) (rest : start.rest = quote :: between.rest)
    (within : Within spelling (inside quote) .outside same between stop final) :
    Leads spelling start stop final same := by
  obtain ⟨beside, read, further, ends⟩ := within
  refine ⟨beside, quote :: read, by rw [rest, further, List.cons_append], fun found scanned => ?_⟩
  rw [scan_cons, Quoting.step, quotes] at scanned
  obtain ⟨outside, -, same⟩ := ends found scanned
  exact ⟨outside, same⟩

end Within

/-- A value that is read in a quoted string. -/
structure Escapes {α : Type} (spelling : Spelling) (quoting after : Quoting) (x : Parsed α first)
    (y : Parsed α second) : Prop where
  value : y.value = x.value
  within : Within spelling quoting after True first x.rest y.rest

/-- Both texts begin with the same word of some length. -/
theorem take_word {text other word : List Char} (visible : Visible word)
    (texts : spelling.beside text other) :
    other.take word.length = word ↔ text.take word.length = word := by
  have same := (spelling.word visible texts).1
  rw [Bool.eq_iff_iff, List.isPrefixOf_iff_prefix, List.isPrefixOf_iff_prefix, List.prefix_iff_eq_take,
    List.prefix_iff_eq_take] at same
  rw [eq_comm, same, eq_comm]

theorem take_hex {text other : List Char} {count : Nat} (texts : spelling.beside text other)
    (found : ((text.take count).length = count ∧ (text.take count).all isHexDigit = true) ∨
      ((other.take count).length = count ∧ (other.take count).all isHexDigit = true)) :
    other.take count = text.take count := by
  have visible {digits : List Char} (hex : digits.all isHexDigit = true) : Visible digits :=
    fun char member => (visible_of_isHexDigit (List.all_eq_true.mp hex char member)).1
  rcases found with ⟨length, hex⟩ | ⟨length, hex⟩
  · have same := take_word (visible hex) texts
    rw [length] at same
    exact same.mpr rfl
  · have same := take_word (visible hex) texts
    rw [length] at same
    exact (same.mp rfl).symm

theorem readHex_reads {quote : Char} (quotes : isQuote quote = true) (beside : Beside spelling first second) :
    Reads (Escapes spelling (inside quote) (inside quote)) (Literal.readHex first) (Literal.readHex second) := by
  unfold Literal.readHex
  dsimp only
  by_cases digits : (first.rest.take 4).length = 4 ∧ (first.rest.take 4).all isHexDigit = true
  · have same := take_hex beside (.inl digits)
    rw [if_pos digits, if_pos (by rw [same]; exact digits)]
    obtain ⟨length, hex⟩ := digits
    have hex := List.all_eq_true.mp hex
    have visible : Visible (first.rest.take 4) := fun char member => (visible_of_isHexDigit (hex char member)).1
    have starts : (first.rest.take 4).isPrefixOf first.rest = true :=
      List.isPrefixOf_iff_prefix.mpr (List.take_prefix 4 first.rest)
    obtain ⟨-, after⟩ := (spelling.word visible beside).2 starts
    have some : first.rest.take 4 ≠ [] := fun none => by rw [none] at length; cases length
    have inside : Inside spelling (first.advanceBy 4) (second.advanceBy 4) := by
      unfold Inside
      rw [Reading.rest_advanceBy, Reading.rest_advanceBy, ← length]
      exact after some
    refine .ok ⟨by rw [same], inside.beside, first.rest.take 4, ?_, fun found scanned => ?_⟩
    · rw [Reading.rest_advanceBy, List.take_append_drop]
    · rw [scan_hex quote quotes hex] at scanned
      exact ⟨(Option.some.inj scanned).symm, inside, trivial⟩
  · rw [if_neg digits, if_neg fun others => digits (take_hex beside (.inr others) ▸ others)]
    exact .error rfl

theorem charOfCode_reads (code : Nat) (first second : Input) :
    Reads (fun x y => y.value = x.value ∧ x.rest = first ∧ y.rest = second)
      (Literal.charOfCode code first) (Literal.charOfCode code second) := by
  unfold Literal.charOfCode
  split
  · exact .ok ⟨rfl, rfl, rfl⟩
  · exact .error rfl

/-- The mark of a code in a string. -/
theorem codeMark_within {quote : Char} (quotes : isQuote quote = true) (beside : Beside spelling first second) :
    Option.Rel (Within spelling (inside quote) (inside quote) True first)
      (first.eatWord? ['\\', 'u']) (second.eatWord? ['\\', 'u']) := by
  have other : '\\' ≠ quote := by
    rintro rfl
    cases quotes
  obtain ⟨same, goesOn⟩ := spelling.word (show Visible ['\\', 'u'] by decide) beside
  unfold Input.eatWord? Input.startsWith
  rw [same]
  split
  · rename_i starts
    have inside : Inside spelling (first.advanceBy 2) (second.advanceBy 2) := by
      unfold Inside
      rw [Reading.rest_advanceBy, Reading.rest_advanceBy]
      exact (goesOn starts).2 (List.cons_ne_nil _ _)
    obtain ⟨rest, whole⟩ := List.isPrefixOf_iff_prefix.mp starts
    refine .some ⟨inside.beside, ['\\', 'u'], ?_, fun found scanned => ⟨?_, inside, trivial⟩⟩
    · rw [Reading.rest_advanceBy, ← whole, List.drop_left]
    · rw [scan_cons, Quoting.step, if_neg (by decide), if_neg other, if_pos rfl] at scanned
      exact (Option.some.inj scanned).symm
  · exact .none

theorem readCode_reads {quote : Char} (quotes : isQuote quote = true) (beside : Beside spelling first second) :
    Reads (Escapes spelling (inside quote) (inside quote)) (Literal.readCode first) (Literal.readCode second) := by
  unfold Literal.readCode
  refine .bind (readHex_reads quotes beside) fun high other escapes => ?_
  obtain ⟨value, within⟩ := escapes
  rw [value]
  split
  · have mark := codeMark_within quotes within.beside
    split
    · rename_i none
      rw [none] at mark
      split
      · exact .error rfl
      · rename_i some
        rw [some] at mark
        cases mark
    · rename_i next found
      rw [found] at mark
      split
      · rename_i none
        rw [none] at mark
        cases mark
      · rename_i follow eaten
        rw [eaten] at mark
        cases mark with
        | some marked =>
          refine .bind (readHex_reads quotes marked.beside) fun low twin escapes => ?_
          obtain ⟨same, further⟩ := escapes
          rw [same]
          split
          · refine .bind (charOfCode_reads _ _ _) fun char copy alike => ?_
            obtain ⟨same, here, there⟩ := alike
            refine .ok ⟨same, ?_⟩
            change Within spelling _ _ True first char.rest copy.rest
            rw [here, there]
            exact (within.trans (marked.trans further)).mono fun _ => trivial
          · exact .error rfl
  · refine .bind (charOfCode_reads _ _ _) fun char copy alike => ?_
    obtain ⟨same, here, there⟩ := alike
    refine .ok ⟨same, ?_⟩
    change Within spelling _ _ True first char.rest copy.rest
    rw [here, there]
    exact within

/-- Two places after a backslash. -/
def Escaped (spelling : Spelling) (first second : Input) : Prop :=
  spelling.beside ('\\' :: first.rest) ('\\' :: second.rest)

theorem readEscape_reads {quote : Char} (quotes : isQuote quote = true) (start stop : Nat)
    (escaped : Escaped spelling first second) :
    Reads (Escapes spelling (.escaped quote) (inside quote)) (Literal.readEscape start first)
      (Literal.readEscape stop second) := by
  obtain ⟨pos, text⟩ := first
  obtain ⟨other_pos, other⟩ := second
  unfold Literal.readEscape
  cases text with
  | nil =>
    obtain ⟨rest, same, further⟩ := spelling.visible rfl escaped
    obtain rfl := (List.cons.inj same).2.trans (spelling.nil_iff (spelling.weaken further) |>.mpr rfl)
    exact .error rfl
  | cons char text =>
    obtain ⟨rest, same, further, begun⟩ := spelling.escaped escaped
    obtain rfl : other = char :: rest := (List.cons.inj same).2
    have here : Within spelling (.escaped quote) (inside quote) True ⟨pos, char :: text⟩
        (Input.advance ⟨pos, char :: text⟩) (Input.advance ⟨other_pos, char :: rest⟩) := by
      refine .char further rfl fun found stepped => ?_
      change (if isLineEnd char = true then none else some (inside quote)) = _ at stepped
      split at stepped
      · cases stepped
      · rename_i within
        exact ⟨(Option.some.inj stepped).symm, begun (Bool.eq_false_iff.mpr within), trivial⟩
    dsimp only
    split
    · refine .map (readCode_reads quotes further) fun code copy escapes => ?_
      exact ⟨escapes.value, (here.trans escapes.within).mono fun _ => trivial⟩
    · exact .ok ⟨rfl, here⟩

theorem step_inside {quote char : Char} (inner : char ≠ quote) (plain : char ≠ '\\') (found : Quoting)
    (stepped : (inside quote).step char = some found) : found = inside quote ∧ isLineEnd char = false := by
  rw [Quoting.step, if_neg inner, if_neg plain] at stepped
  split at stepped
  · cases stepped
  · rename_i within
    exact ⟨(Option.some.inj stepped).symm, Bool.eq_false_iff.mpr within⟩

theorem step_quote {quote : Char} (quotes : isQuote quote = true) :
    (inside quote).step quote = some .outside ∧ isWhitespace quote = false := by
  rcases Bool.or_eq_true_iff.mp quotes with same | same <;> rw [beq_iff_eq.mp same] <;> exact ⟨rfl, rfl⟩

/-- A blank neither ends a string nor escapes anything. -/
theorem plain_of_blank {quote char : Char} (quotes : isQuote quote = true)
    (blank : isWhitespace char = true) : char ≠ quote ∧ char ≠ '\\' := by
  constructor <;> rintro rfl
  · exact Bool.false_ne_true ((step_quote quotes).2.symm.trans blank)
  · cases blank

/-! The characters of a string. -/

section

variable {quote : Char} (start : Nat) (read : List Char) {input : Input} {char : Char} {text : List Char}

theorem readChars_ended (rest : input.rest = []) :
    Literal.readChars quote start read input = .error ⟨.unterminatedString, start, input.pos⟩ := by
  obtain ⟨pos, _⟩ := input
  subst rest
  rw [Literal.readChars]

theorem readChars_closed (rest : input.rest = quote :: text) :
    Literal.readChars quote start read input = .ok ⟨read.reverse, input.advance, Input.reaches_advance input⟩ := by
  obtain ⟨pos, _⟩ := input
  subst rest
  rw [Literal.readChars.eq_2, if_pos rfl]
  rfl

theorem readChars_escaped (rest : input.rest = '\\' :: text) (open? : '\\' ≠ quote) :
    Literal.readChars quote start read input = Literal.readEscape start input.advance >>= fun escaped =>
      (Literal.readChars quote start (escaped.value :: read) escaped.rest).map
        (.widen ((Input.reaches_advance input).trans escaped.reached)) := by
  obtain ⟨pos, _⟩ := input
  subst rest
  rw [Literal.readChars.eq_2, if_neg open?, if_pos rfl]
  refine congrArg _ (funext fun escaped => ?_)
  cases Literal.readChars quote start (escaped.value :: read) escaped.rest <;> rfl

theorem readChars_char (rest : input.rest = char :: text) (open? : char ≠ quote) (plain : char ≠ '\\') :
    Literal.readChars quote start read input = (Literal.readChars quote start (char :: read) input.advance).map
      (.widen (Input.reaches_advance input)) := by
  obtain ⟨pos, _⟩ := input
  subst rest
  rw [Literal.readChars.eq_2, if_neg open?, if_neg plain]
  change Literal.readChars quote start (char :: read) ⟨pos + char.utf8Size, text⟩ >>= _ =
    (Literal.readChars quote start (char :: read) ⟨pos + char.utf8Size, text⟩).map _
  cases Literal.readChars quote start (char :: read) ⟨pos + char.utf8Size, text⟩ <;> rfl

/-- Blanks are read one after the other. -/
theorem readChars_blanks (quotes : isQuote quote = true) {run : List Char}
    (blanks : ∀ blank ∈ run, isWhitespace blank = true) (rest : input.rest = run ++ text) :
    ∃ reached, Literal.readChars quote start read input =
      (Literal.readChars quote start (run.reverse ++ read) (input.advanceBy run.length)).map (.widen reached) := by
  induction run generalizing read input with
  | nil =>
    refine ⟨.refl _, ?_⟩
    change Literal.readChars quote start read input = (Literal.readChars quote start read input).map _
    cases Literal.readChars quote start read input <;> rfl
  | cons blank run step =>
    obtain ⟨first, more⟩ := List.forall_mem_cons.mp blanks
    obtain ⟨inner, plain⟩ := plain_of_blank quotes first
    have after : input.advance.rest = run ++ text := by rw [Reading.rest_advance, rest]; rfl
    obtain ⟨reached, further⟩ := step (blank :: read) more after
    refine ⟨(Input.reaches_advance input).trans reached, ?_⟩
    rw [readChars_char start read rest inner plain, further, List.reverse_cons, List.append_assoc]
    change _ =
      (Literal.readChars quote start (run.reverse ++ (blank :: read)) (input.advance.advanceBy run.length)).map _
    cases Literal.readChars quote start (run.reverse ++ (blank :: read)) (input.advance.advanceBy run.length) <;> rfl

end

/-- The characters of a string are the same unless it spans lines. -/
theorem readChars_reads {quote : Char} (quotes : isQuote quote = true) (start stop : Nat)
    (read copied : List Char) {first second : Input} (beside : Beside spelling first second) :
    Reads (fun x y => Within spelling (inside quote) .outside
        (Inside spelling first second → copied = read → y.value = x.value) first x.rest y.rest)
      (Literal.readChars quote start read first) (Literal.readChars quote stop copied second) := by
  have texts : spelling.beside first.rest second.rest := beside
  cases rest : first.rest with
  | nil =>
    rw [rest] at texts
    rw [readChars_ended start read rest, readChars_ended stop copied (spelling.nil_iff texts |>.mpr rfl)]
    exact .error rfl
  | cons char text =>
    rw [rest] at texts
    have past : first.advance.rest = text := by rw [Reading.rest_advance, rest, List.tail_cons]
    have here : first.rest = char :: first.advance.rest := by rw [past, rest]
    have shorter : first.advance.size < first.size := by
      rw [Input.size, Input.size, here]
      exact Nat.lt_succ_self _
    have both {more : List Char} (others : second.rest = char :: more) (begun : spelling.inside text more) :
        Inside spelling first.advance second.advance := by
      unfold Inside
      rwa [past, Reading.rest_advance, others, List.tail_cons]
    -- A character that stands in both texts, and is one of the string.
    have goesOn {more : List Char} (others : second.rest = char :: more) (begun : spelling.inside text more)
        (open? : char ≠ quote) (plain : char ≠ '\\') :
        Reads (fun x y => Within spelling (inside quote) .outside
            (Inside spelling first second → copied = read → y.value = x.value) first x.rest y.rest)
          (Literal.readChars quote start read first) (Literal.readChars quote stop copied second) := by
      have after := both others begun
      rw [readChars_char start read rest open? plain, readChars_char stop copied others open? plain]
      refine .map (readChars_reads quotes start stop (char :: read) (char :: copied) after.beside) fun x y within => ?_
      exact (within.step here (step_inside open? plain)).mono fun alike _ same => alike.2 after (by rw [same])
    cases blank : isWhitespace char with
    | false =>
      obtain ⟨more, others, line⟩ := spelling.visible blank texts
      have after := both others line
      by_cases closes : char = quote
      · subst closes
        rw [readChars_closed start read rest, readChars_closed stop copied others]
        refine .ok (.char after.beside here fun found stepped => ?_)
        rw [(step_quote quotes).1] at stepped
        exact ⟨(Option.some.inj stepped).symm, after, fun _ same => congrArg List.reverse same⟩
      · by_cases escapes : char = '\\'
        · subst escapes
          have escaped : Escaped spelling first.advance second.advance := by
            unfold Escaped
            rwa [past, Reading.rest_advance, others, List.tail_cons, ← others]
          rw [readChars_escaped start read rest closes, readChars_escaped stop copied others closes]
          refine .bind (readEscape_reads quotes start stop escaped) fun x y escapes => ?_
          have := x.le
          have opens : ∀ found, (inside quote).step '\\' = some found → found = .escaped quote ∧ True := by
            intro found stepped
            rw [Quoting.step, if_neg (by decide), if_neg closes, if_pos rfl] at stepped
            exact ⟨(Option.some.inj stepped).symm, trivial⟩
          have entered : Within spelling (.escaped quote) (inside quote) (Inside spelling x.rest y.rest) first.advance
              x.rest y.rest := by
            obtain ⟨beside, more, further, ends⟩ := escapes.within
            exact ⟨beside, more, further, fun found scanned =>
              ⟨(ends found scanned).1, (ends found scanned).2.1, (ends found scanned).2.1⟩⟩
          refine .map (readChars_reads quotes start stop (x.value :: read) (y.value :: copied) escapes.within.beside)
            fun z w within => ?_
          refine ((entered.trans within).step here opens).mono ?_
          rintro ⟨-, inner, alike⟩ - same
          exact alike inner (by rw [escapes.value, same])
        · exact goesOn others line closes escapes
    | true =>
      obtain ⟨open?, plain⟩ := plain_of_blank quotes blank
      cases ends : isLineEnd char with
      | true =>
        obtain ⟨run, more, copies, others, whole, written, blanks, spaces, further⟩ := spelling.lineEnd ends texts
        have all : ∀ blank ∈ char :: run, isWhitespace blank = true := List.forall_mem_cons.mpr ⟨blank, blanks⟩
        have front : first.rest = (char :: run) ++ more := by rw [rest, whole]; rfl
        obtain ⟨reached, one⟩ := readChars_blanks start read quotes all front
        obtain ⟨follows, two⟩ := readChars_blanks stop copied quotes spaces written
        have after : (first.advanceBy (char :: run).length).rest = more := by
          rw [Reading.rest_advanceBy, front, List.drop_left]
        have later : Beside spelling (first.advanceBy (char :: run).length) (second.advanceBy copies.length) := by
          unfold Beside
          rwa [after, Reading.rest_advanceBy, written, List.drop_left]
        have : (first.advanceBy (char :: run).length).size < first.size := by
          rw [Input.size, Input.size, after, front, List.length_append, List.length_cons]
          omega
        rw [one, two]
        refine .map (readChars_reads quotes start stop _ _ later) fun x y within => ?_
        exact within.broken ends (by rw [after, rest, whole])
      | false =>
        by_cases begun : Inside spelling first second
        · have inside := begun
          unfold Inside at inside
          rw [rest] at inside
          obtain ⟨more, others, inside⟩ := spelling.within ends inside
          exact goesOn others inside open? plain
        · have spacing : isSpacing char = true := (Bool.or_eq_true_iff.mp blank).resolve_right (by rw [ends]; decide)
          obtain ⟨copies, others, written, spaces, -, further⟩ := spelling.spacing spacing texts
          have blanks : ∀ copy ∈ copies, isWhitespace copy = true := fun copy member =>
            Bool.or_eq_true_iff.mpr (.inl (spaces copy member))
          obtain ⟨follows, two⟩ := readChars_blanks stop copied quotes blanks written
          have later : Beside spelling first.advance (second.advanceBy copies.length) := by
            unfold Beside
            rwa [past, Reading.rest_advanceBy, written, List.drop_left]
          rw [readChars_char start read rest open? plain, two]
          refine .map (readChars_reads quotes start stop (char :: read) (copies.reverse ++ copied) later)
            fun x y within => ?_
          exact (within.step here (step_inside open? plain)).mono fun _ inside => absurd inside begun
termination_by first.size

theorem readString_reads {quote : Char} (quotes : isQuote quote = true) {text : List Char}
    (rest : first.rest = quote :: text) (beside : Beside spelling first second) :
    Reads (fun x y => Leads spelling first x.rest y.rest (y.value = x.value))
      (Literal.readString first quote) (Literal.readString second quote) := by
  have found : first.isAt quote = true := (Reading.isClass_eq rest _).trans (beq_self_eq_true quote)
  have after := beside.enter (solid_of_visible (step_quote quotes).2) found
  have chars := readChars_reads quotes first.pos second.pos [] [] after.beside
  have here : first.rest = quote :: first.advance.rest := by rw [Reading.rest_advance, rest, List.tail_cons]
  unfold Literal.readString
  refine .bind chars fun x y within => .ok ?_
  exact (within.leads quotes here).mono fun alike => congrArg String.ofList (alike after rfl)

/-! Numbers. -/

/-- The same is found in both texts, with nothing quoted in it. -/
structure Gives {α : Type} (spelling : Spelling) (start : Input) (x y : α × Input) : Prop where
  value : y.1 = x.1
  beside : Beside spelling x.2 y.2
  clear : Clear start x.2

theorem readFraction_gives (beside : Beside spelling first second) :
    Gives spelling first (Literal.readFraction first) (Literal.readFraction second) := by
  unfold Literal.readFraction
  rw [beside.isAt rfl]
  cases point : first.isAt '.' with
  | false => exact ⟨rfl, beside, .refl first⟩
  | true =>
    have after := beside.advance_isAt point rfl
    rw [isClassAt_eq, isClassAt_eq]
    change Gives spelling first (if (true && first.advance.isClass isDigit) = true then _ else _)
      (if (true && second.advance.isClass isDigit) = true then _ else _)
    rw [after.isClass ⟨rfl, rfl⟩, after.takeWhile ⟨rfl, rfl, rfl, rfl⟩]
    split
    · exact ⟨rfl, after.dropWhile ⟨rfl, rfl, rfl⟩, (Clear.advance_isAt point rfl).trans (.dropWhile rfl rfl _)⟩
    · exact ⟨rfl, beside, .refl first⟩

theorem isClass_of_isAt {input : Input} {one two : Char} (found : (input.isAt one || input.isAt two) = true) :
    input.isClass (fun char => char == one || char == two) = true := by
  unfold Input.isAt Input.isClass at found
  unfold Input.isClass
  generalize input.rest = text at found
  cases text with
  | nil => cases found
  | cons char text => exact found

theorem readExponent_gives (beside : Beside spelling first second) :
    Gives spelling first (Literal.readExponent first) (Literal.readExponent second) := by
  have one (class? : Char → Bool) (input : Input) : input.isClassAt class? 1 = input.advance.isClass class? :=
    isClassAt_eq class? 1 input
  unfold Literal.readExponent
  rw [beside.isAt rfl, beside.isAt rfl]
  split
  · rename_i mark
    have marked := isClass_of_isAt mark
    have after : Beside spelling first.advance second.advance := beside.advance ⟨rfl, rfl, rfl, rfl⟩ marked
    have clear : Clear first first.advance := .advance marked rfl rfl
    dsimp only
    rw [one, one, one, one, after.isClass ⟨rfl, rfl⟩, after.isClass ⟨rfl, rfl⟩]
    have digits {input other : Input} (value : Bool) (beside : Beside spelling input other)
        (clear : Clear first input) : Gives spelling first
          (if input.isClass isDigit = true then (some (value, input.takeWhile isDigit), input.dropWhile isDigit)
            else (none, first))
          (if other.isClass isDigit = true then (some (value, other.takeWhile isDigit), other.dropWhile isDigit)
            else (none, second)) := by
      rw [beside.isClass ⟨rfl, rfl⟩, beside.takeWhile ⟨rfl, rfl, rfl, rfl⟩]
      split
      · exact ⟨rfl, beside.dropWhile ⟨rfl, rfl, rfl⟩, clear.trans (.dropWhile rfl rfl _)⟩
      · exact ⟨rfl, ‹_›, .refl first⟩
    cases signed : first.advance.isClass fun char => char == '+' || char == '-' with
    | true => exact digits _ (after.advance ⟨rfl, rfl, rfl, rfl⟩ signed) (clear.trans (.advance signed rfl rfl))
    | false => exact digits _ after clear
  · exact ⟨rfl, beside, .refl first⟩

theorem readNumber_gives (beside : Beside spelling first second) :
    Gives spelling first ((Literal.readNumber first).value, (Literal.readNumber first).rest)
      ((Literal.readNumber second).value, (Literal.readNumber second).rest) := by
  have digits : Beside spelling (first.dropWhile isDigit) (second.dropWhile isDigit) := beside.dropWhile ⟨rfl, rfl, rfl⟩
  have fraction := readFraction_gives digits
  have exponent := readExponent_gives fraction.beside
  refine ⟨?_, exponent.beside, (Clear.dropWhile rfl rfl first).trans (fraction.clear.trans exponent.clear)⟩
  unfold Literal.readNumber
  dsimp only
  rw [fraction.value, exponent.value, beside.takeWhile ⟨rfl, rfl, rfl, rfl⟩]

end HtmlTemplate.Respelling
