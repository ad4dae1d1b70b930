import Mathlib.Algebra.Group.Nat.Defs
import HtmlTemplate.Proofs.Reading.Basic

/-! The scalars of JSON as operands of expressions: strings with their escapes, whole numbers and
words. Each is read to its end, whatever may follow a value in a JSON text. -/

namespace HtmlTemplate.JsonText

open HtmlTemplate.Reading HtmlTemplate.Parser

/-- What may follow a value: the end, a separator or a closing bracket. -/
def Follows (rest : List Char) : Prop := ∀ char ∈ rest.head?, char ∈ [',', ':', ']', '}']

/-- None of what may follow is in a class that has none of the four marks. -/
theorem Follows.outside {rest : List Char} (follows : Follows rest) {class? : Char → Bool}
    (excluded : [',', ':', ']', '}'].all (fun mark => !class? mark) = true) :
    ∀ char ∈ rest.head?, class? char = false := by
  intro char first
  have outside := List.all_eq_true.mp excluded char (follows char first)
  exact (Bool.not_eq_true' _).mp outside

/-! Strings. -/

theorem finds_quote (quote : Char) (start : Nat) (read rest : List Char) :
    Finds (Literal.readChars quote start read) (quote :: rest) read.reverse rest := by
  intro input text
  obtain ⟨pos, _⟩ := input
  subst text
  rw [Literal.readChars]
  simp only [if_true]
  exact ⟨_, rfl, rfl, rfl⟩

section

variable {start : Nat} {read more value rest : List Char} {char : Char}
  (found : Finds (Literal.readChars '"' start (char :: read)) more value rest)
include found

theorem finds_char (notQuote : char ≠ '"') (notEscape : char ≠ '\\') :
    Finds (Literal.readChars '"' start read) (char :: more) value rest := by
  intro input text
  obtain ⟨pos, _⟩ := input
  subst text
  obtain ⟨parsed, success, final, left⟩ := found ⟨pos + char.utf8Size, more⟩ rfl
  rw [Literal.readChars]
  simp only [notQuote, notEscape, if_false, success]
  exact ⟨_, rfl, final, left⟩

theorem finds_escape {text : List Char} (escape : Finds (Literal.readEscape start) text char more) :
    Finds (Literal.readChars '"' start read) ('\\' :: text) value rest := by
  intro input eq
  obtain ⟨pos, _⟩ := input
  subst eq
  obtain ⟨escaped, succeeds, rfl, behind⟩ := escape ⟨pos + '\\'.utf8Size, text⟩ rfl
  obtain ⟨parsed, success, final, left⟩ := found escaped.rest behind
  rw [Literal.readChars]
  simp only [Char.reduceEq, if_false, if_true, succeeds, bind, Except.bind, success]
  exact ⟨_, rfl, final, left⟩

end

/-- A letter after the backslash, but for the mark of a code. -/
theorem readEscape_letter (start : Nat) {letter : Char} (noCode : letter ≠ 'u')
    (more : List Char) :
    Finds (Literal.readEscape start) (letter :: more) (Literal.unescaped letter) more := by
  intro input text
  have behind : input.advance.rest = more := by
    rw [rest_advance, text]
    rfl
  rw [Literal.readEscape, text]
  simp only [noCode, if_false]
  exact ⟨_, rfl, rfl, behind⟩

/-- The digits of the code of a control character are read as that code. -/
theorem hexDigits_control : ∀ code < 0x20,
    ((Quoted.jsonCode code).drop 2).all CharClass.isHexDigit = true ∧
      ((Quoted.jsonCode code).drop 2).foldl
        (fun code digit => code * 16 + Literal.hexValue digit) 0 = code := by
  decide

/-- A code that is no half of a pair stands for its character. -/
theorem readCode_single {code : Nat} (single : ¬(0xD800 ≤ code ∧ code < 0xDC00))
    (valid : code.isValidChar) {input stop : Input} {reached : input.Reaches stop}
    (hex : Literal.readHex input = .ok ⟨code, stop, reached⟩) :
    Literal.readCode input = .ok ⟨Char.ofNat code, stop, reached⟩ := by
  have char : Literal.charOfCode code stop = .ok (.here stop (Char.ofNat code)) := if_pos valid
  rw [Literal.readCode, hex]
  change (if 0xD800 ≤ code ∧ code < 0xDC00 then _ else
    Literal.charOfCode code stop >>= fun char => pure (char.widen reached)) = _
  rw [if_neg single, char]
  rfl

theorem readEscape_code (start : Nat) {code : Nat} (control : code < 0x20) (more : List Char) :
    Finds (Literal.readEscape start) ('u' :: (Quoted.jsonCode code).drop 2 ++ more)
      (Char.ofNat code) more := by
  intro input text
  obtain ⟨hexadecimal, worth⟩ := hexDigits_control code control
  have digits : input.advance.rest.take 4 = (Quoted.jsonCode code).drop 2 := by
    rw [rest_advance, text]
    rfl
  have behind : (input.advance.advanceBy 4).rest = more := by
    rw [rest_advanceBy, rest_advance, text]
    rfl
  have hex : Literal.readHex input.advance =
      .ok ⟨code, input.advance.advanceBy 4, Input.reaches_advanceBy ..⟩ := by
    rw [Literal.readHex, digits, if_pos ⟨rfl, hexadecimal⟩]
    simp only [worth]
  have read := readCode_single (by omega) (by left; omega) hex
  rw [Literal.readEscape, text]
  simp only [List.cons_append, if_true, read]
  exact ⟨_, rfl, rfl, behind⟩

/-- Every character is read back from how it is written in a string. -/
theorem finds_jsonChar {start : Nat} {read more value rest : List Char} {char : Char}
    (found : Finds (Literal.readChars '"' start (char :: read)) more value rest) :
    Finds (Literal.readChars '"' start read) (Quoted.jsonChar char ++ more) value rest := by
  have letter : ∀ mark, mark ≠ 'u' → Literal.unescaped mark = char →
      Finds (Literal.readChars '"' start read) ('\\' :: mark :: more) value rest := by
    rintro mark noCode rfl
    exact finds_escape found (readEscape_letter start noCode more)
  simp only [Quoted.jsonChar, beq_iff_eq]
  split
  case isTrue quote => exact letter '"' (by decide) quote.symm
  split
  case isTrue backslash => exact letter '\\' (by decide) backslash.symm
  split
  case isTrue newline => exact letter 'n' (by decide) newline.symm
  split
  case isTrue carriage => exact letter 'r' (by decide) carriage.symm
  split
  case isTrue tab => exact letter 't' (by decide) tab.symm
  split
  case isTrue backspace => exact letter 'b' (by decide) backspace.symm
  split
  case isTrue feed => exact letter 'f' (by decide) feed.symm
  split
  case isTrue control =>
    have code := readEscape_code start control more
    rw [Char.ofNat_toNat] at code
    exact finds_escape found code
  case isFalse notQuote notEscape _ _ _ _ _ _ => exact finds_char found notQuote notEscape

theorem finds_jsonChars (start : Nat) (text read rest : List Char) :
    Finds (Literal.readChars '"' start read) (text.flatMap Quoted.jsonChar ++ '"' :: rest)
      (read.reverse ++ text) rest := by
  induction text generalizing read with
  | nil =>
    rw [List.append_nil]
    exact finds_quote '"' start read rest
  | cons char text step =>
    have found := step (char :: read)
    rw [List.reverse_cons, List.append_assoc, List.singleton_append] at found
    rw [List.flatMap_cons, List.append_assoc]
    exact finds_jsonChar found

theorem finds_text (options : ParseOptions) (op : Op) (content : String) (rest : List Char) :
    Finds (readLed options op) (Quoted.jsonChars content.toList ++ rest)
      (.literal (.text content)) rest := by
  intro input text
  have begins : input.rest = '"' :: (content.toList.flatMap Quoted.jsonChar ++ '"' :: rest) := by
    rw [text, Quoted.jsonChars, List.cons_append, List.append_assoc, List.singleton_append]
  obtain ⟨parsed, success, value, left⟩ :=
    finds_jsonChars input.pos content.toList [] rest input.advance (by rw [rest_advance, begins]; rfl)
  rw [readLed_plain begins (by decide) (not_declared begins (by decide)) op rfl, readValue, begins]
  simp only [true_or, if_true, Literal.readString, success, bind, Except.bind]
  refine ⟨_, rfl, ?_, left⟩
  simp only [Parsed.map, Parsed.widen, value, List.reverse_nil, List.nil_append,
    String.ofList_toList]

/-! Whole numbers. -/

theorem ofDigits_toDigits (number : Nat) : Decimal.ofDigits (Nat.toDigits 10 number) = number := by
  have same : Decimal.ofDigits (Nat.toDigits 10 number) =
      Nat.ofDigitChars 10 (Nat.toDigits 10 number) 0 := by
    rw [Decimal.ofDigits, Nat.ofDigitChars_eq_foldl]
    congr
    funext total digit
    rw [Nat.mul_comm]
  rw [same, Nat.ofDigitChars_ten_toDigits]

theorem isDigit_toDigits {number : Nat} {char : Char} (member : char ∈ Nat.toDigits 10 number) :
    CharClass.isDigit char = true := by
  have digit := Nat.isDigit_of_mem_toDigits (by decide) (by decide) member
  simpa [Char.isDigit, CharClass.isDigit, Char.le_def] using digit

theorem readNumber_whole {digits rest : List Char}
    (inside : ∀ char ∈ digits, CharClass.isDigit char = true) (follows : Follows rest)
    {input : Input} (text : input.rest = digits ++ rest) :
    (Literal.readNumber input).value = Literal.numberValue digits none none ∧
      (Literal.readNumber input).rest.rest = rest := by
  have taken : input.takeWhile CharClass.isDigit = digits := by
    rw [Input.takeWhile, text, takeWhile_append inside (follows.outside (by decide))]
  have behind : (input.dropWhile CharClass.isDigit).rest = rest := by
    rw [Input.rest_dropWhile, text, dropWhile_append inside (follows.outside (by decide))]
  have not_at : ∀ mark, mark ∉ [',', ':', ']', '}'] →
      (input.dropWhile CharClass.isDigit).isAt mark = false := by
    intro mark other
    simp only [Input.isAt, Input.isClass, behind]
    split
    · rfl
    · rename_i char more
      rw [beq_eq_false_iff_ne]
      rintro rfl
      exact other (follows char rfl)
  have noFraction : Literal.readFraction (input.dropWhile CharClass.isDigit) =
      (none, input.dropWhile CharClass.isDigit) := by
    simp [Literal.readFraction, not_at '.' (by decide)]
  have noExponent : Literal.readExponent (input.dropWhile CharClass.isDigit) =
      (none, input.dropWhile CharClass.isDigit) := by
    simp [Literal.readExponent, not_at 'e' (by decide), not_at 'E' (by decide)]
  simp [Literal.readNumber, noFraction, noExponent, taken, behind]

theorem toDigits_begins (number : Nat) :
    ∃ char more, Nat.toDigits 10 number = char :: more ∧ CharClass.isDigit char = true ∧
      Visible (Nat.toDigits 10 number) := by
  obtain ⟨char, more, eq⟩ := List.exists_cons_of_ne_nil (Nat.toDigits_ne_nil (n := number) (b := 10))
  have digit : CharClass.isDigit char = true := isDigit_toDigits (by rw [eq]; simp)
  refine ⟨char, more, eq, digit, ?_⟩
  rw [eq]
  exact not_isWhitespace (isIdent_of_isDigit digit)

theorem finds_digits (options : ParseOptions) (op : Op) {number : Nat}
    (small : number < 2 ^ 63) {rest : List Char} (follows : Follows rest) :
    Finds (readLed options op) (Nat.toDigits 10 number ++ rest)
      (.literal (.int (Int64.ofInt number))) rest := by
  intro input text
  obtain ⟨value, left⟩ := readNumber_whole (fun _ member => isDigit_toDigits member) follows text
  obtain ⟨char, more, eq, digit, -⟩ := toDigits_begins number
  obtain ⟨plain, quote, mark, opening⟩ := plain_of_isIdent (isIdent_of_isDigit digit)
  have begins : input.rest = char :: (more ++ rest) := by rw [text, eq]; rfl
  have noDeclaration := not_declared begins (by
    rintro rfl
    cases digit)
  have inRange : Decimal.toInt64? number = some (Int64.ofInt number) := by
    have lower : Int64.minValue.toInt ≤ number := by
      rw [Int64.toInt_minValue]
      omega
    have upper : (number : Int) ≤ Int64.maxValue.toInt := by
      rw [Int64.toInt_maxValue]
      omega
    rw [Decimal.toInt64?, if_pos ⟨lower, upper⟩]
  rw [readLed_plain begins plain noDeclaration op opening, readValue, begins]
  simp only [quote, mark, or_self, if_false, digit, if_true]
  refine ⟨_, rfl, ?_, left⟩
  simp [Parsed.map, value, Literal.numberValue, ofDigits_toDigits, inRange]

theorem readLeading_minus {options : ParseOptions}
    (allowed : options.operators.contains .negate = true) {input : Input} {char : Char}
    {text : List Char} (rest : input.rest = '-' :: char :: text) (single : char ≠ '-') :
    OperatorReading.readLeading options input = .ok (some (some .negate, input.advance)) := by
  have noDeclaration := not_declared rest (by decide)
  have at? : ∀ mark, mark ≠ '-' → input.isAt mark = false := by
    intro mark other
    simp [Input.isAt, isClass_eq rest, other.symm]
  have minus : input.isAt '-' = true := by simp [Input.isAt, isClass_eq rest]
  have noIncrement : input.startsWith ['+', '+'] = false := by
    simp [Input.startsWith, rest, List.isPrefixOf]
  have noDecrement : input.startsWith ['-', '-'] = false := by
    simp [Input.startsWith, rest, List.isPrefixOf, single.symm]
  simp [OperatorReading.readLeading, noDeclaration, noIncrement, noDecrement, minus,
    at? '!' (by decide), OperatorReading.check, allowed, Except.map]

/-- A minus sign in front of a number is an operator of its own. -/
theorem finds_negative {options : ParseOptions}
    (allowed : options.operators.contains .negate = true) (op : Op) {number : Nat}
    (small : number < 2 ^ 63) {rest : List Char} (follows : Follows rest) :
    Finds (readLed options op) ('-' :: (Nat.toDigits 10 number ++ rest))
      (.unary .negate (.literal (.int (Int64.ofInt number)))) rest := by
  intro input text
  obtain ⟨char, more, eq, digit, visible⟩ := toDigits_begins number
  have single : char ≠ '-' := by
    rintro rfl
    cases digit
  have recognised : OperatorReading.readLeading options input =
      .ok (some (some .negate, input.advance)) := by
    rw [eq, List.cons_append] at text
    exact readLeading_minus allowed text single
  have advanced : input.advance.rest = Nat.toDigits 10 number ++ rest := by
    rw [rest_advance, text]
    rfl
  obtain ⟨gapRest, goesOn⟩ := skip_visible options (visible.append rest) false (.inl advanced)
  obtain ⟨parsed, success, value, left⟩ := finds_digits options op small follows _ gapRest
  rw [readLed]
  split
  · rename_i error other
    rw [recognised] at other
    cases other
  · rename_i leading next found
    rw [recognised] at found
    cases found
    simp only [goesOn, Bool.not_true, Bool.false_eq_true, if_false, success]
    refine ⟨_, rfl, ?_, left⟩
    simp only [Parsed.widen, Parsed.map, value, lead]
  · rename_i other
    rw [recognised] at other
    cases other

/-! Words. -/

theorem finds_word (options : ParseOptions) (op : Op) {word rest : List Char}
    (known : word ∈ ["true".toList, "false".toList, "null".toList]) (follows : Follows rest) :
    Finds (readLed options op) (word ++ rest) (Literal.wordExpr (String.ofList word)) rest := by
  intro input text
  have shape : ∀ word ∈ ["true".toList, "false".toList, "null".toList],
      String.ofList word ≠ "" ∧ word.all CharClass.isIdent = true ∧
        ∃ char more, word = char :: more ∧ char ≠ 'v' ∧ CharClass.isDigit char = false := by
    intro word member
    fin_cases member <;> exact ⟨by decide, by decide, _, _, rfl, by decide, rfl⟩
  obtain ⟨filled, all, char, more, eq, other, noDigit⟩ := shape word known
  have named : ∀ char ∈ word, CharClass.isIdent char = true := List.all_eq_true.mp all
  obtain ⟨plain, quote, mark, opening⟩ := plain_of_isIdent (named char (by rw [eq]; simp))
  have begins : input.rest = char :: (more ++ rest) := by rw [text, eq]; rfl
  have taken : (Literal.readWord input).value = String.ofList word := by
    change String.ofList (input.rest.takeWhile _) = _
    rw [text, takeWhile_append named (follows.outside (by decide))]
  have behind : (Literal.readWord input).rest.rest = rest := by
    change (input.dropWhile _).rest = _
    rw [Input.rest_dropWhile, text, dropWhile_append named (follows.outside (by decide))]
  rw [readLed_plain begins plain (not_declared begins other) op opening, readValue, begins]
  simp only [quote, mark, or_self, if_false, noDigit, Bool.false_eq_true, taken, filled]
  refine ⟨_, rfl, ?_, behind⟩
  simp only [Parsed.map, taken]

end HtmlTemplate.JsonText
