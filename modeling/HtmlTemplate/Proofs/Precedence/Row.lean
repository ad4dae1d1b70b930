import HtmlTemplate.Expr.Literal
import HtmlTemplate.Proofs.Reading.Basic

/-! Rows of operands and operators as they are written, and the trees that precedence
climbing makes of them. A row is written with one space between any two of its parts. -/

namespace HtmlTemplate.Precedence

/-- A nonempty word of name characters, as it stands after a dot. -/
structure Word where
  chars : List Char
  nonempty : chars ≠ []
  named : ∀ char ∈ chars, CharClass.isIdent char = true

/-- A word that is read as a name where an operand may begin. -/
structure Name extends Word where
  start : ∀ char ∈ chars.head?, CharClass.isDigit char = false
  plain : chars ∉ ["true", "false", "null", "inf", "nan", "var"].map String.toList

/-- A nonempty run of digits. -/
structure Digits where
  chars : List Char
  nonempty : chars ≠ []
  digits : ∀ char ∈ chars, CharClass.isDigit char = true

/-- The exponent of a number: its mark, its sign if it has one, and its digits. -/
structure Exponent where
  mark : Char
  sign : Option Char
  digits : Digits
  marked : mark = 'e' ∨ mark = 'E'
  signed : ∀ char ∈ sign, char = '+' ∨ char = '-'

structure Number where
  whole : Digits
  fraction : Option Digits
  exponent : Option Exponent

namespace Exponent

def chars (exponent : Exponent) : List Char :=
  exponent.mark :: exponent.sign.toList ++ exponent.digits.chars

end Exponent

namespace Number

def fractionChars (number : Number) : List Char :=
  (number.fraction.map fun digits => '.' :: digits.chars).getD []

def exponentChars (number : Number) : List Char := (number.exponent.map Exponent.chars).getD []

def chars (number : Number) : List Char :=
  number.whole.chars ++ number.fractionChars ++ number.exponentChars

def value (number : Number) : Value :=
  Literal.numberValue number.whole.chars (number.fraction.map Digits.chars)
    (number.exponent.map fun exponent =>
      (exponent.sign == some '-', exponent.digits.chars))

end Number

/-- The operators in front of an operand. -/
def leadingOps : List Op := [.negate, .not, .complement, .preIncrement, .preDecrement]

/-- The operators that stand after an operand alone. -/
def trailingOps : List Op := [.postIncrement, .postDecrement]

/-- The operators between two operands. -/
def betweenOps : List Op :=
  [.multiply, .divide, .remainder, .add, .subtract, .shiftLeft, .shiftRight, .less, .lessEq,
    .greater, .greaterEq, .equal, .notEqual, .bitAnd, .bitXor, .bitOr, .and, .or, .assign,
    .addAssign, .subtractAssign, .multiplyAssign, .divideAssign, .remainderAssign,
    .shiftLeftAssign, .shiftRightAssign, .andAssign, .xorAssign, .orAssign, .colon, .comma,
    .sequence]

abbrev Leading := { op : Op // op ∈ leadingOps }

abbrev Trailing := { op : Op // op ∈ trailingOps }

/-- An operator between two operands; a colon only where `colons` allows it. -/
structure Between (colons : Bool) where
  op : Op
  member : op ∈ betweenOps
  allowed : op = .colon → colons = true

mutual

/-- Operands with operators between them. Between the marks of a ternary the row itself has
no colons. -/
inductive Row : Bool → Type where
  | mk {colons : Bool} (first : Operand) (links : Links colons) : Row colons

/-- The operators of a row after its first operand, each with the operand that follows. -/
inductive Links : Bool → Type where
  | none {colons : Bool} : Links colons
  | between {colons : Bool} (op : Between colons) (operand : Operand) (rest : Links colons) :
    Links colons
  | ternary {colons : Bool} (chosen : Row false) (otherwise : Operand) (rest : Links colons) :
    Links colons

inductive Operand : Type where
  | number (leading : List Leading) (number : Number)
  | name (leading : List Leading) (name : Name) (accesses : Accesses)

/-- What follows a name and belongs to it. -/
inductive Accesses : Type where
  | none
  | member (name : Word) (rest : Accesses)
  | call (arguments : Row true) (rest : Accesses)
  | callEmpty (rest : Accesses)
  | subscript (key : Row true) (rest : Accesses)
  | step (op : Trailing) (rest : Accesses)

end

/-! How rows are written. -/

def symbolChars (op : Op) : List Char := op.symbol.toList

mutual

/-- The parts of a row between which the spaces stand. -/
def Row.parts {colons : Bool} : Row colons → List (List Char)
  | .mk first links => first.parts ++ links.parts

def Links.parts {colons : Bool} : Links colons → List (List Char)
  | .none => []
  | .between op operand rest => symbolChars op.op :: operand.parts ++ rest.parts
  | .ternary chosen otherwise rest =>
    ['?'] :: chosen.parts ++ [':'] :: otherwise.parts ++ rest.parts

def Operand.parts : Operand → List (List Char)
  | .number leading number => leading.map (symbolChars ·.val) ++ [number.chars]
  | .name leading name accesses =>
    leading.map (symbolChars ·.val) ++ name.chars :: accesses.parts

def Accesses.parts : Accesses → List (List Char)
  | .none => []
  | .member name rest => ['.'] :: name.chars :: rest.parts
  | .call arguments rest => ['('] :: arguments.parts ++ [')'] :: rest.parts
  | .callEmpty rest => ['('] :: [')'] :: rest.parts
  | .subscript key rest => ['['] :: key.parts ++ [']'] :: rest.parts
  | .step op rest => symbolChars op.val :: rest.parts

end

/-- The text of a row. -/
def Row.text {colons : Bool} (row : Row colons) : List Char := [' '].intercalate row.parts

/-! The trees of rows. -/

/-- What joins two operands: an operator, or a ternary with its first branch. -/
inductive Link where
  | between (op : Op)
  | ternary (chosen : Expr)

namespace Link

/-- The operator whose strength counts. -/
def op : Link → Op
  | between op => op
  | ternary _ => .alternative

def join : Link → Expr → Expr → Expr
  | between op, left, right => .binary op left right
  | ternary chosen, left, right =>
    .binary .alternative (.binary .condition left (.bracketed .round chosen)) right

/-- Assignments and ternaries group to the right, all other links to the left. -/
def groupsRight (link : Link) : Bool := link.op.isAssignment || link.op == .alternative

/-- How weak an operator in the right side of a link may be. -/
def rightLimit (link : Link) : Nat :=
  if link.groupsRight then link.op.priority else link.op.priority - 1

end Link

/-- Precedence climbing. Joins to an operand what follows it, as long as the operators are no
weaker than the limit; the right side of each is read first, with the limit of its own. Gives
the tree and what has not been joined. -/
def climb (limit : Nat) (left : Expr) (rest : List (Link × Expr)) :
    Expr × { after : List (Link × Expr) // after.length ≤ rest.length } :=
  match rest with
  | [] => (left, ⟨[], Nat.le_refl _⟩)
  | (link, operand) :: more =>
    if link.op.priority ≤ limit then
      let (right, ⟨after, shorter⟩) := climb link.rightLimit operand more
      let (tree, ⟨last, shortest⟩) := climb limit (link.join left right) after
      (tree, ⟨last, by simp only [List.length_cons]; omega⟩)
    else (left, ⟨(link, operand) :: more, Nat.le_refl _⟩)
termination_by rest.length
decreasing_by all_goals simp only [List.length_cons]; omega

/-- The limit that every operator keeps. -/
def weakest : Nat := Op.sequence.priority

def leadingTree (leading : List Leading) (tree : Expr) : Expr :=
  leading.foldr (fun op tree => .unary op.val tree) tree

mutual

/-- The tree of a row by precedence climbing. -/
def Row.tree {colons : Bool} : Row colons → Expr
  | .mk first links => (climb weakest first.tree links.joined).1

def Links.joined {colons : Bool} : Links colons → List (Link × Expr)
  | .none => []
  | .between op operand rest => (.between op.op, operand.tree) :: rest.joined
  | .ternary chosen otherwise rest => (.ternary chosen.tree, otherwise.tree) :: rest.joined

/-- Leading operators apply to a name after everything that follows the name. -/
def Operand.tree : Operand → Expr
  | .number leading number => leadingTree leading (.literal number.value)
  | .name leading name accesses =>
    leadingTree leading (accesses.tree (.name (String.ofList name.chars)))

def Accesses.tree (base : Expr) : Accesses → Expr
  | .none => base
  | .member name rest =>
    rest.tree (.binary .member base (.name (String.ofList name.chars)))
  | .call arguments rest => rest.tree (.binary .call base (.bracketed .round arguments.tree))
  | .callEmpty rest => rest.tree (.binary .call base (.bracketed .round .noArguments))
  | .subscript key rest => rest.tree (.binary .subscript base (.bracketed .square key.tree))
  | .step op rest => rest.tree (.unary op.val base)

end

/-! Reading the parts of a row one at a time: spaces, operators, numbers and names. -/

open HtmlTemplate.Reading

/-- Parts with a space in front of each. -/
def spaced : List (List Char) → List Char
  | [] => []
  | part :: parts => ' ' :: part ++ spaced parts

/-- Parts with a space between any two of them. -/
def joined : List (List Char) → List Char
  | [] => []
  | part :: parts => part ++ spaced parts

theorem spaced_eq {parts : List (List Char)} (nonempty : parts ≠ []) :
    spaced parts = ' ' :: joined parts := by
  cases parts with
  | nil => exact absurd rfl nonempty
  | cons part parts => rfl

theorem intercalate_eq (parts : List (List Char)) : [' '].intercalate parts = joined parts := by
  induction parts with
  | nil => rfl
  | cons part parts step =>
    cases parts with
    | nil => simp [joined, spaced]
    | cons next parts =>
      rw [List.intercalate_cons_cons, step]
      simp [joined, spaced]

/-! Operators. -/

/-- The operators that are read after an operand, and how their first mark is written. -/
def marks : List (List Char × Op) :=
  (trailingOps ++ betweenOps).map (fun op => (symbolChars op, op)) ++
    [(['.'], .member), (['('], .call), (['['], .subscript), (['?'], .condition)]

/-- How an operator begins: visibly, and not as a closing mark unless it is the colon. -/
def Opens (chars : List Char) (op : Op) : Prop :=
  ∃ char more, chars = char :: more ∧ CharClass.isWhitespace char = false ∧ char ≠ ')' ∧
    char ≠ ']' ∧ (char = ':' → op = .colon)

theorem opens_mark {chars : List Char} {op : Op} (member : (chars, op) ∈ marks) :
    Opens chars op := by
  generalize eq : (chars, op) = mark at member
  fin_cases member <;> cases eq <;>
    exact ⟨_, _, rfl, by decide, by decide, by decide, by decide⟩

/-- An operator is recognised before a space and at the end. -/
theorem read_mark {chars : List Char} {op : Op} (member : (chars, op) ∈ marks) (enclosed : Bool)
    {input : Input} {parts : List (List Char)} (rest : input.rest = chars ++ spaced parts) :
    ∃ next, OperatorReading.read .unbounded enclosed input = .ok (some (op, next)) ∧
      next.rest = spaced parts := by
  obtain ⟨pos, text⟩ := input
  obtain rfl : text = chars ++ spaced parts := rest
  generalize eq : (chars, op) = mark at member
  fin_cases member <;> cases eq <;> cases parts <;> cases enclosed <;> exact ⟨_, rfl, rfl⟩

theorem read_leading (op : Leading) {input : Input} {parts : List (List Char)}
    (rest : input.rest = symbolChars op.val ++ spaced parts) :
    ∃ next, OperatorReading.readLeading .unbounded input = .ok (some (some op.val, next)) ∧
      next.rest = spaced parts := by
  obtain ⟨pos, text⟩ := input
  obtain rfl : text = symbolChars op.val ++ spaced parts := rest
  obtain ⟨op, member⟩ := op
  fin_cases member <;> cases parts <;> exact ⟨_, rfl, rfl⟩

/-! Names and numbers. -/

/-- What may follow a part: a space or the end. -/
theorem head?_spaced (parts : List (List Char)) : ∀ char ∈ (spaced parts).head?, char = ' ' := by
  intro char found
  cases parts with
  | nil => cases found
  | cons part parts =>
    cases found
    rfl

theorem outside_spaced {class? : Char → Bool} (excluded : class? ' ' = false)
    (parts : List (List Char)) : ∀ char ∈ (spaced parts).head?, class? char = false := by
  intro char found
  rw [head?_spaced parts char found]
  exact excluded

theorem Word.visible (word : Word) : Visible word.chars := by
  obtain ⟨char, more, eq⟩ := List.exists_cons_of_ne_nil word.nonempty
  have named := word.named char (by rw [eq]; exact List.mem_cons_self ..)
  rw [eq]
  exact not_isWhitespace named

theorem readWord_spaced (word : Word) {input : Input} {parts : List (List Char)}
    (rest : input.rest = word.chars ++ spaced parts) :
    (Literal.readWord input).value = String.ofList word.chars ∧
      (Literal.readWord input).rest.rest = spaced parts := by
  have outside : ∀ char ∈ (spaced parts).head?, CharClass.isIdent char = false :=
    outside_spaced rfl parts
  constructor
  · change String.ofList (input.rest.takeWhile _) = _
    rw [rest, takeWhile_append word.named outside]
  · change (input.dropWhile _).rest = _
    rw [Input.rest_dropWhile, rest, dropWhile_append word.named outside]

theorem Word.ofList_ne (word : Word) : String.ofList word.chars ≠ "" := by
  intro eq
  apply word.nonempty
  have := congrArg String.toList eq
  simpa using this

theorem finds_readName (word : Word) (parts : List (List Char)) :
    Finds Parser.readName (word.chars ++ spaced parts) (.name (String.ofList word.chars))
      (spaced parts) := by
  intro input rest
  obtain ⟨value, after⟩ := readWord_spaced word rest
  refine ⟨(Literal.readWord input).map .name, ?_, ?_, after⟩
  · simp only [Parser.readName, value, word.ofList_ne, if_false]
  · simp only [Parsed.map, value]

theorem wordExpr_name (name : Name) :
    Literal.wordExpr (String.ofList name.chars) = .name (String.ofList name.chars) := by
  have plain : ∀ word ∈ ["true", "false", "null", "inf", "nan", "var"],
      String.ofList name.chars ≠ word := by
    intro word member eq
    apply name.plain
    rw [List.mem_map]
    exact ⟨word, member, by rw [← eq]; simp⟩
  simp [Literal.wordExpr, plain "true" (by simp), plain "false" (by simp), plain "null" (by simp),
    plain "inf" (by simp), plain "nan" (by simp)]

theorem no_declaration (name : Name) {input : Input} {parts : List (List Char)}
    (rest : input.rest = name.chars ++ spaced parts) :
    (input.startsWith ['v', 'a', 'r'] && input.isClassAt CharClass.isSpacing 3) = false := by
  by_contra declared
  simp only [Bool.not_eq_false, Bool.and_eq_true] at declared
  obtain ⟨starts, spacing⟩ := declared
  obtain ⟨more, text⟩ := List.isPrefixOf_iff_prefix.mp starts
  -- The name ends at the spacing, so it would be the keyword itself.
  have word : input.rest.takeWhile CharClass.isIdent = name.chars := by
    rw [rest, takeWhile_append name.named (outside_spaced rfl parts)]
  rw [← text] at word
  simp only [Input.isClassAt, Input.peek?, ← text] at spacing
  cases more with
  | nil => cases spacing
  | cons char more =>
    have spacing : CharClass.isSpacing char = true := spacing
    have outside : CharClass.isIdent char = false := by
      simp only [CharClass.isSpacing, Bool.or_eq_true, beq_iff_eq] at spacing
      rcases spacing with rfl | rfl <;> rfl
    have keyword : "var".toList = name.chars := by
      rw [← word]
      simp [List.takeWhile, outside, show CharClass.isIdent 'v' = true from rfl,
        show CharClass.isIdent 'a' = true from rfl, show CharClass.isIdent 'r' = true from rfl]
    apply name.plain
    rw [← keyword]
    decide

theorem finds_name (op : Op) (name : Name) (parts : List (List Char)) :
    Finds (Parser.readLed .unbounded op) (name.chars ++ spaced parts)
      (.name (String.ofList name.chars)) (spaced parts) := by
  intro input rest
  obtain ⟨char, more, eq⟩ := List.exists_cons_of_ne_nil name.nonempty
  have named : CharClass.isIdent char = true := name.named char (by rw [eq]; simp)
  have digit : CharClass.isDigit char = false := name.start char (by rw [eq]; rfl)
  obtain ⟨plain, quote, mark, opening⟩ := plain_of_isIdent named
  have begins : input.rest = char :: (more ++ spaced parts) := by rw [rest, eq]; rfl
  obtain ⟨value, after⟩ := readWord_spaced name.toWord rest
  refine ⟨(Literal.readWord input).map Literal.wordExpr, ?_, ?_, after⟩
  · rw [readLed_plain begins plain (no_declaration name rest) op opening, Parser.readValue]
    simp [begins, quote, mark, digit, value, name.ofList_ne]
  · simp only [Parsed.map, value, wordExpr_name]

/-! Numbers. -/

/-- A fraction is read up to its last digit, and none where there is no point. -/
theorem readFraction_eq (fraction : Option Digits) {input : Input} {after : List Char}
    (ends : Undigited after) (noPoint : ∀ char ∈ after.head?, char ≠ '.')
    (rest : input.rest = (fraction.map fun digits => '.' :: digits.chars).getD [] ++ after) :
    (Literal.readFraction input).1 = fraction.map Digits.chars ∧
      (Literal.readFraction input).2.rest = after := by
  cases fraction with
  | none =>
    have rest : input.rest = after := rest
    have noPoint : input.isAt '.' = false := by
      cases after with
      | nil => simp [Input.isAt, Input.isClass, rest]
      | cons char after => simp [Input.isAt, Input.isClass, rest, noPoint char rfl]
    simp [Literal.readFraction, noPoint, rest]
  | some digits =>
    have rest : input.rest = '.' :: (digits.chars ++ after) := rest
    have point : input.isAt '.' = true := by simp [Input.isAt, Input.isClass, rest]
    have advanced : input.advance.rest = digits.chars ++ after := by rw [rest_advance, rest]; rfl
    have digit : input.isClassAt CharClass.isDigit 1 = true := by
      obtain ⟨char, more, eq⟩ := List.exists_cons_of_ne_nil digits.nonempty
      have := digits.digits char (by rw [eq]; simp)
      simp [isClassAt_eq, rest, eq, this]
    simp only [Literal.readFraction, point, digit, Bool.and_self, if_true, Option.map_some,
      Option.some.injEq]
    constructor
    · rw [Input.takeWhile, advanced, takeWhile_append digits.digits ends]
    · rw [Input.rest_dropWhile, advanced, dropWhile_append digits.digits ends]

/-- Sign and digits of an exponent, as the reader hands them on. -/
def Exponent.read (exponent : Exponent) : Bool × List Char :=
  (exponent.sign == some '-', exponent.digits.chars)

theorem Digits.first (digits : Digits) :
    ∃ char more, digits.chars = char :: more ∧ CharClass.isDigit char = true := by
  obtain ⟨char, more, eq⟩ := List.exists_cons_of_ne_nil digits.nonempty
  exact ⟨char, more, eq, digits.digits char (by rw [eq]; simp)⟩

theorem Exponent.isSome_read (exponent : Exponent) {input : Input} {after : List Char}
    (ends : Undigited after) (rest : input.rest = exponent.chars ++ after) :
    (Literal.readExponent input).1 = some exponent.read ∧
      (Literal.readExponent input).2.rest = after := by
  obtain ⟨mark, sign, digits, marked, signed⟩ := exponent
  obtain ⟨char, more, eq, digit⟩ := digits.first
  have begins : (input.isAt 'e' || input.isAt 'E') = true := by
    rcases marked with rfl | rfl <;> simp [Input.isAt, Input.isClass, rest, Exponent.chars]
  have unsigned : (char == '+' || char == '-') = false := by
    by_contra sign
    simp only [Bool.not_eq_false, Bool.or_eq_true, beq_iff_eq] at sign
    rcases sign with rfl | rfl <;> cases digit
  have minus : (char == '-') = false := by
    rw [Bool.or_eq_false_iff] at unsigned
    exact unsigned.2
  -- The digits start after the mark and the sign, if there is one.
  have behind : (input.advanceBy
      (if input.isClassAt (fun char => char == '+' || char == '-') 1 then 2 else 1)).rest =
        digits.chars ++ after := by
    rw [rest_advanceBy, isClassAt_eq, rest]
    cases sign with
    | none => simp [Exponent.chars, eq, unsigned]
    | some sign =>
      rcases signed sign rfl with rfl | rfl <;> simp [Exponent.chars]
  have negative : input.isClassAt (· == '-') 1 = (sign == some '-') := by
    rw [isClassAt_eq, rest]
    cases sign with
    | none => simp [Exponent.chars, eq, minus]
    | some sign => rcases signed sign rfl with rfl | rfl <;> simp [Exponent.chars]
  have counted : (input.advanceBy
      (if input.isClassAt (fun char => char == '+' || char == '-') 1 then 2 else 1)).isClass
        CharClass.isDigit = true := by
    have begins := behind
    rw [eq, List.cons_append] at begins
    rw [isClass_eq begins, digit]
  unfold Literal.readExponent
  simp only [begins, if_true, counted, negative, Exponent.read]
  constructor
  · rw [Input.takeWhile, behind, takeWhile_append digits.digits ends]
  · rw [Input.rest_dropWhile, behind, dropWhile_append digits.digits ends]

theorem readExponent_eq (exponent : Option Exponent) {input : Input} {parts : List (List Char)}
    (rest : input.rest = (exponent.map Exponent.chars).getD [] ++ spaced parts) :
    (Literal.readExponent input).1 = exponent.map Exponent.read ∧
      (Literal.readExponent input).2.rest = spaced parts := by
  cases exponent with
  | none =>
    have rest : input.rest = spaced parts := rest
    have noMark : (input.isAt 'e' || input.isAt 'E') = false := by
      cases parts with
      | nil => simp [Input.isAt, Input.isClass, rest, spaced]
      | cons part parts => simp [Input.isAt, Input.isClass, rest, spaced]
    simp [Literal.readExponent, noMark, rest]
  | some exponent => exact exponent.isSome_read (outside_spaced rfl parts) rest

theorem Exponent.undigited (exponent : Option Exponent) (parts : List (List Char)) :
    Undigited ((exponent.map Exponent.chars).getD [] ++ spaced parts) ∧
      ∀ char ∈ ((exponent.map Exponent.chars).getD [] ++ spaced parts).head?, char ≠ '.' := by
  cases exponent with
  | none =>
    refine ⟨outside_spaced rfl parts, ?_⟩
    rintro char found rfl
    cases head?_spaced parts '.' found
  | some exponent =>
    obtain ⟨mark, sign, digits, rfl | rfl, signed⟩ := exponent
    all_goals
      constructor <;> rintro char ⟨⟩
      · rfl
      · simp

theorem Number.undigited (number : Number) (parts : List (List Char)) :
    Undigited (number.fractionChars ++ (number.exponentChars ++ spaced parts)) := by
  unfold Number.fractionChars
  cases number.fraction with
  | none => exact (Exponent.undigited number.exponent parts).1
  | some digits =>
    rintro char ⟨⟩
    rfl

theorem finds_number (op : Op) (number : Number) (parts : List (List Char)) :
    Finds (Parser.readLed .unbounded op) (number.chars ++ spaced parts) (.literal number.value)
      (spaced parts) := by
  intro input rest
  obtain ⟨char, more, eq, digit⟩ := number.whole.first
  have named := isIdent_of_isDigit digit
  obtain ⟨plain, quote, mark, opening⟩ := plain_of_isIdent named
  have whole : input.rest =
      number.whole.chars ++ (number.fractionChars ++ (number.exponentChars ++ spaced parts)) := by
    rw [rest, Number.chars]
    simp only [List.append_assoc]
  have ends := number.undigited parts
  have begins : input.rest =
      char :: (more ++ (number.fractionChars ++ (number.exponentChars ++ spaced parts))) := by
    rw [whole, eq]
    rfl
  have noDeclaration := not_declared begins (by
    rintro rfl
    cases digit)
  obtain ⟨undigited, noPoint⟩ := Exponent.undigited number.exponent parts
  have behind : (input.dropWhile CharClass.isDigit).rest =
      number.fractionChars ++ (number.exponentChars ++ spaced parts) := by
    rw [Input.rest_dropWhile, whole, dropWhile_append number.whole.digits ends]
  have fraction := readFraction_eq number.fraction undigited noPoint behind
  have exponent := readExponent_eq number.exponent fraction.2
  refine ⟨(Literal.readNumber input).map .literal, ?_, ?_, exponent.2⟩
  · rw [readLed_plain begins plain noDeclaration op opening, Parser.readValue]
    simp [begins, quote, mark, digit]
  · have taken : input.takeWhile CharClass.isDigit = number.whole.chars := by
      rw [Input.takeWhile, whole, takeWhile_append number.whole.digits ends]
    simp only [Parsed.map, Literal.readNumber, taken, fraction.1, exponent.1]
    rfl

end HtmlTemplate.Precedence
