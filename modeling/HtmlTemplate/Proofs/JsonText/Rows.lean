import HtmlTemplate.Proofs.Elements.Rows
import HtmlTemplate.Proofs.JsonText.Scalars

/-! The containers of JSON as operands of expressions. The parts between the brackets are read
one after the other, and each is joined by a comma to the row of those before it. -/

namespace HtmlTemplate.JsonText

open HtmlTemplate.Reading HtmlTemplate.Parser
open HtmlTemplate.Expr (container joined row)

/-- How a value begins: visibly, and like nothing that may follow one. -/
def Begins (text : List Char) : Prop :=
  ∃ char more, text = char :: more ∧ CharClass.isWhitespace char = false ∧
    char ∉ [',', ':', ']', '}']

theorem Begins.append {text : List Char} (begins : Begins text) (more : List Char) :
    Begins (text ++ more) := by
  obtain ⟨char, rest, rfl, visible, other⟩ := begins
  exact ⟨char, rest ++ more, rfl, visible, other⟩

theorem Begins.visible {text : List Char} (begins : Begins text) : Visible text := by
  obtain ⟨char, rest, rfl, visible, -⟩ := begins
  exact visible

theorem Begins.not_isAt {input : Input} (begins : Begins input.rest) {mark : Char}
    (follows : mark ∈ [',', ':', ']', '}']) : input.isAt mark = false := by
  obtain ⟨char, rest, text, -, other⟩ := begins
  rw [Input.isAt, isClass_eq text, beq_eq_false_iff_ne]
  rintro rfl
  exact other follows

/-- The operators that a value may be an operand of. -/
def TakesValue (op : Op) : Prop := op ≠ .member ∧ op ≠ .sharp ∧ op ≠ .scope

instance (op : Op) : Decidable (TakesValue op) :=
  inferInstanceAs (Decidable (op ≠ .member ∧ op ≠ .sharp ∧ op ≠ .scope))

/-- A text that is read as one operand, whatever it belongs to and whatever follows it. -/
structure Operand (text : List Char) (tree : Expr) : Prop where
  begins : Begins text
  led : ∀ op rest, Follows rest → Finds (readLed .inline op) (text ++ rest) tree rest

theorem Operand.read {text : List Char} {tree : Expr} (operand : Operand text tree) {op : Op}
    (takes : TakesValue op) {rest : List Char} (follows : Follows rest) :
    Finds (readOperand .inline op) (text ++ rest) tree rest := by
  intro input eq
  have visible := (operand.begins.append rest).visible
  obtain ⟨gapRest, goesOn⟩ := skip_visible .inline visible false (.inl eq)
  obtain ⟨parsed, success, value, left⟩ := operand.led op rest follows _ gapRest
  rw [readOperand]
  simp only [goesOn, Bool.not_true, Bool.false_eq_true, if_false, takes.1, takes.2.1, takes.2.2,
    or_false, success]
  exact ⟨_, rfl, value, left⟩

/-! Operands without brackets. -/

theorem operand_text (content : String) :
    Operand (Quoted.jsonChars content.toList) (.literal (.text content)) where
  begins := ⟨_, _, rfl, rfl, by decide⟩
  led op rest _ := finds_text .inline op content rest

theorem operand_digits {number : Nat} (small : number < 2 ^ 63) :
    Operand (Nat.toDigits 10 number) (.literal (.int (Int64.ofInt number))) where
  begins := by
    obtain ⟨char, more, eq, digit, -⟩ := toDigits_begins number
    refine ⟨char, more, eq, not_isWhitespace (isIdent_of_isDigit digit), ?_⟩
    intro mark
    fin_cases mark <;> cases digit
  led op _ follows := finds_digits .inline op small follows

theorem operand_negative {number : Nat} (small : number < 2 ^ 63) :
    Operand ('-' :: Nat.toDigits 10 number)
      (.unary .negate (.literal (.int (Int64.ofInt number)))) where
  begins := ⟨_, _, rfl, rfl, by decide⟩
  led op _ follows := finds_negative rfl op small follows

theorem operand_word {word : List Char}
    (known : word ∈ ["true".toList, "false".toList, "null".toList]) :
    Operand word (Literal.wordExpr (String.ofList word)) where
  begins := by
    fin_cases known <;> exact ⟨_, _, rfl, rfl, by decide⟩
  led op _ follows := finds_word .inline op known follows

/-! Reading. -/

/-- A part between two commas: an operand, and what completes it where it stands. -/
structure Part (close : Char) (text : List Char) (tree : Expr) : Prop where
  begins : Begins text
  single : tree.Single
  read : ∀ op, TakesValue op → ∀ rest, Follows rest → ∃ first middle,
    Finds (readOperand .inline op) (text ++ rest) first middle ∧
    ∀ row value left,
      Finds (readOperators .inline (some close) (joined row tree)) rest value left →
      Finds (readOperators .inline (some close) (joined row first)) middle value left

theorem Operand.part {text : List Char} {tree : Expr} (operand : Operand text tree)
    (single : tree.Single) (close : Char) : Part close text tree where
  begins := operand.begins
  single := single
  read _ takes rest follows :=
    ⟨tree, rest, operand.read takes follows, fun _ _ _ found => found⟩

section

variable {close : Char} (closes : close ∈ [']', '}'])
include closes

theorem follows_close (rest : List Char) : Follows (close :: rest) := by
  rintro char ⟨⟩
  fin_cases closes <;> decide

theorem finds_close (tree : Expr) (rest : List Char) :
    Finds (readOperators .inline (some close) tree) (close :: rest) tree (close :: rest) := by
  intro input text
  have visible : Visible (close :: rest) := by
    fin_cases closes <;> rfl
  obtain ⟨gapRest, goesOn⟩ := skip_visible .inline visible false (.inl text)
  rw [readOperators]
  simp only [Option.isNone_some, goesOn, Bool.not_true, Bool.false_eq_true, if_false,
    Option.any_some, Input.isAt, isClass_eq gapRest, beq_self_eq_true, if_true]
  exact ⟨_, rfl, rfl, gapRest⟩

end

theorem read_separator {mark : Char} {op : Op}
    (separates : (mark, op) ∈ [(',', Op.comma), (':', Op.colon)]) {text : List Char}
    (begins : Begins text) {input : Input} (rest : input.rest = mark :: text) :
    ∃ next, OperatorReading.read .inline true input = .ok (some (op, next)) ∧
      next.rest = text := by
  obtain ⟨char, more, rfl, -, other⟩ := begins
  have noScope : char ≠ ':' := by
    rintro rfl
    exact other (by decide)
  have advanced : input.advance.rest = char :: more := by rw [rest_advance, rest]; rfl
  generalize eq : (mark, op) = separator at separates
  fin_cases separates <;> cases eq
  all_goals
    have noSymbol : OperatorReading.readSymbol? input = none := by
      simp [OperatorReading.readSymbol?, OperatorReading.symbols, Input.eatWord?,
        Input.startsWith, rest, List.isPrefixOf, noScope.symm]
    rw [OperatorReading.read, noSymbol, rest]
    exact ⟨input.advance, rfl, advanced⟩

/-- A separator is read, and its right side is put into the tree. -/
theorem finds_separator {close : Char} (closes : close ∈ [']', '}']) {mark : Char} {op : Op}
    (separates : (mark, op) ∈ [(',', Op.comma), (':', Op.colon)]) {tree right value : Expr}
    {text middle rest : List Char} (begins : Begins text)
    (operand : Finds (readOperand .inline op) text right middle)
    (more : Finds (readOperators .inline (some close) (tree.insert op (some right))) middle value
      rest) :
    Finds (readOperators .inline (some close) tree) (mark :: text) value rest := by
  intro input eq
  have shape : CharClass.isWhitespace mark = false ∧ mark ≠ close ∧ op.isTrailing = false ∧
      Enclosure.ofOp? op = none := by
    generalize same : (mark, op) = separator at separates
    fin_cases separates <;> cases same <;> fin_cases closes <;> decide
  obtain ⟨visible, notClose, notTrailing, notEnclosed⟩ := shape
  obtain ⟨gapRest, goesOn⟩ :=
    skip_visible .inline (show Visible (mark :: text) from visible) false (.inl eq)
  obtain ⟨next, recognised, nextRest⟩ := read_separator separates begins gapRest
  obtain ⟨found, success, rightValue, left⟩ := operand next nextRest
  obtain ⟨parsed, read, final, finalRest⟩ := more found.rest left
  have applied : readApplied .inline tree op next =
      .ok (found.map fun right => tree.insert op (some right)) := by
    rw [readApplied]
    simp only [notTrailing, Bool.false_eq_true, if_false, notEnclosed, success]
    rfl
  unfold readOperators
  simp only [Option.isNone_some, goesOn, Bool.not_true, Bool.false_eq_true, if_false,
    Option.any_some, Input.isAt, isClass_eq gapRest, beq_eq_false_iff_ne.mpr notClose]
  split
  · rename_i error other
    rw [Option.isSome_some, recognised] at other
    cases other
  · rename_i other
    rw [Option.isSome_some, recognised] at other
    cases other
  · rename_i other later same
    rw [Option.isSome_some, recognised] at same
    cases same
    simp only [applied, bind, Except.bind, Parsed.map, rightValue, read]
    exact ⟨_, rfl, final, finalRest⟩

theorem single_entry (key value : Expr) : (Expr.binary .colon key value).Single :=
  show Op.priority .colon < Op.priority .comma by decide

/-- A value after a key and a colon is completed where the key stands, in front of it all the
parts before it. -/
theorem Operand.entry {text : List Char} {tree : Expr} (operand : Operand text tree)
    (key : String) {close : Char} (closes : close ∈ [']', '}']) :
    Part close (Quoted.jsonChars key.toList ++ ':' :: text)
      (.binary .colon (.literal (.text key)) tree) where
  begins := (operand_text key).begins.append _
  single := single_entry _ _
  read _ takes rest follows := by
    have colon : Follows (':' :: (text ++ rest)) := by
      rintro char ⟨⟩
      decide
    have takesColon : TakesValue .colon := by decide
    have separates : (':', Op.colon) ∈ [(',', Op.comma), (':', Op.colon)] := by decide
    refine ⟨.literal (.text key), ':' :: (text ++ rest), ?_, ?_⟩
    · rw [List.append_assoc, List.cons_append]
      exact (operand_text key).read takes colon
    · intro row value left found
      apply finds_separator closes separates (operand.begins.append rest)
        (operand.read takesColon follows)
      cases row with
      | none => exact found
      | some row => exact found

section

variable {α : Type} {text : α → List Char} {tree : α → Expr} {close : Char}

def commaParts (text : α → List Char) (parts : List α) : List Char :=
  parts.flatMap fun part => ',' :: text part

theorem intercalate_comma (first : α) (rest : List α) :
    [','].intercalate ((first :: rest).map text) = text first ++ commaParts text rest := by
  rw [List.map_cons, intercalate_cons, commaParts, List.flatMap_map]
  rfl

variable (closes : close ∈ [']', '}'])
include closes

theorem follows_comma (parts : List α) (rest : List Char) :
    Follows (commaParts text parts ++ close :: rest) := by
  cases parts with
  | nil => exact follows_close closes rest
  | cons part parts =>
    rintro char ⟨⟩
    decide

/-- Part after part is joined to a row that is whole. -/
theorem finds_parts {parts : List α}
    (each : ∀ part ∈ parts, Part close (text part) (tree part)) {before : Expr}
    (whole : ∀ right, before.insert .comma (some right) = .binary .comma before right)
    (rest : List Char) :
    Finds (readOperators .inline (some close) before) (commaParts text parts ++ close :: rest)
      (row before (parts.map tree)) (close :: rest) := by
  induction parts generalizing before with
  | nil => exact finds_close closes before rest
  | cons part parts step =>
    have present := each part (List.mem_cons_self ..)
    obtain ⟨first, middle, operand, complete⟩ :=
      present.read .comma (by decide) _ (follows_comma closes parts rest)
    have wholeNext : ∀ right, (Expr.binary .comma before (tree part)).insert .comma (some right) =
        .binary .comma (.binary .comma before (tree part)) right := fun _ => rfl
    have more := step (fun other member => each other (List.mem_cons_of_mem _ member)) wholeNext
    have found := complete (some before) _ _ more
    rw [joined, ← whole first] at found
    have eq : commaParts text (part :: parts) ++ close :: rest =
        ',' :: (text part ++ (commaParts text parts ++ close :: rest)) := by
      simp [commaParts]
    rw [eq]
    exact finds_separator closes (by decide) (present.begins.append _) operand found

end

/-! Brackets. -/

def opening : Bracket → Char
  | .round => '('
  | .square => '['
  | .curly => '{'

def enclosed (bracket : Bracket) (parts : List (List Char)) : List Char :=
  opening bracket :: ([','].intercalate parts ++ [(Enclosure.bracket bracket).close])

section

variable {bracket : Bracket} (boxed : bracket ≠ .round)
include boxed

theorem close_boxed : (Enclosure.bracket bracket).close ∈ [']', '}'] := by
  cases bracket with
  | round => exact absurd rfl boxed
  | square => decide
  | curly => decide

theorem empty?_boxed : (Enclosure.bracket bracket).empty? = some (container bracket []) := by
  cases bracket with
  | round => exact absurd rfl boxed
  | square => rfl
  | curly => rfl

theorem finds_empty (rest : List Char) :
    Finds (readGroup .inline (.bracket bracket)) ((Enclosure.bracket bracket).close :: rest)
      (container bracket []) rest := by
  intro input eq
  have visible : Visible ((Enclosure.bracket bracket).close :: rest) := by
    cases bracket <;> rfl
  obtain ⟨gapRest, goesOn⟩ := skip_visible .inline visible false (.inl eq)
  have closed : (Gap.skip .inline false input).1.eat? (Enclosure.bracket bracket).close =
      some (Gap.skip .inline false input).1.advance := by
    simp [Input.eat?, Input.isAt, isClass_eq gapRest]
  unfold readGroup
  simp only [goesOn, Bool.not_true, Bool.false_eq_true, if_false, empty?_boxed boxed, closed]
  refine ⟨_, rfl, rfl, ?_⟩
  simp only [rest_advance, gapRest, List.tail_cons]

variable {α : Type} {text : α → List Char} {tree : α → Expr}

theorem finds_filled {first : α} {parts : List α}
    (each : ∀ part ∈ first :: parts,
      Part (Enclosure.bracket bracket).close (text part) (tree part)) (rest : List Char) :
    Finds (readGroup .inline (.bracket bracket))
      (text first ++ (commaParts text parts ++ (Enclosure.bracket bracket).close :: rest))
      (container bracket ((first :: parts).map tree)) rest := by
  intro input eq
  have closes := close_boxed boxed
  have present := each first (List.mem_cons_self ..)
  have begins := present.begins.append
    (commaParts text parts ++ (Enclosure.bracket bracket).close :: rest)
  have takes : TakesValue (Enclosure.bracket bracket).op := by
    cases bracket <;> decide
  obtain ⟨gapRest, goesOn⟩ := skip_visible .inline begins.visible false (.inl eq)
  obtain ⟨head, middle, operand, complete⟩ :=
    present.read _ takes _ (follows_comma closes parts rest)
  have more := finds_parts closes (fun part member => each part (List.mem_cons_of_mem _ member))
    present.single.insert_comma rest
  obtain ⟨found, success, value, left⟩ := operand _ gapRest
  obtain ⟨parsed, read, final, finalRest⟩ := complete none _ _ more found.rest left
  have notClosed : (Gap.skip .inline false input).1.eat? (Enclosure.bracket bracket).close =
      none := by
    have marked : ∀ char ∈ [']', '}'], char ∈ [',', ':', ']', '}'] := by simp
    rw [← gapRest] at begins
    simp [Input.eat?, begins.not_isAt (marked _ closes)]
  unfold readGroup
  simp only [goesOn, Bool.not_true, Bool.false_eq_true, if_false, empty?_boxed boxed, notClosed,
    success, bind, Except.bind, value]
  rw [joined] at read
  simp only [read]
  refine ⟨_, rfl, ?_, ?_⟩
  · simp only [final]
    rfl
  · simp only [rest_advance, finalRest, List.tail_cons]

theorem operand_container {parts : List α}
    (each : ∀ part ∈ parts, Part (Enclosure.bracket bracket).close (text part) (tree part)) :
    Operand (enclosed bracket (parts.map text)) (container bracket (parts.map tree)) where
  begins := ⟨_, _, rfl, by cases bracket <;> rfl, by cases bracket <;> decide⟩
  led op rest _ := by
    intro input eq
    have group : Finds (readGroup .inline (.bracket bracket))
        ([','].intercalate (parts.map text) ++ (Enclosure.bracket bracket).close :: rest)
        (container bracket (parts.map tree)) rest := by
      cases parts with
      | nil => exact finds_empty boxed rest
      | cons first parts =>
        rw [intercalate_comma, List.append_assoc]
        exact finds_filled boxed each rest
    have begins : input.rest = opening bracket ::
        ([','].intercalate (parts.map text) ++ (Enclosure.bracket bracket).close :: rest) := by
      rw [eq, enclosed, List.cons_append, List.append_assoc, List.singleton_append]
    obtain ⟨parsed, success, value, left⟩ :=
      group input.advance (by rw [rest_advance, begins, List.tail_cons])
    have plain : opening bracket ∉ leaders := by
      cases bracket <;> decide
    have other : opening bracket ≠ 'v' := by
      cases bracket <;> decide
    have opens : Enclosure.ofOpening? (opening bracket) = some (.bracket bracket) := by
      cases bracket <;> rfl
    rw [readLed_group begins plain (not_declared begins other) op opens, success]
    exact ⟨_, rfl, value, left⟩

end

end HtmlTemplate.JsonText
