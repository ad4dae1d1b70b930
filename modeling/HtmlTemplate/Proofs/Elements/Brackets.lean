import HtmlTemplate.Proofs.Elements.Rows

/-! Elements in brackets. An element that is an expression by itself is read in brackets as it is alone, then comes
the mark after it, and so on up to the closing bracket. -/

namespace HtmlTemplate

namespace Expr

theorem single_of_isBracketed {tree : Expr} (finished : tree.isBracketed = true) : tree.Single := by
  cases tree with
  | emptyArray => trivial
  | emptyDict => trivial
  | bracketed => trivial
  | _ => cases finished

end Expr

namespace Elements

open Reading

variable {options : ParseOptions} {tail : List Char}

/-! An expression by itself is one element. -/

theorem isBracketed_readGroup {enclosure : Enclosure} {input : Input} {parsed : Parsed Expr input}
    (read : Parser.readGroup options enclosure input = .ok parsed) : parsed.value.isBracketed = true := by
  rw [Parser.readGroup] at read
  dsimp only at read
  split at read
  · cases read
  · split at read
    · rename_i empty next empties eaten
      cases read
      cases enclosure with
      | branch => cases empties
      | bracket bracket => cases bracket <;> cases empties <;> rfl
    · obtain ⟨first, -, read⟩ := bind_eq_ok.mp read
      obtain ⟨inner, -, read⟩ := bind_eq_ok.mp read
      cases read
      rfl

theorem single_wordExpr (word : String) : (Literal.wordExpr word).Single := by
  unfold Literal.wordExpr
  repeat' split
  all_goals trivial

theorem single_readValue {op : Op} (filled : op ≠ .call) {input : Input} {parsed : Parsed Expr input}
    (read : Parser.readValue op input = .ok parsed) : parsed.value.Single := by
  have nothing : ¬Parser.readValue.nothing op input = .ok parsed := by
    rw [Parser.readValue.nothing, if_neg filled]
    rintro ⟨⟩
  unfold Parser.readValue at read
  split at read
  · exact absurd read nothing
  · split at read
    · obtain ⟨text, -, rfl⟩ := map_eq_ok.mp read
      trivial
    · split at read
      · cases read
        trivial
      · dsimp only at read
        split at read
        · exact absurd read nothing
        · cases read
          exact single_wordExpr _

theorem single_readName {input : Input} {parsed : Parsed Expr input}
    (read : Parser.readName input = .ok parsed) : parsed.value.Single := by
  unfold Parser.readName at read
  dsimp only at read
  split at read
  · cases read
  · cases read
    trivial

theorem single_readLed {op : Op} (filled : op ≠ .call) {input : Input} {parsed : Parsed Expr input}
    (read : Parser.readLed options op input = .ok parsed) : parsed.value.Single := by
  cases found : OperatorReading.readLeading options input with
  | error fault =>
    rw [readLed_failed found] at read
    cases read
  | ok result =>
    cases result with
    | some marked =>
      obtain ⟨mark, next⟩ := marked
      have later := (OperatorReading.passes_of_readLeading found).2
      have shorter := Gap.size_skip_le options false next
      obtain ⟨reached, eq⟩ := readLed_marked found op
      rw [eq] at read
      split at read
      · cases read
      · obtain ⟨operand, led, rfl⟩ := map_eq_ok.mp read
        have single : operand.value.Single := single_readLed filled led
        cases mark with
        | none => exact single
        | some op =>
          have leads := isLeading_of_readLeading found op rfl
          have bound := Expr.priority_le_unaryBound (by rw [leads, Bool.true_or])
          exact Nat.lt_of_le_of_lt bound (by decide)
    | none =>
      rw [readLed_unmarked found] at read
      split at read
      · exact single_readValue filled read
      · split at read
        · exact single_readValue filled read
        · obtain ⟨inner, group, rfl⟩ := map_eq_ok.mp read
          have finished : inner.value.isBracketed = true := isBracketed_readGroup group
          exact Expr.single_of_isBracketed finished
termination_by input.size
decreasing_by all_goals omega

theorem single_readOperand {op : Op} (filled : op ≠ .call) {input : Input} {parsed : Parsed Expr input}
    (read : Parser.readOperand options op input = .ok parsed) : parsed.value.Single := by
  rw [Parser.readOperand] at read
  split at read
  · cases read
  · split at read
    · obtain ⟨operand, name, rfl⟩ := map_eq_ok.mp read
      have single : operand.value.Single := single_readName name
      exact single
    · obtain ⟨operand, led, rfl⟩ := map_eq_ok.mp read
      have single : operand.value.Single := single_readLed filled led
      exact single

/-- What follows an operator of an element leaves it one element. -/
theorem single_readApplied {op : Op} (strong : op.priority < Op.priority .comma) {tree : Expr} (single : tree.Single)
    {input : Input} {parsed : Parsed Expr input}
    (read : Parser.readApplied options tree op input = .ok parsed) : parsed.value.Single := by
  rw [Parser.readApplied] at read
  split at read
  · cases read
    exact single.insert strong none
  · split at read
    · obtain ⟨right, -, read⟩ := bind_eq_ok.mp read
      cases read
      exact single.insert strong _
    · obtain ⟨right, -, read⟩ := bind_eq_ok.mp read
      have applied := single.insert strong (some right.value)
      split at read
      · obtain ⟨otherwise, -, read⟩ := bind_eq_ok.mp read
        cases read
        exact applied.insert (by decide) _
      · cases read
        exact applied

/-- A row by itself ends for good, or it goes on with an operator that separates no elements. -/
theorem readOperators_cases {tree : Expr} {first : Input} {parsed : Parsed Expr first}
    (read : Parser.readOperators options.separated none tree first = .ok parsed)
    (done : (Gap.skip options false parsed.rest).1.rest = []) :
    parsed.value = tree ∧ (Gap.skip options false first).1.rest = [] ∨
      (Gap.skip options.separated true first).2 = true ∧ ∃ op next,
        OperatorReading.read options.separated false (Gap.skip options.separated true first).1 = .ok (some (op, next)) ∧
        ∃ applied, Parser.readApplied options.separated tree op next = .ok applied ∧
        ∃ row, Parser.readOperators options.separated none applied.value applied.rest = .ok row ∧
          row.value = parsed.value ∧ row.rest = parsed.rest := by
  cases goesOn : (Gap.skip options.separated true first).2 with
  | false =>
    rw [@readOperators_ended options.separated none first tree (.inl goesOn)] at read
    cases read
    have left : (Gap.skip options false (Gap.skip options true first).1).1.rest = [] := done
    rw [skip_skip] at left
    exact .inl ⟨rfl, left⟩
  | true =>
    have visible : Visible (Gap.skip options.separated true first).1.rest := visible_skip goesOn
    cases found : OperatorReading.read options.separated false (Gap.skip options.separated true first).1 with
    | error fault =>
      rw [@readOperators_failed options.separated none first tree goesOn rfl _ found] at read
      cases read
    | ok result =>
      cases result with
      | none =>
        rw [@readOperators_ended options.separated none first tree (.inr ⟨rfl, found⟩)] at read
        cases read
        have left := (skip_visible options visible false (.inl rfl)).1
        exact absurd (left.symm.trans done) visible.ne_nil
      | some passed =>
        obtain ⟨op, next⟩ := passed
        obtain ⟨reached, one⟩ := @readOperators_applied options.separated none first tree goesOn rfl _ _ found
        rw [one] at read
        obtain ⟨applied, right, read⟩ := bind_eq_ok.mp read
        obtain ⟨row, more, rfl⟩ := map_eq_ok.mp read
        exact .inr ⟨rfl, op, next, rfl, applied, right, row, more, rfl, rfl⟩

theorem size_applied_lt {complete : Bool} {op : Op} {first next : Input}
    (found : OperatorReading.read options false (Gap.skip options complete first).1 = .ok (some (op, next)))
    (applied : Parsed Expr next) : applied.rest.size < first.size := by
  have gap := Gap.size_skip_le options complete first
  have passes := (OperatorReading.passes_of_read found).2
  have right := applied.le
  omega

theorem single_readOperators {tree : Expr} (single : tree.Single) {first : Input} {parsed : Parsed Expr first}
    (read : Parser.readOperators options.separated none tree first = .ok parsed)
    (done : (Gap.skip options false parsed.rest).1.rest = []) : parsed.value.Single := by
  obtain ⟨value, -⟩ | ⟨-, op, next, found, applied, right, row, more, value, rest⟩ := readOperators_cases read done
  · exact value ▸ single
  · have shorter := size_applied_lt found applied
    rw [← value]
    exact single_readOperators (single_readApplied (strong_of_read found) single right) more (rest ▸ done)
termination_by first.size
decreasing_by all_goals omega

/-! An element among others. -/

/-- After a gap before a text, the row up to a closing mark has a value and leaves a rest. -/
def Completes (options : ParseOptions) (mark : Char) (tree : Expr) (text : List Char) (value : Expr)
    (rest : List Char) : Prop :=
  ∀ input, Approaches options input text →
    ∃ parsed, Parser.readOperators options (some mark) tree input = .ok parsed ∧ parsed.value = value ∧
      parsed.rest.rest = rest

theorem completes_close (options : ParseOptions) (mark : Char) (tree : Expr) (rest : List Char) :
    Completes options mark tree (mark :: rest) tree (mark :: rest) := by
  intro input reached
  have closes : (Gap.skip options false input).1.isAt mark = true := by
    rw [Input.isAt, isClass_eq reached.rest, beq_self_eq_true]
  rw [@readOperators_closed options (some mark) input tree reached.goesOn closes]
  exact ⟨_, rfl, rfl, reached.rest⟩

/-- An operator and its right side are read, and then the rest of the row. -/
theorem completes_applied {mark : Char} {tree : Expr} {input next : Input} {op : Op}
    (goesOn : (Gap.skip options false input).2 = true)
    (opened : (Gap.skip options false input).1.isAt mark = false)
    (found : OperatorReading.read options true (Gap.skip options false input).1 = .ok (some (op, next)))
    {applied : Parsed Expr next} (right : Parser.readApplied options tree op next = .ok applied) {value : Expr}
    {rest : List Char} (more : ∃ final, Parser.readOperators options (some mark) applied.value applied.rest = .ok final ∧
      final.value = value ∧ final.rest.rest = rest) :
    ∃ final, Parser.readOperators options (some mark) tree input = .ok final ∧ final.value = value ∧
      final.rest.rest = rest := by
  obtain ⟨final, success, result⟩ := more
  obtain ⟨reached, read⟩ := @readOperators_applied options (some mark) input tree goesOn opened _ _ found
  refine ⟨final.widen (reached applied), ?_, result⟩
  rw [read, right]
  change (Parser.readOperators options (some mark) applied.value applied.rest).map _ = _
  rw [success]
  rfl

/-- Where a row by itself ends for good, the row in brackets goes on after it, with the tree that has been read
after whatever stood before it. -/
theorem readOperators_goesOn (marked : Marked tail) {mark : Char} (closes : mark ∈ [']', ')']) (before : Option Expr)
    {tree : Expr} {first second : Input} (further : Extends tail first second) {parsed : Parsed Expr first}
    (read : Parser.readOperators options.separated none tree first = .ok parsed)
    (done : (Gap.skip options false parsed.rest).1.rest = []) {value : Expr} {rest : List Char}
    (completes : Completes options mark (Expr.joined before parsed.value) tail value rest) :
    ∃ final, Parser.readOperators options (some mark) (Expr.joined before tree) second = .ok final ∧
      final.value = value ∧ final.rest.rest = rest := by
  obtain ⟨same, nothing⟩ | ⟨goesOn, op, next, found, applied, right, row, more, same, left⟩ :=
    readOperators_cases read done
  · have reached := skip_extends marked options false (further.skipSpacing marked.closes) (.inr nothing)
    rw [nothing, List.nil_append] at reached
    rw [same] at completes
    exact completes second reached
  · have shorter := size_applied_lt found applied
    obtain ⟨begins, follows⟩ := skip_extends marked options true (further.skipSpacing marked.closes) (.inl goesOn)
    have after : Extends tail (Gap.skip options.separated true first).1 (Gap.skip options false second).1 := begins
    have bridges : Bridges tail options.separated options := marked.bridges
    obtain ⟨follow, sought, later⟩ := read_extends bridges.operators separates_separated after bridges.closes found
    have opened : (Gap.skip options false second).1.isAt mark = false := by
      rw [Input.isAt, after.isClass_begun (visible_skip goesOn).ne_nil]
      exact not_isAt_of_read found closes
    have joins : ∀ instead ∈ [op, .alternative], ∀ right tree,
        (Expr.joined before tree).insert instead right = Expr.joined before (tree.insert instead right) := by
      have strong : ∀ instead ∈ [op, .alternative], instead.priority < Op.priority .comma :=
        List.forall_mem_cons.mpr ⟨strong_of_read found, List.forall_mem_singleton.mpr (by decide)⟩
      exact fun instead member => Expr.joined_insert fun _ _ => strong instead member
    obtain ⟨y, again, twin, rest⟩ :=
      readApplied_again bridges op joins tree later applied right
    apply completes_applied follows opened sought again
    rw [twin]
    exact readOperators_goesOn marked closes before rest more (left ▸ done) (same ▸ completes)
termination_by first.size
decreasing_by all_goals omega

theorem goesOn_of_readOperand {op : Op} {input : Input} {parsed : Parsed Expr input}
    (read : Parser.readOperand options op input = .ok parsed) : (Gap.skip options false input).2 = true := by
  rw [Parser.readOperand] at read
  cases goesOn : (Gap.skip options false input).2 with
  | false =>
    rw [goesOn] at read
    cases read
  | true => rfl

/-- No operand but that of a call begins with the closing mark. -/
theorem not_isAt_of_readOperand {op : Op} (alike : Alike .group op) (filled : op ≠ .call) {input : Input}
    {parsed : Parsed Expr input} (read : Parser.readOperand options op input = .ok parsed) :
    (Gap.skip options false input).1.isAt ']' = false := by
  rw [Bool.eq_false_iff]
  intro here
  obtain ⟨char, text, eq⟩ := List.exists_cons_of_ne_nil (Input.rest_ne_nil_of_isClass here)
  obtain rfl : char = ']' := by
    rw [Input.isAt, isClass_eq eq] at here
    exact beq_iff_eq.mp here
  have nothing : Parser.readLed options op (Gap.skip options false input).1 =
      .error (.here .missingOperand (Gap.skip options false input).1.pos) := by
    rw [readLed_plain eq (by decide) (not_declared eq (by decide)) op rfl, Parser.readValue, eq]
    simp [Literal.readWord, Input.takeWhile, eq, Parser.readValue.nothing, filled,
      show CharClass.isIdent ']' = false from rfl, show CharClass.isDigit ']' = false from rfl]
  have unnamed : ¬(op = .member ∨ op = .sharp ∨ op = .scope) := by
    rw [← alike.named]
    decide
  rw [Parser.readOperand, if_neg unnamed, nothing] at read
  split at read <;> cases read

/-- A text that is one expression by itself, with the tree that it is read as: every separator outside of brackets
would end it, and nothing is left of it but white space that may also stand in brackets. -/
structure Element (options : ParseOptions) where
  text : List Char
  parsed : Parsed Expr (.ofText text)
  read : Expr.parse options.separated text = .ok parsed
  done : (Gap.skip options false parsed.rest).1.atEnd = true

namespace Element

/-- A text as an element, if it is one. -/
def ofText? (options : ParseOptions) (text : List Char) : Option (Element options) :=
  match read : Expr.parse options.separated text with
  | .error _ => none
  | .ok parsed =>
    if done : (Gap.skip options false parsed.rest).1.atEnd = true then some ⟨text, parsed, read, done⟩ else none

variable (element : Element options)

def tree : Expr := element.parsed.value

theorem parts : ∃ first, Parser.readOperand options.separated .group (.ofText element.text) = .ok first ∧
    ∃ row, Parser.readOperators options.separated none first.value first.rest = .ok row ∧
      row.value = element.tree ∧ (Gap.skip options false row.rest).1.rest = [] := by
  obtain ⟨text, parsed, read, done⟩ := element
  obtain ⟨first, operand, read⟩ := bind_eq_ok.mp read
  obtain ⟨row, operators, same⟩ := bind_eq_ok.mp read
  cases same
  exact ⟨first, operand, row, operators, rfl, List.isEmpty_iff.mp done⟩

theorem single : element.tree.Single := by
  obtain ⟨first, operand, row, operators, value, done⟩ := element.parts
  exact value ▸ single_readOperators (single_readOperand (by decide) operand) operators done

/-- The gap before the element is followed by something that closes no brackets. -/
theorem begins : (Gap.skip options false (.ofText element.text)).2 = true ∧
    (Gap.skip options false (.ofText element.text)).1.isAt ']' = false := by
  obtain ⟨first, operand, -⟩ := element.parts
  exact ⟨@goesOn_of_readOperand options.separated _ _ _ operand,
    @not_isAt_of_readOperand options.separated _ (.refl .group) (by decide) _ _ operand⟩

/-- Where an operand may begin, an element is read up to its first operator, and then up to the mark after it. -/
theorem reads (marked : Marked tail) {mark : Char} (closes : mark ∈ [']', ')']) {instead : Op}
    (alike : Alike .group instead) {input : Input}
    (reaches : Approaches options input ((Gap.skip options false (.ofText element.text)).1.rest ++ tail)) :
    ∃ operand, Parser.readOperand options instead input = .ok operand ∧ ∀ before {value : Expr} {rest : List Char},
      Completes options mark (Expr.joined before element.tree) tail value rest →
      ∃ final, Parser.readOperators options (some mark) (Expr.joined before operand.value) operand.rest = .ok final ∧
        final.value = value ∧ final.rest.rest = rest := by
  obtain ⟨first, operand, row, operators, value, done⟩ := element.parts
  obtain ⟨found, again, twin, further⟩ := readOperand_again marked.bridges alike (fun _ => reaches) first operand
  refine ⟨found, again, fun before _ _ completes => ?_⟩
  rw [twin]
  exact readOperators_goesOn marked closes before further operators done (value ▸ completes)

end Element

/-! Rows of elements. -/

/-- Elements after the first one in brackets, each after a comma and a space. -/
def following (elements : List (Element options)) : List Char :=
  elements.flatMap fun element => [',', ' '] ++ element.text

/-- What stands between the brackets. -/
def inner (elements : List (Element options)) : List Char := [',', ' '].intercalate (elements.map (·.text))

theorem inner_cons (first : Element options) (elements : List (Element options)) :
    inner (first :: elements) = first.text ++ following elements := by
  rw [inner, List.map_cons, intercalate_cons, List.flatMap_map]
  rfl

theorem marked_following (elements : List (Element options)) {mark : Char} (closes : mark ∈ [']', ')'])
    (rest : List Char) : Marked (following elements ++ mark :: rest) := by
  cases elements with
  | nil => exact ⟨mark, rest, rfl, List.mem_cons_of_mem _ closes⟩
  | cons first elements => exact ⟨',', _, rfl, List.mem_cons_self ..⟩

section

variable (commas : options.operators.contains .comma = true) {mark : Char} (closes : mark ∈ [']', ')'])
include commas

theorem read_comma {input : Input} {text : List Char} (begins : input.rest = ',' :: text) :
    OperatorReading.read options true input = .ok (some (.comma, input.advance)) := by
  rw [OperatorReading.read, readSymbol_none begins (by decide), begins]
  simp [OperatorReading.opening?, OperatorReading.single?, OperatorReading.separator?, OperatorReading.check, commas,
    Except.map]

include closes

/-- Element after element is joined to the row. -/
theorem completes_row (elements : List (Element options)) {before : Expr}
    (whole : ∀ right, before.insert .comma (some right) = .binary .comma before right) (rest : List Char) :
    Completes options mark before (following elements ++ mark :: rest) (Expr.row before (elements.map (·.tree)))
      (mark :: rest) := by
  induction elements generalizing before with
  | nil => exact completes_close options mark before rest
  | cons element elements step =>
    have text : following (element :: elements) ++ mark :: rest =
        ',' :: ' ' :: (element.text ++ (following elements ++ mark :: rest)) := by
      simp [following]
    have marked := marked_following elements closes rest
    have alike : Alike .group .comma := ⟨by decide, by rintro ⟨⟩⟩
    rw [text]
    intro input reached
    have opened : (Gap.skip options false input).1.isAt mark = false := by
      rw [Input.isAt, isClass_eq reached.rest]
      fin_cases closes <;> rfl
    have found := read_comma commas reached.rest
    have spaced : Extends (following elements ++ mark :: rest) (Input.ofText element.text).skipSpacing
        (Gap.skip options false input).1.advance.skipSpacing := by
      have unspaced : Extends (following elements ++ mark :: rest) (.ofText element.text)
          (Gap.skip options false input).1.advance.advance := by
        rw [Extends, rest_advance, rest_advance, reached.rest]
        rfl
      have space : (Gap.skip options false input).1.advance.rest =
          ' ' :: (element.text ++ (following elements ++ mark :: rest)) := by
        rw [rest_advance, reached.rest]
        rfl
      exact (rest_skipSpacing_space space).trans (unspaced.skipSpacing marked.closes)
    have reaches := skip_extends marked options false spaced (.inl element.begins.1)
    obtain ⟨operand, read, goesOn⟩ := element.reads marked closes alike reaches
    have right : Parser.readApplied options before .comma (Gap.skip options false input).1.advance =
        .ok (operand.map fun right => before.insert .comma (some right)) := by
      rw [Parser.readApplied]
      simp only [Op.isTrailing, Bool.false_eq_true, if_false, Enclosure.ofOp?, read]
      rfl
    apply completes_applied reached.goesOn opened found right
    change ∃ final, Parser.readOperators options (some mark) (before.insert .comma (some operand.value)) operand.rest =
      .ok final ∧ _
    rw [whole]
    exact goesOn (some before) (step fun _ => rfl)

end

/-! Groups. -/

/-- The brackets of arrays and of calls. -/
theorem close_flat {bracket : Bracket} (flat : bracket ≠ .curly) :
    (Enclosure.bracket bracket).close ∈ [']', ')'] := by
  cases bracket with
  | curly => exact absurd rfl flat
  | _ => decide

/-- Brackets without anything between them. -/
theorem finds_hollow {bracket : Bracket} (flat : bracket ≠ .curly) (rest : List Char) :
    Finds (Parser.readGroup options (.bracket bracket)) ((Enclosure.bracket bracket).close :: rest)
      (Expr.container bracket []) rest := by
  intro input eq
  have visible : Visible ((Enclosure.bracket bracket).close :: rest) := by
    cases bracket <;> rfl
  obtain ⟨gapRest, goesOn⟩ := skip_visible options visible false (.inl eq)
  have left : (Gap.skip options false input).1.advance.rest = rest := by rw [rest_advance, gapRest, List.tail_cons]
  unfold Parser.readGroup
  simp only [goesOn, Bool.not_true, Bool.false_eq_true, if_false]
  cases bracket with
  | curly => exact absurd rfl flat
  | square =>
    have closed : (Gap.skip options false input).1.eat? ']' = some (Gap.skip options false input).1.advance := by
      simp [Input.eat?, Input.isAt, isClass_eq gapRest, Enclosure.close]
    simp only [Enclosure.empty?, Enclosure.close, closed]
    exact ⟨_, rfl, rfl, left⟩
  | round =>
    obtain ⟨nothing, success, value, after⟩ := finds_noArguments options rest _ gapRest
    have reached := approaches_visible options visible after
    obtain ⟨final, closed, same, last⟩ := completes_close options ')' nothing.value rest _ reached
    simp only [Enclosure.empty?, Enclosure.op, Enclosure.close, success, bind, Except.bind, closed]
    refine ⟨_, rfl, ?_, ?_⟩
    · rw [same, value]
      rfl
    · rw [rest_advance, last, List.tail_cons]

theorem finds_group (commas : options.operators.contains .comma = true) {bracket : Bracket} (flat : bracket ≠ .curly)
    (elements : List (Element options)) (rest : List Char) :
    Finds (Parser.readGroup options (.bracket bracket)) (inner elements ++ (Enclosure.bracket bracket).close :: rest)
      (Expr.container bracket (elements.map (·.tree))) rest := by
  cases elements with
  | nil => exact finds_hollow flat rest
  | cons first elements =>
    intro input eq
    have closes := close_flat flat
    have marked := marked_following elements closes rest
    have further : Extends (following elements ++ (Enclosure.bracket bracket).close :: rest) (.ofText first.text)
        input := by
      rw [Extends, eq, inner_cons, List.append_assoc]
      rfl
    have reached := skip_extends marked options false (further.skipSpacing marked.closes) (.inl first.begins.1)
    have alike : Alike .group (Enclosure.bracket bracket).op := by
      cases bracket <;> exact ⟨by decide, by rintro ⟨⟩⟩
    obtain ⟨operand, read, goesOn⟩ := first.reads marked closes alike reached.again
    obtain ⟨final, success, value, left⟩ :=
      goesOn none (completes_row commas closes elements first.single.insert_comma rest)
    unfold Parser.readGroup
    simp only [reached.goesOn, Bool.not_true, Bool.false_eq_true, if_false]
    split
    · rename_i empty next empties eaten
      have after : Extends _ (Gap.skip options false (.ofText first.text)).1 (Gap.skip options false input).1 :=
        reached.rest
      have opened : (Gap.skip options false input).1.isAt ']' = false :=
        (after.isClass_begun (visible_skip first.begins.1).ne_nil _).trans first.begins.2
      cases bracket with
      | round => cases empties
      | curly => exact absurd rfl flat
      | square =>
        rw [Enclosure.close, Input.eat?, opened] at eaten
        cases eaten
    · rw [Expr.joined] at success
      simp only [read, bind, Except.bind, success]
      refine ⟨_, rfl, ?_, ?_⟩
      · rw [value]
        rfl
      · rw [rest_advance, left, List.tail_cons]

end Elements

end HtmlTemplate
